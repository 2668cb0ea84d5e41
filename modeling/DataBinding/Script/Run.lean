import DataBinding.Script.Step
/-!
# Running scripts

A script as a client of the machine: what its code does when it is resumed, and how a list of
steps becomes a list of answers. Each step runs on its own; a panic ends the step, not the script.
-/

namespace DataBinding.Script

/-- The fields of a step's result. -/
def resultFields : Read Data → List (String × Data)
  | .ok d => [("r", d)]
  | .error f => f.fields

/-- A step has its result: at the top it is the answer, elsewhere it is logged. -/
def settle (w : Scene) (inside : Option String) (todo : List Work) (held : List Node)
    (r : Read Data) : Scene × Move Function Code :=
  match inside with
  | some id => (w.log (("in", .text id) :: resultFields r), .goOn (.work inside todo held))
  | none =>
    ({ w with client := { w.client with result := r } }, .goOn (.work inside todo held))

/-- Carry out a step. -/
def startStep (w : Scene) (inside : Option String) (todo : List Work) (held : List Node)
    (d : Data) : Scene × Move Function Code :=
  match (actOf d).run w with
  | .error f => settle w inside todo held (.error f)
  | .ok (.result r, w) => settle w inside todo held (.ok r)
  | .ok (.perform command pending holding, w) =>
    (w, .perform command (.await inside todo held pending holding))
  | .ok (.panic message, w) => (w, .panic message)

/-- Consider a reaction: the first fits are passed over, the next ones run the steps. Counts go down
before the steps run. -/
def react (w : Scene) (inside : Option String) (todo : List Work) (held : List Node)
    (r : Reaction) (counts : Nat) (v : Value) : Scene × Move Function Code :=
  let setCounts (c : Nat × Nat) : Scene :=
    { w with client := { w.client with counts := w.client.counts.setIfInBounds counts c } }
  if r.condition.all (·.eqv v) then
    match w.client.counts[counts]?.getD (0, 0) with
    | (skip + 1, times) => (setCounts (skip, times), .goOn (.work inside todo held))
    | (0, times + 1) =>
      (setCounts (0, times), .goOn (.work inside (r.steps.map .step ++ todo) held))
    | (0, 0) => (w, .goOn (.work inside todo held))
  else (w, .goOn (.work inside todo held))

/-- Make a step's result of the answer to its command. -/
def answered (w : Scene) (inside : Option String) (todo : List Work) (held : List Node)
    (signal : Signal Code) : Pending → Scene × Move Function Code
  | .result r => settle w inside todo held r
  | .flag =>
    settle w inside todo held (.ok (match signal with | .flag b => .bool b | _ => .null))
  | .count =>
    settle w inside todo held (.ok (match signal with | .count n => .ofNat n | _ => .null))
  | .size c => settle w inside todo held (.ok (.ofNat (w.heap.composite c).members.length))
  | .subscribed id =>
    let t := signal.teardown
    let (handle, h) := w.heap.newHandle t
    newcomer (w.withHeap h) ((storeHandle id handle (disposedResult t.isNothing)).run (w.withHeap h))
  | .bound id pipeline changes result =>
    let (handle, h) := w.heap.newHandle signal.teardown
    let w := w.withHeap h
    match id with
    | none => (w, .perform (.dispose handle) (.await inside todo held (.result (.ok result)) []))
    | some id =>
      if w.client.bindings.has id then
        (w, .perform (.dispose handle)
          (.await inside todo held (.result (.error (.fault .duplicateId))) []))
      else
        let binding := ⟨handle, pipeline, changes⟩
        settle { w with client := { w.client with bindings := (id, binding) :: w.client.bindings } }
          inside todo held (.ok result)
where
  newcomer (w : Scene) : Except Failure (Act × Scene) → Scene × Move Function Code
    | .ok (.result r, w) => settle w inside todo held (.ok r)
    | .ok (.perform command pending holding, w) =>
      (w, .perform command (.await inside todo held pending holding))
    | .ok (.panic message, w) => (w, .panic message)
    | .error f => settle w inside todo held (.error f)

/-- Go on with the code of a script. -/
def resume (code : Code) (signal : Signal Code) (w : Scene) : Scene × Move Function Code :=
  match code with
  | .observe id reactions counts =>
    match signal with
    | .value v =>
      let todo := reactions.mapIdx fun i r => Work.react r (counts + i) v
      (w.log [("sub", .text id), ("v", w.written v)], .goOn (.work (some id) todo v.refs))
    | _ => (w, .finish)
  | .teardown id steps =>
    (w.log [("teardown", .text id)], .goOn (.work (some id) (steps.map .step) []))
  | .task id steps => (w, .goOn (.work (some id) (steps.map .step) []))
  | .work _ [] _ => (w, .finish)
  | .work inside (.step d :: todo) held => startStep w inside todo held d
  | .work inside (.react r counts v :: todo) held => react w inside todo held r counts v
  | .await inside todo held pending _ => answered w inside todo held signal pending

/-- Scripts as clients of the machine. -/
def client : Client Function Code Session where
  apply f v w := f.apply v w
  resume := resume
  functionRefs := Function.refs
  codeRefs := Code.refs
  refs := Session.refs

/-! ## Whole scripts -/

/-- More steps of the machine than any script that comes to an end takes. -/
def stepLimit : Nat := 0x4000000000000000

/-- Run one step of a script from a scene, and give its answer. -/
def runStep (w : Scene) (d : Data) : Data × Scene :=
  let session := { w.client with log := [], result := .ok .null }
  let start : State Function Code Session :=
    ⟨.resume (.work none [.step d] []) .done, [], { w with client := session }⟩
  let final := start.run client stepLimit
  let w := final.world
  let result := match final.control with
    | .panic message => .error (.panic message)
    | _ => w.client.result
  let log := if w.client.log.isEmpty then [] else [("log", Data.list w.client.log.reverse)]
  (.record (resultFields result ++ log), w)

/-- The answers to the steps of a script, in order. -/
def runSteps (w : Scene) : List Data → List Data
  | [] => []
  | d :: rest =>
    let (answer, w) := runStep w d
    answer :: runSteps w rest

/-- Run a written script. -/
def run (d : Data) : Read Data := do
  let caps ← d.capsField (.ofRecords [])
  let steps ← d.listField "steps"
  return .record [("steps", .list (runSteps ⟨.empty, Session.start caps⟩ steps))]

end DataBinding.Script
