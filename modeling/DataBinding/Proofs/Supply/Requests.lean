import DataBinding.Proofs.Supply.Failures
import DataBinding.Script.Run
/-!
# Requests that fail

A step of a script asks for a stream to be observed by plan, for a binding to be activated or for an entry point
to be invoked (`Script.Asks`). Where this fails, all that was in the heap is as it was and no function has been
applied; the step fails too, and then it has performed no command (`Script.building_all_or_nothing`).
-/

namespace DataBinding

namespace State

variable {F C S : Type} {K : Client F C S} {s : State F C S}

/-- A run goes on from the next step. -/
theorem run_step (hs : s.finished = false) (n : Nat) : s.run K (n + 1) = (s.step K).run K n := by
  simp [run, hs]

theorem run_finished (hs : s.finished = true) (n : Nat) : s.run K n = s := by
  cases n <;> simp [run, hs]

end State

namespace Script

open Reading

variable {w w₁ : Scene} {d x : Data} {f : Failure} {e : RunError} {α β : Type}

/-! ## What is read before something is built -/

/-- The plan, the root and the arguments of an observation. -/
def observeRequest (depth : Nat) (x : Data) : Reading (Pipeline × ObjectId × Arguments Function) := do
  let p ← readPlan x
  let root ← objectField x "root"
  let a ← readArguments depth (x.get "args")
  return (p, root, a)

/-- The id, the plan, both objects and the arguments of a binding. -/
def activateRequest (d : Data) :
    Reading (String × BindingPlan × ObjectId × ObjectId × Arguments Function) := do
  let id ← text d "id"
  let plan ← bindingPlanOf d
  let source ← objectField d "source"
  let target ← objectField d "target"
  let a ← argumentsField d
  return (id, plan, source, target, a)

/-- The id, the dispatcher, the name of the entry point, the caller, the objects and the arguments of a call. -/
def invokeRequest (d : Data) :
    Reading (String × Dispatcher × String × Caller × ObjectId × Option ObjectId × Arguments Function) := do
  let id ← text d "id"
  let x ← dispatcher (← text d "dispatcher")
  let name ← entryName d
  let c ← liftM (Caller.ofData (d.get "caller"))
  let receiver ← objectField d "receiver"
  let source ← if (d.get "source").isNull then pure none else some <$> objectField d "source"
  let a ← argumentsField d
  return (id, x, name, c, receiver, source, a)

/-- What a step asks to be built comes to this error. -/
inductive Asks (w : Scene) (d : Data) : RunError → Prop where
  /-- A stream is observed by plan, to be kept. -/
  | stream (hop : d.textFieldD "op" "" = "stream") {id : String} (hid : d.textField "id" = .ok id) {x : Data}
      (hx : d.get "expr" = .record [("observe", x)]) {p : Pipeline} {root : ObjectId}
      {a : Arguments Function} {w₁ : Scene}
      (hr : (observeRequest (2 * (d.get "expr").depth + 1) x).run w = .ok ((p, root, a), w₁)) {e : RunError}
      (he : p.observe root a = .error e) : Asks w d e
  /-- A stream is observed by plan, to be subscribed to. -/
  | subscribe (hop : d.textFieldD "op" "" = "subscribe") {id : String} (hid : d.textField "id" = .ok id)
      {x : Data} (hx : d.get "stream" = .record [("observe", x)]) {p : Pipeline} {root : ObjectId}
      {a : Arguments Function} {w₁ : Scene}
      (hr : (observeRequest (2 * (d.get "stream").depth + 1) x).run w = .ok ((p, root, a), w₁)) {e : RunError}
      (he : p.observe root a = .error e) : Asks w d e
  /-- A binding is activated. -/
  | activate (hop : d.textFieldD "op" "" = "activate") {id : String} {plan : BindingPlan}
      {source target : ObjectId} {a : Arguments Function} {w₁ : Scene}
      (hr : (activateRequest d).run w = .ok ((id, plan, source, target, a), w₁)) {e : RunError}
      (he : (plan.activate source target a w₁.heap).1 = .error e) : Asks w d e
  /-- An entry point is invoked. -/
  | invoke (hop : d.textFieldD "op" "" = "invoke") {id : String} {x : Dispatcher} {name : String} {c : Caller}
      {receiver : ObjectId} {source : Option ObjectId} {a : Arguments Function} {w₁ : Scene}
      (hr : (invokeRequest d).run w = .ok ((id, x, name, c, receiver, source, a), w₁)) {e : RunError}
      (he : (x.invoke name c receiver source a w₁.heap).1 = .error e) : Asks w d e

/-! ## A request that fails makes the step fail -/

theorem run_bind_ok {r : Reading α} {g : α → Reading β} {y : α} (h : r.run w = .ok (y, w₁)) :
    (r >>= g).run w = (g y).run w₁ := by
  rw [StateT.run_bind, h]
  rfl

theorem run_bind_error {r : Reading α} {g : α → Reading β} (h : r.run w = .error f) :
    (r >>= g).run w = .error f := by
  rw [StateT.run_bind, h]
  rfl

theorem run_get : (get : Reading Scene).run w = .ok (w, w) := rfl

theorem run_set : (set w₁ : Reading PUnit).run w = .ok (.unit, w₁) := rfl

theorem run_liftM (r : Read α) : (liftM r : Reading α).run w = r.map (·, w) := by
  cases r <;> rfl

/-- An observation that fails is no expression. -/
theorem exprOf_observe {d : Data} (hx : d = .record [("observe", x)]) {p : Pipeline} {root : ObjectId}
    {a : Arguments Function} (hr : (observeRequest (2 * d.depth + 1) x).run w = .ok ((p, root, a), w₁))
    (he : p.observe root a = .error e) : (exprOf d).run w = .error (.run e) := by
  have hexpr : exprOf d = observeRequest (2 * d.depth + 1) x >>= fun y => do
      return .new (← liftM ((y.1.observe y.2.1 y.2.2).mapError Failure.run)) := by
    subst hx
    rw [exprOf, enough, readExpr]
    simp only [observeRequest, bind_assoc, pure_bind]
  rw [hexpr, run_bind_ok hr]
  refine run_bind_error ?_
  rw [run_liftM, he]
  rfl

theorem run_text {field id : String} (h : d.textField field = .ok id) : (text d field).run w = .ok (id, w) := by
  rw [text, run_liftM, h]
  rfl

/-- What comes after building fails if this does. -/
theorem run_building {r : Except RunError α} {g : α → Reading β} (he : r = .error e) :
    (liftM (r.mapError Failure.run) >>= g : Reading β).run w = .error (.run e) := by
  refine run_bind_error ?_
  rw [run_liftM, he]
  rfl

/-- An activation reads its request, and then fails if the plan cannot be activated. -/
theorem activateStep_eq (d : Data) : ∃ rest, activateStep d = activateRequest d >>= rest ∧
    ∀ {id plan source target a} {w : Scene} {e}, (plan.activate source target a w.heap).1 = .error e →
      (rest (id, plan, source, target, a)).run w = .error (.run e) := by
  refine ⟨fun r => do
    let w ← get
    let x := r.2.1.activate r.2.2.1 r.2.2.2.1 r.2.2.2.2 w.heap
    set (w.withHeap x.2)
    let y ← liftM (x.1.mapError Failure.run)
    activation (some r.1) y r.2.2.2.2 (fun b => .record [("changes", .bool b)])
      [.object r.2.2.1, .object r.2.2.2.1],
    by simp only [activateStep, activateRequest, bind_assoc, pure_bind], ?_⟩
  intro id plan source target a w e he
  exact (run_bind_ok run_get).trans ((run_bind_ok run_set).trans (run_building he))

/-- What a call makes of its outcome. -/
def taken (d : Data) (id : String) (receiver : ObjectId) (source : Option ObjectId) (a : Arguments Function) :
    Dispatcher.Outcome Function Code → Reading Act
  | .observation stream =>
    if d.textFieldD "take" "" = "binding" then return .result (invoked "observation" false)
    else do
      let i ← newStream stream
      store Session.streams (fun s t => { s with streams := t }) id i
      return .result (invoked "observation" true)
  | .binding b =>
    activation (if d.textFieldD "take" "" ≠ "stream" then some id else none) b a
      (fun _ => invoked "binding" (d.textFieldD "take" "" ≠ "stream"))
      (.object receiver :: source.toList.map .object)

/-- A call reads its request, and then fails if it is not answered. -/
theorem invokeStep_eq (d : Data) : ∃ rest, invokeStep d = invokeRequest d >>= rest ∧
    ∀ {id x name c receiver source a} {w : Scene} {e}, (x.invoke name c receiver source a w.heap).1 = .error e →
      (rest (id, x, name, c, receiver, source, a)).run w = .error (.run e) := by
  refine ⟨fun r => do
    let w ← get
    let x := r.2.1.invoke r.2.2.1 r.2.2.2.1 r.2.2.2.2.1 r.2.2.2.2.2.1 r.2.2.2.2.2.2 w.heap
    set (w.withHeap x.2)
    let y ← liftM (x.1.mapError Failure.run)
    taken d r.1 r.2.2.2.2.1 r.2.2.2.2.2.1 r.2.2.2.2.2.2 y, ?_, ?_⟩
  · cases hs : (d.get "source").isNull
    all_goals
      simp only [invokeStep, invokeRequest, hs, Bool.false_eq_true, if_true, if_false, bind_assoc, pure_bind]
      rfl
  · intro id x name c receiver source a w e he
    exact (run_bind_ok run_get).trans ((run_bind_ok run_set).trans (run_building he))

/-- The step fails with the error of what it asks for. -/
theorem actOf_of_asks (h : Asks w d e) : (actOf d).run w = .error (.run e) := by
  cases h with
  | stream hop hid hx hr he =>
    rw [actOf, hop]
    exact (run_bind_ok (run_text hid)).trans (run_bind_error (exprOf_observe hx hr he))
  | subscribe hop hid hx hr he =>
    rw [actOf, hop]
    exact (run_bind_ok (run_text hid)).trans (run_bind_error (exprOf_observe hx hr he))
  | activate hop hr he =>
    obtain ⟨rest, hstep, hrest⟩ := activateStep_eq d
    rw [actOf, hop]
    change (activateStep d).run w = _
    rw [hstep, run_bind_ok hr]
    exact hrest he
  | invoke hop hr he =>
    obtain ⟨rest, hstep, hrest⟩ := invokeStep_eq d
    rw [actOf, hop]
    change (invokeStep d).run w = _
    rw [hstep, run_bind_ok hr]
    exact hrest he

/-! ## A step that fails leaves no trace -/

/-- A step that fails is over at once: it has changed nothing but its result. -/
theorem startStep_error (hf : (actOf d).run w = .error f) (inside : Option String) (todo : List Work)
    (held : List Node) :
    startStep w inside todo held d = settle w inside todo held (.error f) ∧
      (settle w inside todo held (.error f)).1.heap = w.heap ∧
      (settle w inside todo held (.error f)).2 = .goOn (.work inside todo held) := by
  refine ⟨by rw [startStep, hf], ?_⟩
  cases inside <;> exact ⟨rfl, rfl⟩

/-- The session with the result of a step, and nothing logged. -/
def settled (w : Scene) (r : Read Data) : Scene :=
  { w with client := { w.client with log := [], result := r } }

/-- Where a step of a script is about to be run. -/
def opened (w : Scene) (d : Data) : State Function Code Session :=
  ⟨.resume (.work none [.step d] []) .done, [], settled w (.ok .null)⟩

/-- A step that fails comes to its end, whatever functions do. -/
theorem run_error (hf : (actOf d).run (settled w (.ok .null)) = .error f)
    (apply : Function → Value → Scene → Value × Scene) {n : Nat} (hn : 2 ≤ n) :
    (opened w d).run { client with apply := apply } n = ⟨.pass .done, [], settled w (.error f)⟩ := by
  obtain ⟨n, rfl⟩ := Nat.exists_eq_add_of_le' hn
  have hstart := (startStep_error hf none [] []).1
  have hfirst : (opened w d).step { client with apply := apply } =
      ⟨.resume (.work none [] []) .done, [], settled w (.error f)⟩ := by
    simp only [opened, State.step, client, resume, hstart]
    rfl
  rw [State.run_step rfl, hfirst, State.run_step rfl]
  exact State.run_finished rfl n

/-- The answer of a step that fails is its error, and nothing but its result has changed. -/
theorem runStep_error (hf : (actOf d).run (settled w (.ok .null)) = .error f) :
    runStep w d = (.record f.fields, settled w (.error f)) := by
  have hrun : (opened w d).run client stepLimit = ⟨.pass .done, [], settled w (.error f)⟩ :=
    run_error hf client.apply (by decide)
  rw [opened, settled] at hrun
  simp only [runStep, hrun]
  simp [settled, resultFields]

/-- Building is all or nothing. A plan is observed unless one of its stages cannot run where it stands, and so a
binding is activated.

To activate a binding or invoke an entry point leaves all that was there as it was, whatever comes of it. Whether this
fails, and with which error, depends on what is supplied but not on what the supplied functions do; so does observing.

Where a step asks for something to be built and this fails, the step fails with the same error; and a step that fails
has changed nothing but its result and what is logged of it, has performed no command, and comes to the same whatever
functions do. -/
theorem building_all_or_nothing :
    (∀ (F : Type) (p : Pipeline) (root : ObjectId) (a : Arguments F),
      (∃ e, p.observe root a = .error e) ↔ ∃ place stage, p.Has place stage ∧ ¬ stage.Runs a place) ∧
    (∀ (F C : Type) (b : BindingPlan) (source target : ObjectId) (a : Arguments F) (h : Heap F C),
      (∃ e, (b.activate source target a h).1 = .error e) ↔
        ∃ place stage, b.Has place stage ∧ ¬ stage.Runs a place) ∧
    (∀ (F C : Type) (b : BindingPlan) (source target : ObjectId) (a : Arguments F) (h : Heap F C),
      h.Untouched (b.activate source target a h).2) ∧
    (∀ (F C : Type) (d : Dispatcher) (name : String) (c : Caller) (receiver : ObjectId) (source : Option ObjectId)
      (a : Arguments F) (h : Heap F C), h.Untouched (d.invoke name c receiver source a h).2) ∧
    (∀ (F F' C C' : Type) (a : Arguments F) (a' : Arguments F') (h : Heap F C) (h' : Heap F' C'), a.SameSupply a' →
      (∀ (p : Pipeline) root e, p.observe root a = .error e ↔ p.observe root a' = .error e) ∧
      (∀ (b : BindingPlan) source target e,
        (b.activate source target a h).1 = .error e ↔ (b.activate source target a' h').1 = .error e) ∧
      ∀ (d : Dispatcher) name c receiver source e, (d.invoke name c receiver source a h).1 = .error e ↔
        (d.invoke name c receiver source a' h').1 = .error e) ∧
    (∀ w d e, Asks w d e → (actOf d).run w = .error (.run e)) ∧
    (∀ w d f, (actOf d).run w = .error f → ∀ inside todo held,
      startStep w inside todo held d = settle w inside todo held (.error f) ∧
        (settle w inside todo held (.error f)).1.heap = w.heap ∧
        (settle w inside todo held (.error f)).2 = .goOn (.work inside todo held)) ∧
    (∀ w d f, (actOf d).run (settled w (.ok .null)) = .error f →
      runStep w d = (.record f.fields, settled w (.error f)) ∧
        ∀ apply n, 2 ≤ n →
          (opened w d).run { client with apply := apply } n = ⟨.pass .done, [], settled w (.error f)⟩) := by
  refine ⟨fun F p root a => ?_, fun F C b source target a h => ?_, fun F C => BindingPlan.untouched_activate,
    fun F C => Dispatcher.untouched_invoke, fun F F' C C' a a' h h' ha => ⟨?_, ?_, ?_⟩, fun w d e => actOf_of_asks,
    fun w d f => startStep_error, fun w d f hf => ⟨runStep_error hf, fun apply n => run_error hf apply⟩⟩
  · rw [exists_error_iff, p.exists_observe_iff]
    push Not
    rfl
  · rw [exists_error_iff, b.exists_activate_iff source target h]
    push Not
    rfl
  · exact fun p root e => (p.parallel_observe ha).error_iff
  · exact fun b source target e => (b.parallel_activate ha source target h h').error_iff
  · exact fun d name c receiver source e => (d.parallel_invoke ha name c receiver source h h').error_iff

/-- A session with one person. -/
def people : Scene :=
  ⟨((Heap.empty : Heap Function Code).newObject "Person" .full).2,
    { Session.start ⟨[]⟩ with objects := [("p", 0)], names := #["p"] }⟩

/-- The name of a person, delivered on a scheduler. -/
def scheduledName : Pipeline := ⟨.watch ⟨"name", ⟨"String", false⟩, ⟨"Person", false⟩⟩ .after, [.observeOn]⟩

/-- The name of the person on a scheduler, none of which is supplied. -/
def scheduledRequest : Data :=
  .record [("plan", .list [.record [("stage", .text "watch"),
    ("segment", .list [.text "name", .text "String", .text "Person"])], .record [("stage", .text "observe_on")]]),
    ("root", .text "p")]

def scheduledStep : Data :=
  .record [("op", .text "stream"), ("id", .text "names"), ("expr", .record [("observe", scheduledRequest)])]

/-- The stage that delivers on a scheduler cannot run, so nothing is made, and with other functions neither. -/
theorem building_fails_without_scheduler : Asks people scheduledStep .missingScheduler ∧
    (∃ place stage, scheduledName.Has place stage ∧ ¬ stage.Runs (default : Arguments Function) place) ∧
    (default : Arguments Function).SameSupply (default : Arguments Unit) ∧
    scheduledName.observe 0 (default : Arguments Unit) = .error .missingScheduler ∧
    runStep people scheduledStep = (.record (Failure.run .missingScheduler).fields,
      settled people (.error (.run .missingScheduler))) := by
  obtain ⟨hobserve, -, -, -, hsame, hasks, -, hrun⟩ := building_all_or_nothing
  have hread : (observeRequest (2 * (scheduledStep.get "expr").depth + 1) scheduledRequest).run people =
      .ok ((scheduledName, 0, default), people) := rfl
  have hask : Asks people scheduledStep .missingScheduler := .stream rfl rfl rfl hread rfl
  have hfails : ∃ place stage, scheduledName.Has place stage ∧ ¬ stage.Runs (default : Arguments Function) place :=
    (hobserve Function scheduledName 0 default).1 ⟨.missingScheduler, rfl⟩
  have hsupply : (default : Arguments Function).SameSupply (default : Arguments Unit) :=
    ⟨fun slot => by cases slot <;> rfl, rfl⟩
  have hother := (hsame Function Unit Code Empty _ _ people.heap .empty hsupply).1 scheduledName 0 .missingScheduler
  exact ⟨hask, hfails, hsupply, hother.1 rfl, (hrun people scheduledStep _ (hasks people scheduledStep _ hask)).1⟩

end Script
end DataBinding
