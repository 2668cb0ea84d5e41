import DataBinding.Script.Act
/-!
# Steps that look

Registration counts, equality, application of a function, and things as shown to a person.
-/

namespace DataBinding.Script

open Reading

def countsStep : Reading Act := do
  let w ← get
  let s := w.client
  let counts {α : Type} (t : Table α) (count : α → Data) : Data :=
    .record (t.map fun (id, a) => (id, count a))
  return .result (.record [
    ("objects", counts s.objects fun o => .ofNat (w.heap.handlerCount o)),
    ("subjects", counts s.subjects fun x => .ofNat (w.heap.observers x).length),
    ("schedulers", counts s.schedulers fun x =>
      Data.ofOption (fun l => .ofNat l.length) (w.heap.tasks? x))])

def eqStep (d : Data) : Reading Act := do
  let a ← valueField d "a"
  let b ← valueField d "b"
  return .result (.list [.bool (a.eqv b), .bool (b.eqv a)])

def sameStreamStep (d : Data) : Reading Act := do
  let a ← (← exprOf (d.get "a")).id
  let b ← (← exprOf (d.get "b")).id
  return .result (.bool (a == b))

def applyStep (d : Data) : Reading Act := do
  let f ← functionOf (d.get "fn")
  let v ← valueField d "value"
  let (v, w) := f.apply v (← get)
  set w
  return .result (w.written v)

def boolText (b : Bool) : String := if b then "true" else "false"

/-- A thing as shown to a person: its kind and its fields between braces. -/
def shown (kind : String) (fields : List (String × String)) (more : Bool) : String :=
  let parts := fields.map (fun (n, v) => n ++ ": " ++ v) ++ if more then [".."] else []
  kind ++ " \x7b " ++ ", ".intercalate parts ++ " \x7d"

def showArguments (a : Arguments Function) : String :=
  shown "ExtraArgs" [
    ("selector", boolText a.selector.isSome),
    ("converter", boolText a.converter.isSome),
    ("back_converter", boolText a.backConverter.isSome),
    ("scheduler", boolText a.scheduler.isSome)] false

def debugText (d : Data) : Reading String := do
  match ← text d "what" with
  | "value" => return (← valueField d "value").render (← get).heap.typeName
  | "object" =>
    let o ← object (← text d "id")
    let h := (← get).heap
    return shown "Object" [("type_name", Text.quote (h.typeName o)),
      ("handlers", toString (h.handlerCount o))] true
  | "subject" =>
    let s ← subject (← text d "id")
    return shown "Subject" [("observers", toString ((← get).heap.observers s).length)] false
  | "scheduler" =>
    let s ← scheduler (← text d "id")
    match (← get).heap.tasks? s with
    | some tasks => return shown "QueueScheduler" [("pending", toString tasks.length)] false
    | none => return "ImmediateScheduler"
  | "stream" =>
    let _ ← stream (← text d "id")
    return shown "Stream" [] true
  | "sub" =>
    let handle ← subscription (← text d "id")
    let t := (← get).heap.teardown handle
    return shown "Subscription" [("disposed", boolText t.isNothing)] false
  | "composite" =>
    let c ← composite (← text d "id")
    let x := (← get).heap.composite c
    return shown "CompositeSubscription" [("members", toString x.members.length),
      ("disposed", boolText x.disposed)] false
  | "dispatcher" =>
    let x ← dispatcher (← text d "id")
    return shown "Dispatcher" [("units", toString x.units.length),
      ("entries", toString x.entryCount)] false
  | "args" => return showArguments (← argumentsField d)
  | _ => fail (.field "what")

end DataBinding.Script
