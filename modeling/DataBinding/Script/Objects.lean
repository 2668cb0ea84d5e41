import DataBinding.Script.Act
/-!
# Steps on objects, subjects and schedulers

Objects are made, assigned and read, by property or along a path; subjects are pushed into;
schedulers are given tasks and drained. Dropping an object or a subject takes it out of the session's
table only, so it lives on while something else holds it.
-/

namespace DataBinding.Script

open Reading

/-! ## Objects and subjects -/

def capabilityOf (d : Data) : Reading Capability :=
  match d.get "cap" with
  | .null => return .full
  | .text "full" => return .full
  | .text "after" => return ⟨true, false⟩
  | .text "before" => return ⟨false, true⟩
  | .text "none" => return .inert
  | _ => fail (.field "cap")

def objectStep (d : Data) : Reading Act := do
  let id ← text d "id"
  let typeName ← text d "type"
  let capability ← capabilityOf d
  let init ← ((d.get "init").asRecord?.getD []).mapM fun (p, v) => return (p, ← valueOf v)
  let o ← change fun h => h.newObject typeName capability
  init.forM fun (p, v) => modify fun w => w.withHeap (w.heap.put o p v)
  update fun s => { s with names := s.names.push id }
  store Session.objects (fun s t => { s with objects := t }) id o
  return .result (.list [.text typeName, .bool capability.after, .bool capability.before])

def initStep (d : Data) : Reading Act := do
  let o ← objectField d "obj"
  let p ← text d "prop"
  let v ← valueField d "value"
  modify fun w => w.withHeap (w.heap.put o p v)
  return .result .null

def setStep (d : Data) : Reading Act := do
  let o ← objectField d "obj"
  let p ← text d "prop"
  let v ← valueField d "value"
  return .perform (.set o p v) .flag [.object o]

def getStep (d : Data) (get : Heap Function Code → ObjectId → String → Value) : Reading Act := do
  let o ← objectField d "obj"
  let p ← text d "prop"
  let w ← MonadState.get
  return .result (w.written (get w.heap o p))

def onChangeStep (d : Data) : Reading Act := do
  let id ← text d "id"
  let reactions ← reactionsField d
  let o ← objectField d "obj"
  let timing ← timingOf (d.get "mode")
  let p ← text d "prop"
  let counts ← newCounts reactions
  let number ← change fun h =>
    h.addHandler o timing p false (.client (.observe id reactions counts))
  let handle ← change fun h => h.newHandle (.handler o number)
  storeHandle id handle (disposedResult false)

def readPathStep (d : Data) : Reading Act := do
  let o ← objectField d "obj"
  let p ← liftM (d.pathField "path")
  let w ← get
  return .result (w.written (w.heap.readPath o p))

def writePathStep (d : Data) : Reading Act := do
  let o ← objectField d "obj"
  let p ← liftM (d.pathField "path")
  let v ← valueField d "value"
  return .perform (.write o p v) .flag [.object o]

def subjectStep (d : Data) : Reading Act := do
  let id ← text d "id"
  let s ← change fun h => h.newSubject
  store Session.subjects (fun s t => { s with subjects := t }) id s
  return .result .null

def nextStep (d : Data) : Reading Act := do
  let s ← subject (← text d "subject")
  let v ← valueField d "value"
  return .silently (.next s v) [.subject s]

def dropObjectStep (d : Data) : Reading Act := do
  let id ← text d "obj"
  let _ ← object id
  update fun s => { s with objects := s.objects.remove id }
  return .result .null

def dropSubjectStep (d : Data) : Reading Act := do
  let id ← text d "subject"
  let _ ← subject id
  update fun s => { s with subjects := s.subjects.remove id }
  return .result .null

/-! ## Schedulers -/

def schedulerStep (d : Data) : Reading Act := do
  let id ← text d "id"
  let s ← change fun h =>
    h.newScheduler (if d.textFieldD "kind" "" = "immediate" then .immediate else .queue [])
  store Session.schedulers (fun s t => { s with schedulers := t }) id s
  return .result .null

def drainStep (d : Data) : Reading Act := do
  let s ← scheduler (← text d "scheduler")
  match (← get).heap.tasks? s with
  | some _ => return .perform (.drain s 0) .count []
  | none => fail .immediateScheduler

def scheduleStep (d : Data) : Reading Act := do
  let id ← text d "id"
  let s ← scheduler (← text d "scheduler")
  return .silently (.schedule s (.client (.task id (d.listFieldD "do")))) []

end DataBinding.Script
