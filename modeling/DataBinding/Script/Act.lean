import DataBinding.Script.Form
/-!
# What a step comes to

A step is read and carried out in the session. It has its result at once, asks the machine for a
command and makes its result of the answer, or panics. New things are stored under their ids when
they are finished; an id that is taken by then is a fault, and the new thing is dropped.
-/

namespace DataBinding.Script

open Reading

/-- What a step comes to. -/
inductive Act where
  | result (d : Data)
  /-- Run a command; what is listed stays held meanwhile. -/
  | perform (command : Command Function Code) (pending : Pending) (holding : List Node)
  | panic (message : String)

/-- The result is null once the command is done. -/
def Act.silently (command : Command Function Code) (holding : List Node) : Act :=
  .perform command (.result (.ok .null)) holding

/-- A subscription that cannot be kept is dropped, and the fault is the result. -/
def Act.dropping (handle : Nat) (f : Fault) : Act :=
  .perform (.dispose handle) (.result (.error (.fault f))) []

/-! ## Tables -/

def Table.has {α : Type} (t : Table α) (id : String) : Bool := (t.lookup id).isSome

def Table.remove {α : Type} (t : Table α) (id : String) : Table α := t.filter (·.1 ≠ id)

/-- Change the session. -/
def update (f : Session → Session) : Reading Unit :=
  modify fun w => { w with client := f w.client }

/-- Change the heap, and take what comes of it. -/
def change {α : Type} (f : Heap Function Code → α × Heap Function Code) : Reading α :=
  modifyGet fun w => let (a, h) := f w.heap; (a, w.withHeap h)

/-- Store something under a new id. -/
def store {α : Type} (table : Session → Table α)
    (set : Session → Table α → Session) (id : String) (a : α) : Reading Unit := do
  let t := table (← get).client
  if t.has id then fail .duplicateId
  else update fun s => set s ((id, a) :: t)

/-- Store a subscription handle; if the id is taken the subscription is dropped. -/
def storeHandle (id : String) (handle : Nat) (result : Data) : Reading Act := do
  if (← get).client.subscriptions.has id then return .dropping handle .duplicateId
  else
    update fun s => { s with subscriptions := (id, handle) :: s.subscriptions }
    return .result result

/-- Whether a subscription is disposed, as the result of the step that made it. -/
def disposedResult (b : Bool) : Data := .record [("disposed", .bool b)]

/-- Make the counts of some reactions, and tell where they start. -/
def newCounts (reactions : List Reaction) : Reading Nat := do
  let start := (← get).client.counts.size
  update fun s =>
    { s with counts := s.counts ++ (reactions.map fun r => (r.skip, r.times)).toArray }
  return start

end DataBinding.Script
