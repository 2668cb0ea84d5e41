import DataBinding.Live.Dispatcher
import DataBinding.Written.Unit
/-!
# Script sessions

A script is a list of written steps that act on objects, streams and bindings by name. This module
holds its function codes, the code of its observers, teardowns and tasks, and the state that lasts
from step to step.
-/

namespace DataBinding.Script

/-- The functions a script can supply. -/
inductive Function where
  | identity
  /-- A text in ASCII capitals. -/
  | upper
  | inc
  | double
  | neg
  | not
  | isNull
  | isInt
  | isText
  | isObject
  | isChange
  /-- The value as shown to a person. -/
  | debug
  | count
  | first
  | last
  | sum
  | unwrap
  | property
  | sender
  | pair
  /-- A new stream of the value. -/
  | just
  | const (v : Value)
  | equals (v : Value)
  | differs (v : Value)
  | get (property : String)
  /-- A new stream of a property. -/
  | watch (property : String) (timing : Timing)
  | min (n : Int64)
  | table (rows : List (Value × Value))
  | seq (fs : List Function)
  | each (f : Function)
  /-- Log the value, then apply. -/
  | trace (name : String) (f : Function)
deriving Inhabited

/-- A condition on values, and the steps to run when it is met. -/
structure Reaction where
  /-- The value to react to; any value if absent. -/
  condition : Option Value
  /-- How many fits to pass over, and how many after that to react to. -/
  skip : Nat
  times : Nat
  steps : List Data

/-- What code has still to do. -/
inductive Work where
  | step (d : Data)
  /-- Consider a reaction; its remaining counts are at this place in the session. -/
  | react (reaction : Reaction) (counts : Nat) (v : Value)

/-- What a step makes of the answer to its command. -/
inductive Pending where
  | result (r : Read Data)
  | flag
  | count
  /-- The size of a composite. -/
  | size (composite : Nat)
  | subscribed (id : String)
  /-- A binding is stored, if an id is given, and this is the result. -/
  | bound (id : Option String) (pipeline : StreamId) (changes : Option StreamId) (result : Data)

/-- The code of a script. Steps that run inside an observer, a teardown or a task carry its id. -/
inductive Code where
  /-- Log the value, then react to it; the counts of the reactions start at this place. -/
  | observe (id : String) (reactions : List Reaction) (counts : Nat)
  | teardown (id : String) (steps : List Data)
  | task (id : String) (steps : List Data)
  | work (inside : Option String) (todo : List Work) (held : List Node)
  | await (inside : Option String) (todo : List Work) (held : List Node) (pending : Pending)
      (holding : List Node)

/-- Things by the ids a script gave them. -/
abbrev Table (α : Type) := List (String × α)

/-- The state of a script between steps. -/
structure Session where
  caps : Capabilities
  objects : Table ObjectId
  subjects : Table SubjectId
  schedulers : Table SchedulerId
  streams : Table StreamId
  subscriptions : Table Nat
  composites : Table Nat
  bindings : Table Binding
  dispatchers : Table Dispatcher
  /-- The id each object was made under. -/
  names : Array String
  /-- How many fits each reaction still passes over, and how many it still reacts to. -/
  counts : Array (Nat × Nat)
  /-- What was logged while the step ran, the latest first. -/
  log : List Data
  /-- The result of the step. -/
  result : Read Data

/-- The world of a script. -/
abbrev Scene := World Function Code Session

namespace Session

def start (caps : Capabilities) : Session where
  caps := caps
  objects := []
  subjects := []
  schedulers := []
  streams := []
  subscriptions := []
  composites := []
  bindings := []
  dispatchers := []
  names := #[]
  counts := #[]
  log := []
  result := .ok .null

variable (s : Session)

def name (o : ObjectId) : String := s.names[o]?.getD ""

def logged (event : Data) : Session := { s with log := event :: s.log }

/-- What the tables hold. -/
def refs : List Node :=
  s.objects.map (.object ·.2) ++ s.subjects.map (.subject ·.2) ++ s.streams.map (.stream ·.2)
    ++ s.bindings.flatMap fun (_, b) => .stream b.pipeline :: b.changes.toList.map .stream

end Session

/-! ## References -/

mutual

/-- What a function holds. -/
def Function.refs : Function → List Node
  | .const v => v.refs
  | .equals v => v.refs
  | .differs v => v.refs
  | .table rows => rows.flatMap fun (a, b) => a.refs ++ b.refs
  | .seq fs => refsFunctions fs
  | .each f => f.refs
  | .trace _ f => f.refs
  | _ => []

def refsFunctions : List Function → List Node
  | [] => []
  | f :: rest => f.refs ++ refsFunctions rest

end

def Reaction.refs (r : Reaction) : List Node := r.condition.elim [] Value.refs

def Code.refs : Code → List Node
  | .observe _ reactions _ => reactions.flatMap Reaction.refs
  | .work _ _ held => held
  | .await _ _ held _ holding => held ++ holding
  | _ => []

end DataBinding.Script
