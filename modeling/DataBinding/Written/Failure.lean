import DataBinding.CallSite.Check
import DataBinding.Data
import DataBinding.Live.RunError
/-!
# Failures

All that can go wrong between a written request and its answer, and how each failure is written.
-/

namespace DataBinding

/-- Input that does not fit the written forms, or does not fit what is there. -/
inductive Fault where
  /-- A field is missing, or does not hold what it should. -/
  | field (name : String)
  | operation
  | step
  | function
  | emptyPlan
  | mutationIndex
  /-- There is nothing of this name in a table. -/
  | unknown (table : String)
  | duplicateId
  | noChanges
  | immediateScheduler
  | bindingSite
deriving DecidableEq

def Fault.message : Fault → String
  | field name => name
  | operation => "op"
  | step => "step"
  | function => "func"
  | emptyPlan => "empty plan"
  | mutationIndex => "mutation index"
  | unknown table => s!"unknown {table}"
  | duplicateId => "duplicate id"
  | noChanges => "no changes"
  | immediateScheduler => "immediate scheduler"
  | bindingSite => "binding site"

/-- Why a request has no result. -/
inductive Failure where
  | fault (f : Fault)
  | path (e : PathError)
  | rejected (r : Rejection)
  | options (e : OptionsError)
  | run (e : RunError)
  | undecodable
  | panic (message : String)

namespace Failure

def fields : Failure → List (String × Data)
  | fault f => [("error", .text "BadInput"), ("message", .text f.message)]
  | path .empty => [("error", .text "Empty"), ("message", .text PathError.empty.message)]
  | path e => [("error", .text "Disconnected"), ("message", .text e.message)]
  | rejected r =>
    [("error", .text "MalformedCallSite"), ("message", .text r.message),
      ("reason", .text r.defect.name), ("reason_text", .text r.defect.message),
      ("kind", .text r.kind.name), ("location", .text r.location.display)]
  | options e => [("error", .text "UnknownValue"), ("message", .text e.message)]
  | run e => [("error", .text e.name), ("message", .text e.message)]
  | undecodable => [("error", .text "Deserialize")]
  | panic m => [("error", .text "Panic"), ("message", .text m)]

def toData (f : Failure) : Data := .record f.fields

end Failure

/-- What is read from a written form, or why it cannot be read. -/
abbrev Read := Except Failure

/-! ## Reading fields -/

/-- Take what is there, or blame the field. -/
def Read.need {α : Type} (field : String) : Option α → Read α
  | some a => .ok a
  | none => .error (.fault (.field field))

namespace Data

variable (d : Data) (name : String)

def textField : Read String := Read.need name (d.get name).asText?

def textFieldD (default : String) : String := (d.get name).asText?.getD default

def listField : Read (List Data) := Read.need name (d.get name).asList?

def listFieldD : List Data := (d.get name).asList?.getD []

/-- A whole number from zero up to the limit, zero if it is missing. -/
def countField (limit : Nat) : Read Nat :=
  match d.get name with
  | null => .ok 0
  | v => Read.need name do
    let n ← v.asInt?
    if 0 ≤ n ∧ n ≤ limit then some n.toNat else none

/-- A line number; zero if it is missing. -/
def lineField : Read UInt32 := do
  return (← d.countField "line" (UInt32.size - 1)).toUInt32

/-- An index; zero if it is missing. -/
def indexField : Read Nat := d.countField name (UInt64.size - 1)

/-- A list of texts in a field. -/
def textsField : Read (List String) := do
  (← d.listField name).mapM fun t => Read.need name t.asText?

end Data

end DataBinding
