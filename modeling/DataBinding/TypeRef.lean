/-!
# Types and timings

A type is known by its name; a reference to it also says whether the value may be absent. A
timing says on which side of a change an observer is told about it.
-/

namespace DataBinding

/-- A reference to a resolved type. -/
structure TypeRef where
  name : String
  nullable : Bool
deriving DecidableEq, Inhabited

namespace TypeRef

/-- The type as written in signatures: a nullable one ends in a question mark. -/
def display (t : TypeRef) : String :=
  if t.nullable then t.name ++ "?" else t.name

/-- By name, and the non-nullable reference first. -/
def compare (a b : TypeRef) : Ordering :=
  (Ord.compare a.name b.name).then (Ord.compare a.nullable b.nullable)

end TypeRef

/-- When an observer is told of a change: after it, with the new value, or before it, with the
value that is going. -/
inductive Timing where
  | after
  | before
deriving DecidableEq, Inhabited

namespace Timing

/-- The word for a timing in plans. -/
def word : Timing → String
  | after => "after"
  | before => "before"

/-- Place in the order: after comes first. -/
def rank : Timing → Nat
  | after => 0
  | before => 1

end Timing

end DataBinding
