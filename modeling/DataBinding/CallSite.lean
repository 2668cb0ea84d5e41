import DataBinding.Path
/-!
# Call sites

A call site is one textual use of an observation or binding operation, fully resolved: what it
asks for, on which owner, along which property paths, and where it stands in the source text.
-/

namespace DataBinding

/-- The operation a call site asks for. -/
inductive CallKind where
  /-- Observe one property path. -/
  | observe
  /-- Observe several paths together. -/
  | observeMany
  /-- Observe paths, each value wrapped in a record of the change. -/
  | whenAny
  /-- Observe properties that hold streams, and flatten them. -/
  | whenAnyObservable
  /-- Push source values into a target property. -/
  | oneWayBind
  /-- Keep a source and a target property in step. -/
  | twoWayBind
  /-- As two-way, with the changes of both sides published. -/
  | taggedBind
deriving DecidableEq, Inhabited

namespace CallKind

/-- Every kind, in the order in which units are generated. -/
def all : List CallKind :=
  [observe, observeMany, whenAny, whenAnyObservable, oneWayBind, twoWayBind, taggedBind]

/-- What generated names start with. -/
def entryName : CallKind → String
  | observe => "when_changed"
  | observeMany => "when_changed_many"
  | whenAny => "when_any"
  | whenAnyObservable => "when_any_observable"
  | oneWayBind => "bind_one_way"
  | twoWayBind => "bind_two_way"
  | taggedBind => "bind_tagged"

/-- The kind's own name in written forms. -/
def name : CallKind → String
  | observe => "Observe"
  | observeMany => "ObserveMany"
  | whenAny => "WhenAny"
  | whenAnyObservable => "WhenAnyObservable"
  | oneWayBind => "OneWayBind"
  | twoWayBind => "TwoWayBind"
  | taggedBind => "TaggedBind"

/-- Place in `all`. -/
def rank (k : CallKind) : Nat := all.idxOf k

/-- Kinds that make a binding rather than a stream. -/
def isBinding : CallKind → Bool
  | oneWayBind | twoWayBind | taggedBind => true
  | _ => false

/-- Kinds that also write into the source. -/
def isBidirectional : CallKind → Bool
  | twoWayBind | taggedBind => true
  | _ => false

end CallKind

/-- What a call site asks for besides its kind. -/
structure Features where
  /-- A selector is applied to what is observed. -/
  selector : Bool
  /-- A converter is supplied (for a two-way binding also one back). -/
  conversion : Bool
  /-- Values are delivered on a scheduler. -/
  scheduler : Bool
  /-- Pending changes are watched instead of completed ones. -/
  beforeChange : Bool
  /-- Four more bits that ask for nothing; they are kept and compared like the others. -/
  reserved : Fin 16 := 0
deriving DecidableEq, Inhabited

namespace Features

/-- One bit for each feature, the selector lowest, then the reserved ones. -/
def bits (f : Features) : Nat :=
  f.selector.toNat + 2 * f.conversion.toNat + 4 * f.scheduler.toNat + 8 * f.beforeChange.toNat
    + 16 * f.reserved

/-- The features of a pattern of eight bits. -/
def ofBits? (n : Nat) : Option Features :=
  if n < 256 then
    some ⟨n.testBit 0, n.testBit 1, n.testBit 2, n.testBit 3, Fin.ofNat 16 (n / 16)⟩
  else none

theorem ofBits?_bits (f : Features) : ofBits? f.bits = some f := by
  rcases f with ⟨_ | _, _ | _, _ | _, _ | _, r⟩ <;> revert r <;> decide

end Features

/-- Where a call site stands in the source text. -/
structure Location where
  file : String
  line : UInt32
deriving DecidableEq, Inhabited

namespace Location

def display (l : Location) : String := s!"{l.file}:{l.line.toNat}"

/-- By file, then by line. -/
def compare (a b : Location) : Ordering :=
  (Ord.compare a.file b.file).then (Ord.compare a.line.toNat b.line.toNat)

/-- The non-empty parts of the file between slashes of either kind. -/
def components (l : Location) : List String :=
  ((l.file.toList.splitOnP fun c => c = '/' ∨ c = '\\').map String.ofList).filter (· ≠ "")

/-- The last two components of the file, joined by a slash. -/
def suffix (l : Location) : String :=
  "/".intercalate (l.components.drop (l.components.length - 2))

end Location

/-- One resolved use of an operation. For a binding the first path starts at the source object and
the second at the owner; otherwise every path starts at the owner. -/
structure CallSite where
  kind : CallKind
  owner : TypeRef
  paths : List Path
  result : TypeRef
  features : Features
  location : Location
  /-- The text of each property argument, as it stands in the source. -/
  texts : List String
deriving DecidableEq

namespace CallSite

variable (s : CallSite)

/-- The timing the features ask for. -/
def timing : Timing := if s.features.beforeChange then .before else .after

/-- What tells call sites on one line apart: their argument texts, or their paths where no texts
were recorded. -/
def discriminator : String :=
  "|".intercalate (if s.texts.isEmpty then s.paths.map Path.display else s.texts)

end CallSite

end DataBinding
