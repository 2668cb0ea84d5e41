import DataBinding.TypeRef
/-!
# Property paths

A path is the shape of a member access such as `x.Address.City`: segments from the root on, each
naming a property, the type it yields and the type that declares it. A `Path` has at least one
segment, and each segment after the first is declared on the type its parent yields (compared by
name).

`Path.ofSegments_eq_ok_iff`: a list of segments is accepted exactly when it is the segment list of a
path. `Path.ofSegments_segments`: taking a path apart and building it again gives the same path.
-/

namespace DataBinding

/-- One property access. -/
structure Segment where
  property : String
  type : TypeRef
  declaring : TypeRef
deriving DecidableEq, Inhabited

namespace Segment

/-- The empty property name stands for every property of the object. -/
def isAny (s : Segment) : Bool := s.property.isEmpty

/-- The property as written in plans; a star for every property. -/
def label (s : Segment) : String := if s.isAny then "*" else s.property

end Segment

/-- The next segment is declared on the type `parent` yields. -/
def Follows (parent child : Segment) : Prop := parent.type.name = child.declaring.name

instance (p c : Segment) : Decidable (Follows p c) := inferInstanceAs (Decidable (_ = _))

/-- Each of the segments follows the one before it, the first one `parent`. -/
def Linked (parent : Segment) : List Segment → Prop
  | [] => True
  | s :: rest => Follows parent s ∧ Linked s rest

instance Linked.decide (parent : Segment) : (links : List Segment) → Decidable (Linked parent links)
  | [] => isTrue trivial
  | s :: rest =>
    have := Linked.decide s rest
    inferInstanceAs (Decidable (Follows parent s ∧ Linked s rest))

/-- A non-empty connected list of segments, root first. -/
structure Path where
  root : Segment
  links : List Segment
  linked : Linked root links
deriving DecidableEq

/-- Why a list of segments is no path. -/
inductive PathError where
  | empty
  /-- Segment `index` is declared on `found`, but its parent yields `expected`. -/
  | disconnected (index : Nat) (expected found : String)
deriving DecidableEq

def PathError.message : PathError → String
  | empty => "property path has no segments"
  | disconnected i expected found =>
    s!"segment {i} is declared on `{found}` but its parent yields `{expected}`"

namespace Path

/-- The first place after `parent`, counted from `index`, where a segment does not follow. -/
def breakAt? (index : Nat) (parent : Segment) : List Segment → Option PathError
  | [] => none
  | s :: rest =>
    if Follows parent s then breakAt? (index + 1) s rest
    else some (.disconnected index parent.type.name s.declaring.name)

theorem breakAt?_eq_none_iff (index : Nat) (parent : Segment) (links : List Segment) :
    breakAt? index parent links = none ↔ Linked parent links := by
  induction links generalizing index parent with
  | nil => simp [breakAt?, Linked]
  | cons s rest ih => by_cases h : Follows parent s <;> simp [breakAt?, Linked, h, ih]

/-- The path with these segments, or the first reason against it. -/
def ofSegments : List Segment → Except PathError Path
  | [] => .error .empty
  | root :: links =>
    match h : breakAt? 1 root links with
    | some e => .error e
    | none => .ok ⟨root, links, (breakAt?_eq_none_iff 1 root links).1 h⟩

/-- The path of one segment. -/
def single (s : Segment) : Path := ⟨s, [], trivial⟩

instance : Inhabited Path := ⟨single default⟩

variable (p : Path)

def segments : List Segment := p.root :: p.links

def length : Nat := p.segments.length

/-- More than one segment. -/
def isChain : Bool := !p.links.isEmpty

/-- The last segment. -/
def leaf : Segment := p.links.getLastD p.root

/-- The type the path starts from. -/
def rootType : TypeRef := p.root.declaring

/-- The type the path yields. -/
def leafType : TypeRef := p.leaf.type

/-- Dotted member access. -/
def display : String := ".".intercalate (p.segments.map Segment.property)

/-! ## Building and taking apart -/

theorem ofSegments_segments : ofSegments p.segments = .ok p := by
  have h := (breakAt?_eq_none_iff 1 p.root p.links).2 p.linked
  simp only [segments, ofSegments]
  split
  · next he => rw [h] at he; cases he
  · rfl

theorem ofSegments_eq_ok_iff (l : List Segment) : ofSegments l = .ok p ↔ l = p.segments := by
  constructor
  · intro h
    cases l with
    | nil => cases h
    | cons root links =>
      simp only [ofSegments] at h
      split at h
      · cases h
      · cases h; rfl
  · rintro rfl
    exact ofSegments_segments p

end Path

end DataBinding
