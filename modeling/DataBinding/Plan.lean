import DataBinding.Path
/-!
# Plans

A pipeline is a source stage followed by operator stages; nested pipelines appear as the inputs of
stages that join several. A binding plan pairs the pipeline of its source, and for the two-way
modes that of its target, with the operators a value passes before it is written on the other side.

Nothing forces a hand-made pipeline to start with a source; `Stage.isSource` tells.
-/

namespace DataBinding

/-- A function that the caller supplies. -/
inductive Slot where
  | selector
  | converter
  | backConverter
deriving DecidableEq, Inhabited

def Slot.word : Slot → String
  | selector => "selector"
  | converter => "converter"
  | backConverter => "back_converter"

/-- A side of a binding. -/
inductive Side where
  | source
  | target
deriving DecidableEq, Inhabited

def Side.word : Side → String
  | source => "source"
  | target => "target"

/-- A first stage and the operators after it. -/
structure Staged (α : Type) where
  first : α
  operators : List α

inductive Stage where
  /-- The value of a property of the root, then one value for each notification. -/
  | watch (segment : Segment) (timing : Timing)
  /-- The value at the end of a path, read once. -/
  | constant (path : Path)
  /-- A tuple of the latest value of each input, once each has one. -/
  | combineLatest (inputs : List (Staged Stage))
  /-- The values of all inputs, as they come. -/
  | merge (inputs : List (Staged Stage))
  /-- For each link, watch the latest parent; an absent parent yields one absent value. -/
  | chain (links : List Segment) (timing : Timing)
  /-- Apply a selector. -/
  | select (slot : Slot)
  /-- Apply a converter. -/
  | convert (slot : Slot)
  /-- Wrap each value in a record of the change. -/
  | wrap (property : Option String)
  /-- Leave out a value equal to the one before. -/
  | distinct
  /-- Leave out the first values. -/
  | skip (count : UInt64)
  /-- Put an empty stream in the place of a value that is no stream. -/
  | emptyIfNull
  /-- Follow the latest of a stream of streams. -/
  | switch
  /-- Deliver on the scheduler the caller supplies. -/
  | observeOn
  /-- Publish each value with the side it comes from. -/
  | tag (side : Side)

abbrev Pipeline := Staged Stage

namespace Stage

/-- Whether the stage can start a pipeline. -/
def isSource : Stage → Bool
  | watch .. | constant .. | combineLatest .. | merge .. => true
  | _ => false

/-- The supplied function that the stage applies. -/
def slot? : Stage → Option Slot
  | select s | convert s => some s
  | _ => none

end Stage

namespace Staged

variable {α : Type} (p : Staged α)

/-- All stages, the first one included. -/
def stages : List α := p.first :: p.operators

/-- The pipeline with one more operator at its end. -/
def andThen (a : α) : Staged α := ⟨p.first, p.operators ++ [a]⟩

/-- The pipeline with one more operator, if the condition holds. -/
def andThenIf (c : Bool) (a : α) : Staged α := if c then p.andThen a else p

end Staged

/-! ## The plan in one line -/

def linkLabels (links : List Segment) : String :=
  ">".intercalate (links.map Segment.label)

mutual

/-- A stage as it appears in the text of a plan. -/
def Stage.describe : Stage → String
  | .watch s t => s!"watch({s.label}, {t.word})"
  | .constant p => s!"constant({p.display})"
  | .combineLatest inputs => s!"combine_latest[{describeInputs inputs}]"
  | .merge inputs => s!"merge[{describeInputs inputs}]"
  | .chain links t => s!"chain({linkLabels links}, {t.word})"
  | .select s => s!"select({s.word})"
  | .convert s => s!"convert({s.word})"
  | .wrap (some p) => s!"wrap({p})"
  | .wrap none => "wrap(*)"
  | .distinct => "distinct"
  | .skip n => s!"skip({n.toNat})"
  | .emptyIfNull => "empty_if_null"
  | .switch => "switch"
  | .observeOn => "observe_on"
  | .tag s => s!"tag({s.word})"

def describeInputs : List (Staged Stage) → String
  | [] => ""
  | [p] => describePipeline p
  | p :: rest => describePipeline p ++ "; " ++ describeInputs rest

def describePipeline : Staged Stage → String
  | ⟨first, operators⟩ => first.describe ++ describeOperators operators

def describeOperators : List Stage → String
  | [] => ""
  | s :: rest => " | " ++ s.describe ++ describeOperators rest

end

/-- The stages in order, between bars. -/
def Staged.describe (p : Pipeline) : String := describePipeline p

/-! ## Equality -/

mutual

def Stage.same : Stage → Stage → Bool
  | .watch s t, .watch s' t' => s == s' && t == t'
  | .constant p, .constant p' => p == p'
  | .combineLatest i, .combineLatest i' => sameInputs i i'
  | .merge i, .merge i' => sameInputs i i'
  | .chain l t, .chain l' t' => l == l' && t == t'
  | .select s, .select s' => s == s'
  | .convert s, .convert s' => s == s'
  | .wrap p, .wrap p' => p == p'
  | .distinct, .distinct => true
  | .skip n, .skip n' => n == n'
  | .emptyIfNull, .emptyIfNull => true
  | .switch, .switch => true
  | .observeOn, .observeOn => true
  | .tag s, .tag s' => s == s'
  | _, _ => false

def sameInputs : List (Staged Stage) → List (Staged Stage) → Bool
  | [], [] => true
  | p :: r, p' :: r' => samePipeline p p' && sameInputs r r'
  | _, _ => false

def samePipeline : Staged Stage → Staged Stage → Bool
  | ⟨f, o⟩, ⟨f', o'⟩ => f.same f' && sameStages o o'

def sameStages : List Stage → List Stage → Bool
  | [], [] => true
  | s :: r, s' :: r' => s.same s' && sameStages r r'
  | _, _ => false

end

instance : BEq Stage := ⟨Stage.same⟩
instance : BEq (Staged Stage) := ⟨samePipeline⟩

/-! ## Supplied functions -/

/-- Add a slot at the end unless it is there already. -/
def addSlot (slots : List Slot) (s : Slot) : List Slot :=
  if s ∈ slots then slots else slots ++ [s]

mutual

/-- The slots used so far, with those of this stage. -/
def Stage.collect (slots : List Slot) : Stage → List Slot
  | .combineLatest inputs => collectInputs slots inputs
  | .merge inputs => collectInputs slots inputs
  | .select s => addSlot slots s
  | .convert s => addSlot slots s
  | _ => slots

def collectInputs (slots : List Slot) : List (Staged Stage) → List Slot
  | [] => slots
  | p :: rest => collectInputs (collectPipeline slots p) rest

def collectPipeline (slots : List Slot) : Staged Stage → List Slot
  | ⟨first, operators⟩ => collectOperators (first.collect slots) operators

def collectOperators (slots : List Slot) : List Stage → List Slot
  | [] => slots
  | s :: rest => collectOperators (s.collect slots) rest

end

namespace Staged

/-- The slots a pipeline uses, nested pipelines included, in the order of first use. -/
def slots (p : Pipeline) : List Slot := collectPipeline [] p

/-- Whether the pipeline is a single read. -/
def isConstant (p : Pipeline) : Bool :=
  match p.first with
  | .constant _ => true
  | _ => false

end Staged

/-! ## Bindings -/

inductive BindingMode where
  | oneWay
  | twoWay
  | tagged
deriving DecidableEq, Inhabited

def BindingMode.name : BindingMode → String
  | oneWay => "OneWay"
  | twoWay => "TwoWay"
  | tagged => "Tagged"

structure BindingPlan where
  mode : BindingMode
  sourcePath : Path
  targetPath : Path
  source : Pipeline
  toTarget : List Stage
  target : Option Pipeline
  toSource : List Stage

namespace BindingPlan

/-- A direction of a binding in one line: from a pipeline through operators to a written path. -/
def describeDirection (p : Pipeline) (operators : List Stage) (path : Path) : String :=
  p.describe ++ " ⇒ " ++ String.join (operators.map fun s => s.describe ++ " ⇒ ")
    ++ s!"set({path.display})"

def describe (b : BindingPlan) : String :=
  describeDirection b.source b.toTarget b.targetPath ++
    match b.target with
    | some t => " ‖ " ++ describeDirection t b.toSource b.sourcePath
    | none => ""

end BindingPlan

/-- What is generated for one call site. -/
inductive Plan where
  | observation (pipeline : Pipeline)
  | binding (plan : BindingPlan)

def Plan.describe : Plan → String
  | observation p => p.describe
  | binding b => b.describe

end DataBinding
