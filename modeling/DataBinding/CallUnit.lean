import DataBinding.Dispatch
import DataBinding.Plan.Synthesis
/-!
# Generated units

A unit holds what is generated for the call sites of one kind: an entry point for each signature,
and an implementation for each call site. `CallUnit.problems` looks for what does not fit together
in a unit, generated or put together by hand.
-/

namespace DataBinding

/-- What is generated for one call site. -/
structure Implementation where
  name : String
  site : CallSite
  plan : Plan

/-- What is generated for one kind. -/
structure CallUnit where
  kind : CallKind
  entryPoints : List EntryPoint
  implementations : List Implementation

namespace CallUnit

variable (u : CallUnit)

/-- The first entry point of this name. -/
def entryPoint? (name : String) : Option EntryPoint := u.entryPoints.find? (·.name == name)

/-- The first implementation of this name. -/
def implementation? (name : String) : Option Implementation :=
  u.implementations.find? (·.name == name)

/-! ## Generation -/

/-- The implementation of a call site. -/
def implement (caps : Capabilities) (s : CallSite) : Except Rejection Implementation := do
  return ⟨s.implementationName, s, ← s.plan caps⟩

/-- The implementations of a group's members, and the entry point that leads to them. -/
def ofGroup (kind : CallKind) (caps : Capabilities) (strategy : Strategy) (g : Group) :
    Except Rejection (EntryPoint × List Implementation) := do
  let implementations ← g.members.mapM (implement caps)
  let names := implementations.map Implementation.name
  return (EntryPoint.ofGroup (entryPointName kind g.signature) g names strategy, implementations)

/-- The unit of some call sites, which must all be of the kind and without defect; none for no call
sites. -/
def generate (kind : CallKind) (sites : List CallSite) (caps : Capabilities)
    (strategy : Strategy) : Except Rejection (Option CallUnit) := do
  if sites.isEmpty then return none
  sites.forM fun s => s.check kind strategy
  let parts ← (groups sites).mapM (ofGroup kind caps strategy)
  return some ⟨kind, parts.map Prod.fst, parts.flatMap Prod.snd⟩

/-- The units of all kinds that occur among the call sites, in the order of `CallKind.all`. -/
def generateAll (sites : List CallSite) (caps : Capabilities) (strategy : Strategy) :
    Except Rejection (List CallUnit) := do
  let units ← CallKind.all.mapM fun kind =>
    generate kind (sites.filter (·.kind == kind)) caps strategy
  return units.filterMap id

/-! ## Consistency -/

/-- Something in a unit that does not fit together. -/
inductive Problem where
  | duplicateEntry (name : String)
  | duplicateImplementation (name : String)
  | danglingArm (entry implementation : String)
  | mixedSignature (entry implementation : String)
deriving DecidableEq

namespace Problem

/-- The problem's own name in written forms. -/
def name : Problem → String
  | duplicateEntry _ => "DuplicateEntryName"
  | duplicateImplementation _ => "DuplicateImplementationName"
  | danglingArm .. => "DanglingArm"
  | mixedSignature .. => "MixedSignature"

def message : Problem → String
  | duplicateEntry n => s!"entry point name `{n}` is generated more than once"
  | duplicateImplementation n => s!"implementation name `{n}` is generated more than once"
  | danglingArm e i => s!"entry point `{e}` dispatches to missing implementation `{i}`"
  | mixedSignature e i => s!"entry point `{e}` serves `{i}`, whose signature differs"

end Problem

/-- The elements that have occurred before, given those that have gone by. -/
def repeats (seen : List String) : List String → List String
  | [] => []
  | n :: rest => if n ∈ seen then n :: repeats seen rest else repeats (n :: seen) rest

/-- What is wrong with one arm of an entry point. -/
def armProblem? (e : EntryPoint) (a : Arm) : Option Problem :=
  match u.implementation? a.implementation with
  | none => some (.danglingArm e.name a.implementation)
  | some i =>
    if i.site.signature ≠ e.signature then some (.mixedSignature e.name i.name) else none

/-- Entry names that occur again, then implementation names that do, then what is wrong with each
arm. -/
def problems : List Problem :=
  (repeats [] (u.entryPoints.map EntryPoint.name)).map .duplicateEntry
    ++ (repeats [] (u.implementations.map Implementation.name)).map .duplicateImplementation
    ++ u.entryPoints.flatMap fun e => e.arms.filterMap (u.armProblem? e)

end CallUnit

end DataBinding
