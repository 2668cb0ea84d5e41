import DataBinding.CallSite
import DataBinding.Options
/-!
# Well-formed call sites

What must hold of a call site before anything is planned for it, and the defect that is reported
when it does not. Of several defects the first one in the order of `defect?` is reported.
-/

namespace DataBinding

/-- What is wrong with a call site. -/
inductive Defect where
  | kindMismatch (expected found : CallKind)
  | noPaths
  | arity (expected : String) (found : Nat)
  | textCount (paths found : Nat)
  | rootMismatch (index : Nat) (root expected : String)
  | beforeChangeNotAllowed
  | nestedObservable (index length : Nat)
  | conversionNotAllowed
  | selectorNotAllowed
deriving DecidableEq

namespace Defect

/-- The defect's own name in written forms. -/
def name : Defect → String
  | kindMismatch .. => "KindMismatch"
  | noPaths => "NoPaths"
  | arity .. => "Arity"
  | textCount .. => "ArgumentTextCount"
  | rootMismatch .. => "RootMismatch"
  | beforeChangeNotAllowed => "BeforeChangeNotAllowed"
  | nestedObservable .. => "NestedObservable"
  | conversionNotAllowed => "ConversionNotAllowed"
  | selectorNotAllowed => "SelectorNotAllowed"

def message : Defect → String
  | kindMismatch e f =>
    s!"call kind `{f.entryName}` passed to the `{e.entryName}` generator"
  | noPaths => "no property paths"
  | arity e f => s!"expected {e} property path(s), found {f}"
  | textCount p f => s!"{f} argument text(s) recorded for {p} path(s)"
  | rootMismatch i r e => s!"path {i} is rooted at `{r}`, expected `{e}`"
  | beforeChangeNotAllowed => "before-change observation is not available for this call kind"
  | nestedObservable i n =>
    s!"path {i} has {n} segments; observable properties must be direct"
  | conversionNotAllowed => "a converter was supplied to a call kind that does not convert"
  | selectorNotAllowed => "a selector was supplied to a two-way binding"

end Defect

/-- A call site that was turned down. -/
structure Rejection where
  kind : CallKind
  location : Location
  defect : Defect
deriving DecidableEq

def Rejection.message (r : Rejection) : String :=
  s!"malformed `{r.kind.entryName}` call site at {r.location.display}: {r.defect.message}"

namespace CallKind

/-- Whether a call site of this kind may have so many paths. -/
def allowsPaths : CallKind → Nat → Bool
  | observe, n => n == 1
  | observeMany, n => 2 ≤ n
  | whenAny, _ | whenAnyObservable, _ => true
  | oneWayBind, n | twoWayBind, n | taggedBind, n => n == 2

/-- How many paths the kind asks for. -/
def pathCount : CallKind → String
  | observe => "1"
  | observeMany => "at least 2"
  | whenAny | whenAnyObservable => "at least 1"
  | oneWayBind | twoWayBind | taggedBind => "2"

/-- Kinds that may watch pending changes. -/
def allowsBeforeChange : CallKind → Bool
  | observe | observeMany | whenAny => true
  | _ => false

end CallKind

/-- Whether so many recorded texts will do for so many paths: one for each path, or, where callers
are matched by position, none at all. -/
def Strategy.allowsTexts : Strategy → (paths texts : Nat) → Bool
  | text, p, t => t == p
  | positional, p, t => t == 0 || t == p

namespace CallSite

variable (s : CallSite)

/-- The paths that must start at the owner, with their places: all of them, but for a binding not
the source path. -/
def ownerPaths : List (Path × Nat) :=
  if s.kind.isBinding then s.paths.zipIdx.drop 1 else s.paths.zipIdx

/-- The first path that should start at the owner and does not. -/
def strayPath? : Option (Path × Nat) :=
  s.ownerPaths.find? fun (p, _) => p.rootType.name ≠ s.owner.name

/-- The first path of more than one segment. -/
def chainPath? : Option (Path × Nat) := s.paths.zipIdx.find? fun (p, _) => p.isChain

/-- The first defect of a call site that should be of this kind. -/
def defect? (kind : CallKind) (strategy : Strategy) : Option Defect :=
  if s.kind ≠ kind then some (.kindMismatch kind s.kind)
  else if s.paths.isEmpty then some .noPaths
  else if !s.kind.allowsPaths s.paths.length then
    some (.arity s.kind.pathCount s.paths.length)
  else if !strategy.allowsTexts s.paths.length s.texts.length then
    some (.textCount s.paths.length s.texts.length)
  else if let some (p, i) := s.strayPath? then
    some (.rootMismatch i p.rootType.name s.owner.name)
  else if s.features.beforeChange && !s.kind.allowsBeforeChange then
    some .beforeChangeNotAllowed
  else if let (.whenAnyObservable, some (p, i)) := (s.kind, s.chainPath?) then
    some (.nestedObservable i p.length)
  else if s.features.conversion && !s.kind.isBinding then some .conversionNotAllowed
  else if s.features.selector && s.kind.isBidirectional then some .selectorNotAllowed
  else none

/-- Turn the call site down if it has a defect. -/
def check (kind : CallKind) (strategy : Strategy) : Except Rejection Unit :=
  match s.defect? kind strategy with
  | some d => .error ⟨s.kind, s.location, d⟩
  | none => .ok ()

end CallSite

end DataBinding
