import DataBinding.CallSite.Check
import DataBinding.Signature
import DataBinding.Text.Lowercase
/-!
# Dispatch

An entry point serves all call sites of one signature. It is an ordered list of arms, one for each
call site, and the first arm whose rule accepts the caller decides which implementation runs.
-/

namespace DataBinding

/-- What a caller knows about itself. -/
structure Caller where
  /-- The captured argument texts, if they can be captured. -/
  texts : Option (List String)
  file : String
  line : UInt32
deriving DecidableEq

/-- How an arm recognises its call site. -/
inductive Rule where
  | exactText (texts : List String)
  | positional (line : UInt32) (suffix : String)
deriving DecidableEq

/-- A file path with one kind of slash and in lower case. -/
def foldPath (s : String) : String := Text.lower (s.map fun c => if c = '\\' then '/' else c)

/-- Whether a file path ends with the components of a suffix, whatever their case and slashes. The
suffix must not be empty and must start where a component starts. -/
def endsWithPath (file suffix : String) : Bool :=
  let file := (foldPath file).toList
  let suffix := (foldPath suffix).toList
  !suffix.isEmpty && suffix.isSuffixOf file &&
    (let before := file.take (file.length - suffix.length)
     before.isEmpty || before.getLast? == some '/')

namespace Rule

/-- The rule of a call site. -/
def ofSite (s : CallSite) : Strategy → Rule
  | .text => exactText s.texts
  | .positional => positional s.location.line s.location.suffix

def accepts (c : Caller) : Rule → Bool
  | exactText texts => c.texts == some texts
  | positional line suffix => c.line == line && endsWithPath c.file suffix

end Rule

/-- One arm of an entry point. -/
structure Arm where
  rule : Rule
  implementation : String
deriving DecidableEq

/-! ## Parameters -/

/-- What a parameter of an entry point is for. -/
inductive Role where
  | receiver (type : TypeRef)
  | sourceRoot (type : TypeRef)
  | property (root leaf : TypeRef)
  | selector (inputs : List TypeRef) (output : TypeRef)
  | converter (source target : TypeRef)
  | backConverter (source target : TypeRef)
  | scheduler
  | argumentText (index : Nat)
  | filePath
  | lineNumber
deriving DecidableEq

structure Parameter where
  name : String
  role : Role
deriving DecidableEq

namespace CallSite

variable (s : CallSite)

def sourceParameters : List Parameter :=
  match s.kind.isBinding, s.paths with
  | true, p :: _ => [⟨"source", .sourceRoot p.rootType⟩]
  | _, _ => []

def propertyParameters : List Parameter :=
  s.paths.zipIdx.map fun (p, i) => ⟨s!"property{i + 1}", .property p.rootType p.leafType⟩

/-- A binding selects from its source value alone. -/
def selectorParameters : List Parameter :=
  if s.features.selector then
    let inputs := if s.kind.isBinding then s.paths.take 1 else s.paths
    [⟨"selector", .selector (inputs.map Path.leafType) s.result⟩]
  else []

def converterParameters : List Parameter :=
  match s.features.conversion && s.kind.isBinding, s.paths with
  | true, source :: target :: _ =>
    ⟨"converter", .converter source.leafType target.leafType⟩ ::
      (if s.kind.isBidirectional then
        [⟨"back_converter", .backConverter target.leafType source.leafType⟩]
      else [])
  | _, _ => []

def schedulerParameters : List Parameter :=
  if s.features.scheduler then [⟨"scheduler", .scheduler⟩] else []

def callerParameters : Strategy → List Parameter
  | .text => s.paths.zipIdx.map fun (_, i) => ⟨s!"property{i + 1}_expression", .argumentText i⟩
  | .positional => [⟨"caller_file", .filePath⟩, ⟨"caller_line", .lineNumber⟩]

/-- The parameters of the entry point that serves a call site. -/
def parameters (strategy : Strategy) : List Parameter :=
  ⟨"receiver", .receiver s.owner⟩ :: s.sourceParameters ++ s.propertyParameters
    ++ s.selectorParameters ++ s.converterParameters ++ s.schedulerParameters
    ++ s.callerParameters strategy

end CallSite

/-! ## Entry points -/

structure EntryPoint where
  name : String
  kind : CallKind
  signature : Signature
  parameters : List Parameter
  arms : List Arm
deriving DecidableEq

namespace EntryPoint

/-- The first arm that accepts the caller. -/
def resolve? (e : EntryPoint) (c : Caller) : Option Arm := e.arms.find? (·.rule.accepts c)

/-- The entry point of a group. The names are those of the members' implementations, in order;
without a name a member has no arm. -/
def ofGroup (name : String) (g : Group) (implementations : List String) (strategy : Strategy) :
    EntryPoint where
  name := name
  kind := g.first.kind
  signature := g.signature
  parameters := g.first.parameters strategy
  arms := (g.members.zip implementations).map fun (s, i) => ⟨Rule.ofSite s strategy, i⟩

end EntryPoint

end DataBinding
