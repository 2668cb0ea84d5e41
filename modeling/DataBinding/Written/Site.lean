import DataBinding.Dispatch
import DataBinding.Capability
import DataBinding.Written.Failure
/-!
# Written call sites

How types, paths, call sites, capabilities, callers and signatures are read and written.
-/

namespace DataBinding

/-! ## Types and paths -/

namespace TypeRef

/-- A nullable type is wrapped in a record. -/
def toData (t : TypeRef) : Data :=
  if t.nullable then .record [("nullable", .text t.name)] else .text t.name

def ofData? : Data → Option TypeRef
  | .text name => some ⟨name, false⟩
  | d => (d.get "nullable").asText?.map (⟨·, true⟩)

end TypeRef

def Data.typeField (d : Data) (name : String) : Read TypeRef :=
  Read.need name (TypeRef.ofData? (d.get name))

namespace Segment

def toData (s : Segment) : Data :=
  .list [.text s.property, s.type.toData, s.declaring.toData]

def ofData? : Data → Option Segment
  | .list [.text property, type, declaring] => do
    return ⟨property, ← TypeRef.ofData? type, ← TypeRef.ofData? declaring⟩
  | _ => none

def ofData (d : Data) : Read Segment := Read.need "segment" (ofData? d)

end Segment

namespace Path

def toData (p : Path) : Data := .list (p.segments.map Segment.toData)

/-- The path of a list of written segments; `field` is blamed if there is no list. -/
def ofData (field : String) (d : Data) : Read Path := do
  let segments ← (← Read.need field d.asList?).mapM Segment.ofData
  (ofSegments segments).mapError .path

end Path

def Data.pathField (d : Data) (name : String) : Read Path := Path.ofData name (d.get name)

/-! ## Kinds, timings, strategies -/

def CallKind.ofName? (name : String) : Option CallKind := CallKind.all.find? (·.name == name)

def CallKind.toData (k : CallKind) : Data := .text k.name

def Data.kindField (d : Data) : Read CallKind :=
  Read.need "kind" ((d.get "kind").asText?.bind CallKind.ofName?)

def Timing.toData (t : Timing) : Data := .text t.word

/-- After is the rule, and need not be written. -/
def Timing.ofData? : Data → Option Timing
  | .null => some .after
  | .text w => [Timing.after, .before].find? (·.word == w)
  | _ => none

def Data.timingField (d : Data) : Read Timing := Read.need "mode" (Timing.ofData? (d.get "mode"))

/-- Matching by text is the rule, and need not be written. -/
def Data.strategyField (d : Data) : Read Strategy :=
  match d.get "dispatch" with
  | .null => .ok .text
  | v => Read.need "dispatch" (v.asText?.bind fun w =>
      [Strategy.text, .positional].find? (·.word == w))

/-! ## Call sites -/

/-- Feature bits; none if they are missing. -/
def Data.featuresField (d : Data) : Read Features := do
  Read.need "flags" (Features.ofBits? (← d.countField "flags" 15))

namespace CallSite

/-- The paths are read first. -/
def ofData (d : Data) : Read CallSite := do
  let paths ← (← d.listField "paths").mapM (Path.ofData "paths")
  let kind ← d.kindField
  let owner ← d.typeField "owner"
  let result ← d.typeField "result"
  let features ← d.featuresField
  let line ← d.lineField
  let texts ← if (d.get "texts").isNull then pure [] else d.textsField "texts"
  return { kind, owner, paths, result, features,
           location := ⟨d.textFieldD "file" "", line⟩, texts }

/-- A call site as answers show it: by its place. -/
def place (s : CallSite) : Data := .text s.location.display

end CallSite

def Data.siteField (d : Data) (name : String) : Read CallSite := CallSite.ofData (d.get name)

def Data.sitesField (d : Data) (name : String) : Read (List CallSite) := do
  (← d.listField name).mapM CallSite.ofData

/-! ## Capabilities -/

namespace Capability

def toData (c : Capability) : Data := .list [.bool c.after, .bool c.before]

end Capability

namespace Capabilities

def recordOfData? : Data → Option (String × Capability)
  | .list [.text name, .bool after, .bool before] => some (name, ⟨after, before⟩)
  | _ => none

def ofData (d : Data) : Read Capabilities := do
  let records ← (← Read.need "caps" d.asList?).mapM fun r => Read.need "caps" (recordOfData? r)
  return ofRecords records

end Capabilities

/-- The capabilities in the field, or the given ones if it is missing. -/
def Data.capsField (d : Data) (default : Capabilities) : Read Capabilities :=
  match d.get? "caps" with
  | none | some .null => .ok default
  | some caps => Capabilities.ofData caps

/-! ## Callers and signatures -/

namespace Caller

def ofData (d : Data) : Read Caller := do
  let texts ← if (d.get "texts").isNull then pure none else some <$> d.textsField "texts"
  let line ← d.lineField
  return ⟨texts, d.textFieldD "file" "", line⟩

end Caller

namespace Signature

def toData (k : Signature) : Data := .record [
  ("describe", .text k.describe),
  ("owner", k.owner.toData),
  ("result", k.result.toData),
  ("arity", .ofNat k.arity),
  ("roots", .list (k.roots.map TypeRef.toData)),
  ("leaves", .list (k.leaves.map TypeRef.toData)),
  ("flags", .ofNat k.features.bits)]

end Signature

end DataBinding
