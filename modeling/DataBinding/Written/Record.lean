import DataBinding.Text.Characters
import DataBinding.Written.Site
/-!
# Record form

The form in which call sites are stored: each type as a record of all its fields, under fixed
names. A record may also be given as the list of its field values in order. Fields that are not
known are passed over; a missing one makes the whole undecodable.
-/

namespace DataBinding

/-- The values of the named fields, in order. -/
def Data.fieldValues? (names : List String) : Data → Option (List Data)
  | .list values => if values.length = names.length then some values else none
  | d@(.record _) => names.mapM d.get?
  | _ => none

/-- A case without data: its name, or a record of that name alone. -/
def Data.caseName? : Data → Option String
  | .text name => some name
  | .record [(name, .null)] => some name
  | _ => none

namespace TypeRef

def toRecord (t : TypeRef) : Data :=
  .record [("name", .text t.name), ("nullable", .bool t.nullable)]

def ofRecord? (d : Data) : Option TypeRef := do
  match ← d.fieldValues? ["name", "nullable"] with
  | [.text name, .bool nullable] => some ⟨name, nullable⟩
  | _ => none

end TypeRef

namespace Segment

def toRecord (s : Segment) : Data := .record [
  ("property_name", .text s.property),
  ("property_type", s.type.toRecord),
  ("declaring_type", s.declaring.toRecord)]

def ofRecord? (d : Data) : Option Segment := do
  match ← d.fieldValues? ["property_name", "property_type", "declaring_type"] with
  | [.text property, type, declaring] =>
    return ⟨property, ← TypeRef.ofRecord? type, ← TypeRef.ofRecord? declaring⟩
  | _ => none

end Segment

namespace Path

def toRecord (p : Path) : Data := .list (p.segments.map Segment.toRecord)

/-- Only a connected list of segments is a path. -/
def ofRecord? (d : Data) : Option Path := do
  (ofSegments (← (← d.asList?).mapM Segment.ofRecord?)).toOption

end Path

def CallKind.ofRecord? (d : Data) : Option CallKind := d.caseName?.bind CallKind.ofName?

namespace Timing

def recordName : Timing → String
  | after => "AfterChange"
  | before => "BeforeChange"

def toRecord (t : Timing) : Data := .text t.recordName

def ofRecord? (d : Data) : Option Timing :=
  d.caseName?.bind fun n => [after, before].find? (·.recordName == n)

end Timing

namespace Location

def toRecord (l : Location) : Data :=
  .record [("file", .text l.file), ("line", .ofNat l.line.toNat)]

def ofRecord? (d : Data) : Option Location := do
  match ← d.fieldValues? ["file", "line"] with
  | [.text file, .int line] =>
    if 0 ≤ line ∧ line < UInt32.size then some ⟨file, line.toNat.toUInt32⟩ else none
  | _ => none

end Location

namespace Capability

def toRecord (c : Capability) : Data :=
  .record [("after_change", .bool c.after), ("before_change", .bool c.before)]

def ofRecord? (d : Data) : Option Capability := do
  match ← d.fieldValues? ["after_change", "before_change"] with
  | [.bool after, .bool before] => some ⟨after, before⟩
  | _ => none

end Capability

namespace Features

/-- The names of the features in bit order. -/
def featureNames : List String :=
  ["HAS_SELECTOR", "HAS_CONVERSION", "HAS_SCHEDULER", "IS_BEFORE_CHANGE"]

/-- Whether each feature is there, in bit order. -/
def toList (f : Features) : List Bool := [f.selector, f.conversion, f.scheduler, f.beforeChange]

/-- The names of the features that are there, between bars; then the reserved bits that are set, as
one hexadecimal number. -/
def text (f : Features) : String :=
  " | ".intercalate <|
    ((featureNames.zip f.toList).filterMap fun (n, b) => if b then some n else none) ++
      if f.reserved.val = 0 then [] else ["0x" ++ Text.hex 0 (16 * f.reserved)]

/-- Eight bits in hexadecimal: at least one digit of either case, after an optional plus sign. -/
def hexBits? (cs : List Char) : Option Nat :=
  let digits := if cs.head? = some '+' then cs.tail else cs
  if digits.isEmpty then none else (Text.ofHex? digits).filter (· < 256)

/-- The bits for one word: a feature's name, or hexadecimal bits of any kind. -/
def wordBits? (w : String) : Option Nat :=
  match featureNames.findIdx? (· == w) with
  | some i => some (1 <<< i)
  | none =>
    match w.toList with
    | '0' :: 'x' :: cs => hexBits? cs
    | _ => none

/-- Features from words between bars; a blank text names none. -/
def ofText? (s : String) : Option Features :=
  if (Text.trim s).isEmpty then ofBits? 0
  else do
    let words := (s.toList.splitOn '|').map fun w => Text.trim (String.ofList w)
    ofBits? ((← words.mapM wordBits?).foldl (· ||| ·) 0)

end Features

namespace CallSite

def toRecord (s : CallSite) : Data := .record [
  ("kind", s.kind.toData),
  ("owner_type", s.owner.toRecord),
  ("paths", .list (s.paths.map Path.toRecord)),
  ("result_type", s.result.toRecord),
  ("flags", .text s.features.text),
  ("location", s.location.toRecord),
  ("argument_texts", .texts s.texts)]

def ofRecord? (d : Data) : Option CallSite := do
  match ← d.fieldValues? ["kind", "owner_type", "paths", "result_type", "flags", "location",
      "argument_texts"] with
  | [kind, owner, .list paths, result, .text features, location, .list texts] =>
    return {
      kind := ← CallKind.ofRecord? kind
      owner := ← TypeRef.ofRecord? owner
      paths := ← paths.mapM Path.ofRecord?
      result := ← TypeRef.ofRecord? result
      features := ← Features.ofText? features
      location := ← Location.ofRecord? location
      texts := ← texts.mapM Data.asText? }
  | _ => none

end CallSite

/-- A value of the named type in normal record form: read, and written again. -/
def normalRecord? (what : String) (d : Data) : Option Data :=
  match what with
  | "site" => (CallSite.ofRecord? d).map CallSite.toRecord
  | "path" => (Path.ofRecord? d).map Path.toRecord
  | "type" => (TypeRef.ofRecord? d).map TypeRef.toRecord
  | "kind" => (CallKind.ofRecord? d).map CallKind.toData
  | "mode" => (Timing.ofRecord? d).map Timing.toRecord
  | "location" => (Location.ofRecord? d).map Location.toRecord
  | "capability" => (Capability.ofRecord? d).map Capability.toRecord
  | _ => none

end DataBinding
