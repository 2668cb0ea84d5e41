import DataBinding.Path
/-!
# Notification capabilities

Which types tell their observers about changes, and with which timing.
-/

namespace DataBinding

/-- The notifications a type raises. -/
structure Capability where
  after : Bool
  before : Bool
deriving DecidableEq, Inhabited

namespace Capability

/-- Both notifications. -/
def full : Capability := ⟨true, true⟩
/-- No notifications at all. -/
def inert : Capability := ⟨false, false⟩

def supports (c : Capability) : Timing → Bool
  | .after => c.after
  | .before => c.before

end Capability

/-- What was recorded for each type name, the latest record first. -/
structure Capabilities where
  records : List (String × Capability)

namespace Capabilities

/-- The table of these records; a later record of a name replaces an earlier one. -/
def ofRecords (records : List (String × Capability)) : Capabilities := ⟨records.reverse⟩

/-- What is recorded for a type. Whether the reference is nullable does not matter. -/
def get? (t : Capabilities) (type : TypeRef) : Option Capability := t.records.lookup type.name

/-- Whether a type raises notifications with this timing; one without a record raises none. -/
def supports (t : Capabilities) (type : TypeRef) (timing : Timing) : Bool :=
  (t.get? type).any (·.supports timing)

/-- The number of type names with a record. -/
def size (t : Capabilities) : Nat := (t.records.map Prod.fst).eraseDups.length

end Capabilities

end DataBinding
