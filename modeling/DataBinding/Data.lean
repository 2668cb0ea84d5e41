/-!
# Structured data

`Data` is the tree that every written form is read from and written to: null, truth values, whole
numbers and other decimals, texts, lists, and records of named fields.
-/

namespace DataBinding

inductive Data where
  | null
  | bool (b : Bool)
  | int (n : Int)
  /-- A number written with a decimal point: `mantissa` over a power of ten. -/
  | decimal (mantissa : Int) (exponent : Nat)
  | text (s : String)
  | list (items : List Data)
  | record (fields : List (String × Data))
deriving Inhabited

namespace Data

/-- The field of this name; where a name occurs twice, the last one counts. -/
def get? : Data → String → Option Data
  | record fields, name => fields.reverse.lookup name
  | _, _ => none

/-- The field of this name, null if it is missing. -/
def get (d : Data) (name : String) : Data := (d.get? name).getD null

def asText? : Data → Option String
  | text s => some s
  | _ => none

def asInt? : Data → Option Int
  | int n => some n
  | _ => none

def asList? : Data → Option (List Data)
  | list items => some items
  | _ => none

def asRecord? : Data → Option (List (String × Data))
  | record fields => some fields
  | _ => none

def isNull : Data → Bool
  | null => true
  | _ => false

def ofNat (n : Nat) : Data := int n

def texts (l : List String) : Data := list (l.map text)

/-- The value of an optional part, null if it is absent. -/
def ofOption {α : Type} (f : α → Data) : Option α → Data
  | some a => f a
  | none => null

end Data

end DataBinding
