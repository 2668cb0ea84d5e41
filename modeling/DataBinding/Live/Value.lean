import DataBinding.Binary64
import DataBinding.Plan
import DataBinding.Text.Literals
/-!
# Values

What properties hold and streams carry. Objects and streams occur as references and are compared as
such; all other values are compared by their parts. Equality is decided by `Value.eqv`: values of
different kinds are never equal, and floating-point numbers follow IEEE 754, so that a value with a
NaN in it does not equal itself.
-/

namespace DataBinding

abbrev ObjectId := Nat
abbrev SubjectId := Nat
abbrev StreamId := Nat
abbrev SchedulerId := Nat

inductive Value where
  /-- No value; also what a missing link of a path yields. -/
  | null
  | bool (b : Bool)
  | int (n : Int64)
  | float (x : Binary64)
  | text (s : String)
  | object (id : ObjectId)
  | tuple (items : List Value)
  /-- A stream held by a property. -/
  | stream (id : StreamId)
  /-- What was observed: the object the observation starts at, the dotted path (absent for every
  property), and the value. -/
  | change (sender : ObjectId) (property : Option String) (value : Value)
  /-- A value with the side of the binding it comes from. -/
  | tagged (side : Side) (value : Value)
deriving Inhabited

namespace Value

mutual

def eqv : Value → Value → Bool
  | null, null => true
  | bool a, bool b => a == b
  | int a, int b => a == b
  | float a, float b => a.eqv b
  | text a, text b => a == b
  | object a, object b => a == b
  | tuple a, tuple b => eqvItems a b
  | stream a, stream b => a == b
  | change s p v, change s' p' v' => s == s' && p == p' && eqv v v'
  | tagged s v, tagged s' v' => s == s' && eqv v v'
  | _, _ => false

def eqvItems : List Value → List Value → Bool
  | [], [] => true
  | a :: as, b :: bs => eqv a b && eqvItems as bs
  | _, _ => false

end

def isNull : Value → Bool
  | null => true
  | _ => false

/-! ## Text -/

mutual

/-- The value as shown to a person; `typeOf` tells the types of objects. -/
def render (typeOf : ObjectId → String) : Value → String
  | null => "Null"
  | bool b => if b then "true" else "false"
  | int n => toString n.toInt
  | float x => x.text
  | text s => Text.quote s
  | object id => s!"<{typeOf id}>"
  | tuple items => "[" ++ renderItems typeOf items ++ "]"
  | stream _ => "<stream>"
  | change sender property value =>
    "ObservedChange \x7b sender: " ++ Text.quote (typeOf sender) ++ ", property: " ++
      (match property with
        | some p => "Some(" ++ Text.quote p ++ ")"
        | none => "None") ++
      ", value: " ++ render typeOf value ++ " \x7d"
  | tagged side value => side.word ++ ":" ++ render typeOf value

def renderItems (typeOf : ObjectId → String) : List Value → String
  | [] => ""
  | [v] => render typeOf v
  | v :: rest => render typeOf v ++ ", " ++ renderItems typeOf rest

end

end Value

end DataBinding
