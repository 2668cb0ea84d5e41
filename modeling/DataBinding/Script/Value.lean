import DataBinding.Script.Session
/-!
# Values in scripts

How values are written, and what the functions of a script compute.
-/

namespace DataBinding

/-- Numbers from here on are written as texts, since not every reader of written forms keeps them
apart. -/
def exactLimit : Nat := 0x20000000000000

def Binary64.toData (x : Binary64) : Data :=
  .record [("float", .text (Text.hex 16 (if x.isNaN then 0x7ff8000000000000 else x.bits.toNat)))]

mutual

/-- A value in written form; objects appear under the ids they were made with. -/
def Value.toData (name : ObjectId → String) : Value → Data
  | .null => .null
  | .bool b => .bool b
  | .int n =>
    if n.toInt.natAbs < exactLimit then .int n.toInt
    else .record [("int", .text (toString n.toInt))]
  | .float x => x.toData
  | .text s => .text s
  | .object o => .record [("obj", .text (name o))]
  | .tuple items => .list (itemsToData name items)
  | .stream _ => .record [("stream", .bool true)]
  | .change sender property v => .record [("change", .record [
      ("sender", .text (name sender)),
      ("property", Data.ofOption .text property),
      ("value", v.toData name)])]
  | .tagged side v => .record [("tagged", .text side.word), ("value", v.toData name)]

def itemsToData (name : ObjectId → String) : List Value → List Data
  | [] => []
  | v :: rest => v.toData name :: itemsToData name rest

end

namespace Script

/-- A value as events show it. -/
def Scene.written (w : Scene) (v : Value) : Data := v.toData w.client.name

def Scene.log (w : Scene) (event : List (String × Data)) : Scene :=
  { w with client := w.client.logged (.record event) }

/-- The value as a number, where it is one. -/
def onInt (f : Int64 → Int64) : Value → Value
  | .int n => .int (f n)
  | v => v

/-- The sum of the numbers in a tuple. -/
def sumInts (items : List Value) : Int64 :=
  items.foldl (fun n v => match v with | .int k => n + k | _ => n) 0

/-- Functions that depend on the value alone. -/
def Function.pure? (f : Function) (v : Value) : Option Value :=
  match f, v with
  | .identity, v => some v
  | .upper, .text s => some (.text (s.map Char.toUpper))
  | .upper, v => some v
  | .inc, v => some (onInt (· + 1) v)
  | .double, v => some (onInt (· * 2) v)
  | .neg, v => some (onInt (- ·) v)
  | .not, .bool b => some (.bool !b)
  | .not, v => some v
  | .isNull, v => some (.bool v.isNull)
  | .isInt, .int _ => some (.bool true)
  | .isInt, _ => some (.bool false)
  | .isText, .text _ => some (.bool true)
  | .isText, _ => some (.bool false)
  | .isObject, .object _ => some (.bool true)
  | .isObject, _ => some (.bool false)
  | .isChange, .change .. => some (.bool true)
  | .isChange, _ => some (.bool false)
  | .count, .tuple items => some (.int (Int64.ofNat items.length))
  | .count, .text s => some (.int (Int64.ofNat s.length))
  | .count, _ => some .null
  | .first, .tuple items => some (items.head?.getD .null)
  | .first, _ => some .null
  | .last, .tuple items => some (items.getLast?.getD .null)
  | .last, _ => some .null
  | .sum, .tuple items => some (.int (sumInts items))
  | .sum, v => some v
  | .unwrap, .tagged _ v => some v
  | .unwrap, .change _ _ v => some v
  | .unwrap, v => some v
  | .property, .change _ (some p) _ => some (.text p)
  | .property, _ => some .null
  | .sender, .change s _ _ => some (.object s)
  | .sender, _ => some .null
  | .pair, v => some (.tuple [v, v])
  | .const c, _ => some c
  | .equals c, v => some (.bool (v.eqv c))
  | .differs c, v => some (.bool !(v.eqv c))
  | .min n, v => some (onInt (fun k => if k ≤ n then k else n) v)
  | .table rows, v => some (((rows.find? fun row => row.1.eqv v).map Prod.snd).getD v)
  | _, _ => none

/-- The value of a stream that is made for it. -/
def Scene.newStream (w : Scene) (x : Stream Function) : Value × Scene :=
  let (id, h) := w.heap.newStream x
  (.stream id, w.withHeap h)

mutual

/-- Apply a function. Streams are made anew each time, and traces are logged. -/
def Function.apply (v : Value) (w : Scene) : Function → Value × Scene
  | .debug => (.text (v.render w.heap.typeName), w)
  | .just => w.newStream (.just v)
  | .get property =>
    match v with
    | .object o => (w.heap.get o property, w)
    | _ => (.null, w)
  | .watch property timing =>
    match v with
    | .object o => w.newStream (.watch o property timing)
    | _ => (.null, w)
  | .seq fs => applyAll v w fs
  | .each f =>
    match v with
    | .tuple items =>
      let (items, w) := items.foldl (fun (done, w) v =>
        let (v, w) := f.apply v w
        (done ++ [v], w)) (([] : List Value), w)
      (.tuple items, w)
    | _ => f.apply v w
  | .trace name f =>
    f.apply v (w.log [("fn", .text name), ("v", w.written v)])
  | f => ((f.pure? v).getD v, w)

def applyAll (v : Value) (w : Scene) : List Function → Value × Scene
  | [] => (v, w)
  | f :: rest =>
    let (v, w) := f.apply v w
    applyAll v w rest

end

end Script

end DataBinding
