import DataBinding.Script.Value
import DataBinding.Text.Literals
/-!
# Reading scripts

How values, functions, stream expressions, arguments and reactions are read in a session. A value
may hold a stream expression, an expression a function and a function a value, so the three are
read together. Reading stops at the first thing that does not fit.
-/

namespace DataBinding.Script

/-- Reading in a session; streams may be made on the way. -/
abbrev Reading := StateT Scene Read

namespace Reading

def fail {α : Type} (f : Fault) : Reading α := throw (.fault f)

def need {α : Type} (field : String) (o : Option α) : Reading α := liftM (Read.need field o)

/-- Look an id up in a table of the session. -/
def find {α : Type} (what : String) (table : Session → Table α) (id : String) : Reading α := do
  match (table (← get).client).lookup id with
  | some a => return a
  | none => fail (.unknown what)

def object (id : String) : Reading ObjectId := find "object" Session.objects id
def subject (id : String) : Reading SubjectId := find "subject" Session.subjects id
def scheduler (id : String) : Reading SchedulerId := find "scheduler" Session.schedulers id
def stream (id : String) : Reading StreamId := find "stream" Session.streams id
def subscription (id : String) : Reading Nat := find "subscription" Session.subscriptions id
def composite (id : String) : Reading Nat := find "composite" Session.composites id
def binding (id : String) : Reading Binding := find "binding" Session.bindings id
def dispatcher (id : String) : Reading Dispatcher := find "dispatcher" Session.dispatchers id

/-- The text in a field. -/
def text (d : Data) (field : String) : Reading String := liftM (d.textField field)

def objectField (d : Data) (field : String) : Reading ObjectId := do object (← text d field)

/-- Make a stream of a definition. -/
def newStream (x : Stream Function) : Reading StreamId :=
  modifyGet fun w => let (id, h) := w.heap.newStream x; (id, w.withHeap h)

/-- The definition of a stream. -/
def definition (id : StreamId) : Reading (Stream Function) :=
  return (← get).heap.stream id

end Reading

open Reading

/-- An expression for a stream: one that is there, or the definition of a new one. -/
inductive Expr where
  | old (id : StreamId)
  | new (x : Stream Function)

namespace Expr

def definition : Expr → Reading (Stream Function)
  | old id => Reading.definition id
  | new x => return x

/-- The stream of the expression; a definition makes a new one. -/
def id : Expr → Reading StreamId
  | old id => return id
  | new x => newStream x

end Expr

/-- A whole number as one of 64 bits, if it is in range. -/
def int64? (n : Int) : Option Int64 :=
  if Int64.minValue.toInt ≤ n ∧ n ≤ Int64.maxValue.toInt then some (Int64.ofInt n) else none

/-- A floating-point number in sixteen digits. -/
def float? (digits : String) : Option Binary64 :=
  if digits.length = 16 then (Text.ofHex? digits.toList).map fun n => ⟨n.toUInt64⟩ else none

/-- The functions without parameters. -/
def plainFunction? : String → Option Function
  | "identity" => some .identity
  | "upper" => some .upper
  | "inc" => some .inc
  | "double" => some .double
  | "neg" => some .neg
  | "not" => some .not
  | "is_null" => some .isNull
  | "debug" => some .debug
  | "count" => some .count
  | "first" => some .first
  | "last" => some .last
  | "sum" => some .sum
  | "unwrap" => some .unwrap
  | "property" => some .property
  | "sender" => some .sender
  | "pair" => some .pair
  | "just" => some .just
  | _ => none

/-- The tests without parameters. -/
def plainTest? : String → Option Function
  | "is_null" => some .isNull
  | "is_int" => some .isInt
  | "is_str" => some .isText
  | "is_obj" => some .isObject
  | "is_change" => some .isChange
  | _ => none

/-- The plan of an observation, as a pipeline or through a call site. -/
def readPlan (d : Data) : Reading Pipeline := do
  if (d.get "site").isNull then return ← liftM (d.pipelineField "plan")
  else
    let site ← liftM (d.siteField "site")
    let caps ← liftM (d.capsField (← get).client.caps)
    match ← liftM ((site.plan caps).mapError Failure.rejected) with
    | .observation p => return p
    | .binding _ => fail .bindingSite

def timingOf (d : Data) : Reading Timing := need "mode" (Timing.ofData? d)

mutual

/-- The value in a tree of at most this depth. -/
def readValue : (depth : Nat) → Data → Reading Value
  | _, .null => return .null
  | _, .bool b => return .bool b
  | _, .int n => return .int (← need "value" (int64? n))
  | _, .text s => return .text s
  | depth + 1, .list items => return .tuple (← items.mapM (readValue depth))
  | depth + 1, d@(.record _) => do
    if let some x := d.get? "int" then
      return .int (← need "value" (x.asText?.bind Text.ofDecimal? |>.bind int64?))
    else if let some x := d.get? "float" then
      return .float (← need "value" (x.asText?.bind float?))
    else if let some x := d.get? "obj" then
      return .object (← object (← need "obj" x.asText?))
    else if let some x := d.get? "stream" then
      return .stream (← (← readExpr depth x).id)
    else if let some x := d.get? "change" then
      let sender ← objectField x "sender"
      return .change sender (x.get "property").asText? (← readInner depth x)
    else if let some x := d.get? "tagged" then
      let side ← need "tagged" (x.asText?.bind Side.ofWord?)
      return .tagged side (← readValue depth (d.get "value"))
    else fail (.field "value")
  | _, _ => fail (.field "value")

/-- The value inside the record of a change. -/
def readInner : (depth : Nat) → Data → Reading Value
  | depth + 1, x => readValue depth (x.get "value")
  | 0, _ => fail (.field "value")

def readFunction : (depth : Nat) → Data → Reading Function
  | _, .text name =>
    match plainFunction? name with
    | some f => return f
    | none => fail .function
  | depth + 1, d@(.record _) => do
    if let some x := d.get? "const" then return .const (← readValue depth x)
    else if let some x := d.get? "get" then return .get (← need "get" x.asText?)
    else if let some (.list [property, timing]) := d.get? "watch" then
      return .watch (← need "watch" property.asText?) (← timingOf timing)
    else if let some x := d.get? "min" then
      return .min (← need "min" (x.asInt?.bind int64?))
    else if let some (.list rows) := d.get? "table" then
      return .table (← rows.mapM (readRow depth))
    else if let some (.list fs) := d.get? "seq" then
      return .seq (← fs.mapM (readFunction depth))
    else if let some x := d.get? "each" then return .each (← readFunction depth x)
    else if let some x := d.get? "trace" then
      return .trace (← need "trace" x.asText?) (← readFunction depth (d.get "fn"))
    else fail .function
  | _, _ => fail .function

def readRow : (depth : Nat) → Data → Reading (Value × Value)
  | depth + 1, .list [a, b] => return (← readValue depth a, ← readValue depth b)
  | _, _ => fail (.field "table")

def readTest : (depth : Nat) → Data → Reading Function
  | _, .text name =>
    match plainTest? name with
    | some f => return f
    | none => fail .function
  | depth + 1, d@(.record _) => do
    if let some x := d.get? "eq" then return .equals (← readValue depth x)
    else if let some x := d.get? "ne" then return .differs (← readValue depth x)
    else fail .function
  | _, _ => fail .function

/-- The arguments in a record; what is missing is not supplied. -/
def readArguments : (depth : Nat) → Data → Reading (Arguments Function)
  | depth + 1, d => do
    let function (name : String) : Reading (Option Function) :=
      match d.get name with
      | .null => return none
      | x => some <$> readFunction depth x
    let selector ← function "selector"
    let converter ← function "converter"
    let backConverter ← function "back_converter"
    let sched ← match d.get "scheduler" with
      | .null => pure none
      | x => some <$> (do scheduler (← need "scheduler" x.asText?))
    return { selector, converter, backConverter, scheduler := sched }
  | 0, _ => return default

def readExpr : (depth : Nat) → Data → Reading Expr
  | _, .text name => return .old (← stream name)
  | depth + 1, .record [(key, x)] => do
    let source (x : Data) : Reading (Stream Function) := do (← readExpr depth x).definition
    match key, x with
    | "watch", .list (o :: property :: rest) =>
      let o ← object (← need "obj" o.asText?)
      let property ← need "prop" property.asText?
      return .new (.watch o property (← timingOf (rest.head?.getD .null)))
    | "just", v => return .new (.just (← readValue depth v))
    | "empty", _ => return .new .empty
    | "subject", id => return .new (.subject (← subject (← need "subject" id.asText?)))
    | "map", .list [e, f] =>
      let f ← readFunction depth f
      return .new (.map (← readListed depth e) (.apply f))
    | "filter", .list [e, f] =>
      let f ← readTest depth f
      return .new (.filter (← readListed depth e) f)
    | "switch_map", .list [e, f] =>
      let f ← readFunction depth f
      return .new (.switch (.map (← readListed depth e) (.apply f)) .stream)
    | "skip", .list [e, n] =>
      let e ← readListed depth e
      let n ← need "n" (n.asInt?.filter fun (n : Int) => 0 ≤ n ∧ n < UInt64.size)
      return .new (.skip e n.toNat)
    | "distinct", e => return .new (.distinct (← source e))
    | "switch_latest", e => return .new (.switch (← source e) .stream)
    | "observe_on", .list [e, id] =>
      let e ← readListed depth e
      return .new (.relocate e (← scheduler (← need "scheduler" id.asText?)))
    | "merge", .list es => return .new (.merge (← es.mapM (readListed depth)))
    | "combine_latest", .list es => return .new (.combineLatest (← es.mapM (readListed depth)))
    | "pipeline", id => return .old (← binding (← need "binding" id.asText?)).pipeline
    | "changes", id =>
      match (← binding (← need "binding" id.asText?)).changes with
      | some changes => return .old changes
      | none => fail .noChanges
    | "observe", x =>
      let p ← readPlan x
      let root ← objectField x "root"
      let a ← readArguments depth (x.get "args")
      return .new (← liftM ((p.observe root a).mapError Failure.run))
    | _, _ => fail (.field "expr")
  | _, _ => fail (.field "expr")

/-- The definition of an expression that stands in a list. -/
def readListed : (depth : Nat) → Data → Reading (Stream Function)
  | depth + 1, d => do (← readExpr depth d).definition
  | 0, _ => fail (.field "expr")

end

/-! ## Fields -/

/-- Enough depth for a tree: each level is passed in at most two steps. -/
def enough (d : Data) : Nat := 2 * d.depth + 2

def valueOf (d : Data) : Reading Value := readValue (enough d) d

def valueField (d : Data) (name : String) : Reading Value := valueOf (d.get name)

def functionOf (d : Data) : Reading Function := readFunction (enough d) d

def exprOf (d : Data) : Reading Expr := readExpr (enough d) d

def argumentsField (d : Data) : Reading (Arguments Function) :=
  readArguments (enough (d.get "args")) (d.get "args")

def reactionOf (d : Data) : Reading Reaction := do
  let condition ← match d.get? "when" with
    | some v => some <$> valueOf v
    | none => pure none
  let skip ← liftM (d.indexField "skip")
  let times ← if (d.get "times").isNull then pure 1 else liftM (d.indexField "times")
  return { condition, skip, times, steps := d.listFieldD "do" }

def reactionsField (d : Data) : Reading (List Reaction) :=
  (d.listFieldD "on").mapM reactionOf

end DataBinding.Script
