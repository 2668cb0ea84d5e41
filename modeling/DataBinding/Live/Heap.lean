import DataBinding.Capability
import DataBinding.Live.Stream
/-!
# The heap

All that has an identity or a state: objects with their properties and handlers, subjects,
schedulers, subscription handles and composites, stream definitions, and the cells of operators.
Each kind has a table, and an id is a place in it.
-/

namespace DataBinding

/-- A registration for changes of an object. -/
structure Handler (F C : Type) where
  id : Nat
  timing : Timing
  /-- The property, or every property if empty. -/
  property : String
  /-- Whether the object itself is reported instead of the value. -/
  reportsOwner : Bool
  observer : Observer F C

structure Object (F C : Type) where
  typeName : String
  capability : Capability
  properties : List (String × Value)
  handlers : List (Handler F C)
  nextHandler : Nat

structure Subject (F C : Type) where
  observers : List (Nat × Observer F C)
  nextObserver : Nat

/-- A piece of work for a scheduler. -/
inductive Task (F C : Type) where
  /-- Deliver a value, if the gate is still open. -/
  | deliver (gate : Nat) (observer : Observer F C) (value : Value)
  | client (code : C)

inductive Scheduler (F C : Type) where
  /-- Runs each task at once. -/
  | immediate
  /-- Keeps tasks until it is drained. -/
  | queue (tasks : List (Task F C))

structure Composite (C : Type) where
  members : List (Teardown C)
  disposed : Bool

/-- The state of a switch: the number of the latest inner stream, its subscription, and whether the
switch has been disposed. -/
structure Switch (C : Type) where
  generation : Nat
  current : Option (Teardown C)
  stopped : Bool

structure Heap (F C : Type) where
  objects : Array (Object F C)
  subjects : Array (Subject F C)
  schedulers : Array (Scheduler F C)
  composites : Array (Composite C)
  /-- Subscription handles; a disposed one has nothing to undo. -/
  handles : Array (Teardown C)
  streams : Array (Stream F)
  counters : Array Nat
  memories : Array (Option Value)
  joins : Array (List (Option Value))
  switches : Array (Switch C)
  /-- Whether each gate is open. -/
  gates : Array Bool

/-! ## Objects -/

namespace Object

variable {F C : Type} (o : Object F C)

/-- The value of a property, null if it was never set. -/
def get (property : String) : Value := (o.properties.lookup property).getD .null

def put (property : String) (v : Value) : Object F C :=
  { o with properties := (property, v) :: o.properties.filter (·.1 ≠ property) }

/-- The handlers to be told of a change: those for the property and those for every property, if
the object raises notifications with this timing. -/
def handlersFor (timing : Timing) (property : String) : List (Handler F C) :=
  if o.capability.supports timing then
    o.handlers.filter fun h => h.timing == timing && (h.property.isEmpty || h.property == property)
  else []

end Object

namespace Heap

variable {F C : Type} (h : Heap F C)

def empty : Heap F C := ⟨#[], #[], #[], #[], #[], #[], #[], #[], #[], #[], #[]⟩

def newObject (typeName : String) (capability : Capability) : ObjectId × Heap F C :=
  (h.objects.size, { h with objects := h.objects.push ⟨typeName, capability, [], [], 0⟩ })

/-- The type of an object. -/
def typeName (o : ObjectId) : String := (h.objects[o]?.map Object.typeName).getD ""

/-- The value of a property. -/
def get (o : ObjectId) (property : String) : Value :=
  (h.objects[o]?.map (·.get property)).getD .null

/-- What a watch reports: the value of the property, or for the empty name the object itself. -/
def read (o : ObjectId) (property : String) : Value :=
  if property.isEmpty then .object o else h.get o property

/-- Store a value without telling anybody. -/
def put (o : ObjectId) (property : String) (v : Value) : Heap F C :=
  { h with objects := h.objects.modify o (·.put property v) }

/-- Register an observer for changes of an object. -/
def addHandler (o : ObjectId) (timing : Timing) (property : String) (reportsOwner : Bool)
    (observer : Observer F C) : Nat × Heap F C :=
  let id := (h.objects[o]?.map Object.nextHandler).getD 0
  (id, { h with objects := h.objects.modify o fun x =>
    { x with handlers := x.handlers ++ [⟨id, timing, property, reportsOwner, observer⟩],
             nextHandler := id + 1 } })

def removeHandler (o : ObjectId) (id : Nat) : Heap F C :=
  { h with objects := h.objects.modify o fun x =>
    { x with handlers := x.handlers.filter (·.id ≠ id) } }

def handlersFor (o : ObjectId) (timing : Timing) (property : String) : List (Handler F C) :=
  (h.objects[o]?.map (·.handlersFor timing property)).getD []

def handlerCount (o : ObjectId) : Nat := (h.objects[o]?.map (·.handlers.length)).getD 0

/-! ### Paths -/

/-- Follow segments from a value, reading each as a watch would. -/
def readFrom (v : Value) : List Segment → Value
  | [] => v
  | s :: rest =>
    match v with
    | .object o => readFrom (h.read o s.property) rest
    | _ => .null

/-- The value at the end of a path; null if a link is missing. -/
def readPath (root : ObjectId) (path : Path) : Value := h.readFrom (.object root) path.segments

/-- The object reached by following properties, if all links are there. -/
def follow (o : ObjectId) : List Segment → Option ObjectId
  | [] => some o
  | s :: rest =>
    match h.get o s.property with
    | .object next => follow next rest
    | _ => none

/-- Where a write through a path goes: the owner of the last segment, if the links are there and
the last segment names a property. -/
def target? (root : ObjectId) (path : Path) : Option (ObjectId × String) :=
  if path.leaf.isAny then none
  else (h.follow root path.segments.dropLast).map (·, path.leaf.property)

/-! ## Subjects -/

def newSubject : SubjectId × Heap F C :=
  (h.subjects.size, { h with subjects := h.subjects.push ⟨[], 0⟩ })

def addObserver (s : SubjectId) (observer : Observer F C) : Nat × Heap F C :=
  let id := (h.subjects[s]?.map Subject.nextObserver).getD 0
  (id, { h with subjects := h.subjects.modify s fun x =>
    { x with observers := x.observers ++ [(id, observer)], nextObserver := id + 1 } })

def removeObserver (s : SubjectId) (id : Nat) : Heap F C :=
  { h with subjects := h.subjects.modify s fun x =>
    { x with observers := x.observers.filter (·.1 ≠ id) } }

def observers (s : SubjectId) : List (Observer F C) :=
  (h.subjects[s]?.map (·.observers.map Prod.snd)).getD []

/-! ## Schedulers -/

def newScheduler (s : Scheduler F C) : SchedulerId × Heap F C :=
  (h.schedulers.size, { h with schedulers := h.schedulers.push s })

/-- The tasks a scheduler keeps; none for one that runs them at once. -/
def tasks? (s : SchedulerId) : Option (List (Task F C)) :=
  match h.schedulers[s]? with
  | some (.queue tasks) => some tasks
  | _ => none

def setTasks (s : SchedulerId) (tasks : List (Task F C)) : Heap F C :=
  { h with schedulers := h.schedulers.setIfInBounds s (.queue tasks) }

/-! ## Subscriptions -/

def newHandle (t : Teardown C) : Nat × Heap F C :=
  (h.handles.size, { h with handles := h.handles.push t })

/-- What a handle has to undo. -/
def teardown (handle : Nat) : Teardown C := h.handles[handle]?.getD .nothing

/-- Leave a handle with nothing to undo. -/
def clearHandle (handle : Nat) : Heap F C :=
  { h with handles := h.handles.setIfInBounds handle .nothing }

def newComposite : Nat × Heap F C :=
  (h.composites.size, { h with composites := h.composites.push ⟨[], false⟩ })

def composite (c : Nat) : Composite C := h.composites[c]?.getD ⟨[], true⟩

def setComposite (c : Nat) (x : Composite C) : Heap F C :=
  { h with composites := h.composites.setIfInBounds c x }

/-! ## Streams and cells -/

def newStream (s : Stream F) : StreamId × Heap F C :=
  (h.streams.size, { h with streams := h.streams.push s })

def stream (id : StreamId) : Stream F := h.streams[id]?.getD .empty

def newCounter (n : Nat) : Nat × Heap F C :=
  (h.counters.size, { h with counters := h.counters.push n })

def counter (i : Nat) : Nat := h.counters[i]?.getD 0

def setCounter (i n : Nat) : Heap F C := { h with counters := h.counters.setIfInBounds i n }

def newMemory : Nat × Heap F C :=
  (h.memories.size, { h with memories := h.memories.push none })

def memory (i : Nat) : Option Value := (h.memories[i]?).getD none

def setMemory (i : Nat) (v : Value) : Heap F C :=
  { h with memories := h.memories.setIfInBounds i (some v) }

def newJoin (n : Nat) : Nat × Heap F C :=
  (h.joins.size, { h with joins := h.joins.push (List.replicate n none) })

def join (i : Nat) : List (Option Value) := h.joins[i]?.getD []

def setJoin (i : Nat) (l : List (Option Value)) : Heap F C :=
  { h with joins := h.joins.setIfInBounds i l }

def newSwitch : Nat × Heap F C :=
  (h.switches.size, { h with switches := h.switches.push ⟨0, none, false⟩ })

def switch (i : Nat) : Switch C := h.switches[i]?.getD ⟨0, none, true⟩

def setSwitch (i : Nat) (s : Switch C) : Heap F C :=
  { h with switches := h.switches.setIfInBounds i s }

def newGate : Nat × Heap F C :=
  (h.gates.size, { h with gates := h.gates.push true })

def gateOpen (i : Nat) : Bool := h.gates[i]?.getD false

def shutGate (i : Nat) : Heap F C := { h with gates := h.gates.setIfInBounds i false }

end Heap

end DataBinding
