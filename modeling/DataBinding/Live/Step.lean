import DataBinding.Live.Liveness
/-!
# Steps of the machine

`State.step` makes one step: it starts a command, passes a signal to the innermost frame, resumes
client code, or lets a panic unwind one frame. A state without frames whose control is a signal or a
panic is finished and stays as it is.

What the steps keep to:

* a changed property is stored before anybody is told; handlers told beforehand get the old value,
  those told afterwards the new one, and each phase tells the handlers there are when it starts;
* a subscription to a property is registered first and then given the present value;
* a switch undoes the inner subscription before it makes the next, and passes on the values of the
  latest inner stream only;
* of several members all are undone, and the first panic goes on afterwards.
-/

namespace DataBinding

variable {F C S : Type}

namespace World

variable (w : World F C S)

/-- The world with a changed heap. -/
def withHeap (h : Heap F C) : World F C S := { w with heap := h }

end World

namespace State

/-- Go on with a control under the frames. -/
def goOn (s : State F C S) (c : Control F C) (h : Heap F C) : State F C S :=
  { s with control := c, world := s.world.withHeap h }

/-- Go on with a control under one frame more. -/
def under (s : State F C S) (f : Frame F C) (c : Control F C) (h : Heap F C) : State F C S :=
  { control := c, frames := f :: s.frames, world := s.world.withHeap h }

end State

/-- The state between two commands: nothing under way. -/
def World.start (w : World F C S) (c : Command F C) : State F C S := ⟨.run c, [], w⟩

/-! ## Commands -/

section Commands

variable (K : Client F C S) (s : State F C S)

/-- Tell the next handler of a snapshot, or pass on that all have been told. -/
def stepNotify (o : ObjectId) (v : Value) : List (Handler F C) → State F C S
  | [] => s.goOn (.pass .done) s.world.heap
  | h :: rest =>
    let shown := if h.reportsOwner then .object o else v
    s.under (.notifying h rest o v) (.run (.deliver h.observer shown)) s.world.heap

/-- Give the value to the next observer of a snapshot, or pass on that all have it. -/
def stepPublish (subject : SubjectId) (v : Value) : List (Observer F C) → State F C S
  | [] => s.goOn (.pass .done) s.world.heap
  | o :: rest => s.under (.publishing o rest subject v) (.run (.deliver o v)) s.world.heap

/-- Assign a property. A value equal to the one it holds changes nothing. -/
def stepSet (o : ObjectId) (property : String) (v : Value) : State F C S :=
  let old := s.world.heap.get o property
  if old.eqv v then s.goOn (.pass (.flag false)) s.world.heap
  else
    let h := s.world.heap.put o property v
    stepNotify (s.under (.announcing o property old v) (.pass .done) h) o old
      (h.handlersFor o .before property)

/-- Assign at the end of a path; without an owner there is nothing to assign. -/
def stepWrite (root : ObjectId) (path : Path) (v : Value) : State F C S :=
  match s.world.heap.target? root path with
  | some (o, property) => s.goOn (.run (.set o property v)) s.world.heap
  | none => s.goOn (.pass (.flag false)) s.world.heap

/-- Subscribe to the present value of a property and to its changes. -/
def stepWatch (o : ObjectId) (property : String) (timing : Timing) (observer : Observer F C) :
    State F C S :=
  if s.alive K (.object o) then
    let (id, h) := s.world.heap.addHandler o timing property property.isEmpty observer
    s.under (.subscribed observer (.handler o id)) (.run (.deliver observer (h.read o property))) h
  else s.goOn (.pass (.subscription .nothing)) s.world.heap

/-- Subscribe to a subject. -/
def stepListen (subject : SubjectId) (observer : Observer F C) : State F C S :=
  if s.alive K (.subject subject) then
    let (id, h) := s.world.heap.addObserver subject observer
    s.goOn (.pass (.subscription (.observer subject id))) h
  else s.goOn (.pass (.subscription .nothing)) s.world.heap

/-- Subscribe to a stream. -/
def stepSubscribe (observer : Observer F C) : Stream F → State F C S
  | .empty => s.goOn (.pass (.subscription .nothing)) s.world.heap
  | .just v => s.under (.subscribed observer .nothing) (.run (.deliver observer v)) s.world.heap
  | .watch o property timing => stepWatch K s o property timing observer
  | .constant root path =>
    let v := if s.alive K (.object root) then s.world.heap.readPath root path else .null
    s.under (.subscribed observer .nothing) (.run (.deliver observer v)) s.world.heap
  | .subject id => stepListen K s id observer
  | .map source f => s.goOn (.run (.subscribe source (.map f observer))) s.world.heap
  | .filter source f => s.goOn (.run (.subscribe source (.filter f observer))) s.world.heap
  | .skip source n =>
    let (i, h) := s.world.heap.newCounter n
    s.goOn (.run (.subscribe source (.skip i observer))) h
  | .distinct source =>
    let (i, h) := s.world.heap.newMemory
    s.goOn (.run (.subscribe source (.distinct i observer))) h
  | .switch source select =>
    let (i, h) := s.world.heap.newSwitch
    s.under (.opening i) (.run (.subscribe source (.outer i select observer))) h
  | .relocate source scheduler =>
    let (i, h) := s.world.heap.newGate
    s.under (.relocating i) (.run (.subscribe source (.relocate i scheduler observer))) h
  | .merge sources =>
    s.goOn (.run (.subscribeAll [] (sources.map (·, observer)))) s.world.heap
  | .combineLatest sources =>
    let (i, h) := s.world.heap.newJoin sources.length
    s.goOn (.run (.subscribeAll [] (sources.mapIdx fun k x => (x, .slot i k observer)))) h

def stepSubscribeAll (members : List (Teardown C)) : List (Stream F × Observer F C) → State F C S
  | [] => s.goOn (.pass (.subscription (.all members))) s.world.heap
  | (x, o) :: rest => s.under (.gathering o members rest) (.run (.subscribe x o)) s.world.heap

/-- Pass a value through a mapping. -/
def stepMap (next : Observer F C) (v : Value) : Mapping F → State F C S
  | .apply f =>
    let (v', w) := K.apply f v s.world
    { s with control := .run (.deliver next v'), world := w }
  | .wrap sender property =>
    let v' := if s.alive K (.object sender) then .change sender property v else .null
    s.goOn (.run (.deliver next v')) s.world.heap
  | .emptyIfNull =>
    match v with
    | .stream _ => s.goOn (.run (.deliver next v)) s.world.heap
    | _ =>
      let (id, h) := s.world.heap.newStream .empty
      s.goOn (.run (.deliver next (.stream id))) h
  | .publish subject side =>
    s.under (.passing next v) (.run (.next subject (.tagged side v))) s.world.heap

/-- The inner stream taken from a value. -/
def Selection.inner (h : Heap F C) (v : Value) : Selection → Stream F
  | .link property timing =>
    match v with
    | .object o => .watch o property timing
    | _ => .just .null
  | .stream =>
    match v with
    | .stream id => h.stream id
    | _ => .empty

/-- Begin a new generation of a switch; first the inner subscription before it is undone. -/
def stepSwitch (i : Nat) (inner : Stream F) (next : Observer F C) : State F C S :=
  let x := s.world.heap.switch i
  let h := s.world.heap.setSwitch i { x with generation := x.generation + 1, current := none }
  s.under (.switching i (x.generation + 1) inner next) (.run (.undo (x.current.getD .nothing))) h

/-- Deliver a value to an observer. -/
def stepDeliver (v : Value) : Observer F C → State F C S
  | .client code => s.goOn (.resume code (.value v)) s.world.heap
  | .write root path =>
    if s.alive K (.object root) then
      s.under (.writing root) (.run (.write root path v)) s.world.heap
    else s.goOn (.pass .done) s.world.heap
  | .map f next => stepMap K s next v f
  | .filter f next =>
    let (r, w) := K.apply f v s.world
    { s with control := if r.eqv (.bool true) then .run (.deliver next v) else .pass .done
             world := w }
  | .skip i next =>
    match s.world.heap.counter i with
    | 0 => s.goOn (.run (.deliver next v)) s.world.heap
    | n + 1 => s.goOn (.pass .done) (s.world.heap.setCounter i n)
  | .distinct i next =>
    if (s.world.heap.memory i).any (·.eqv v) then s.goOn (.pass .done) s.world.heap
    else s.goOn (.run (.deliver next v)) (s.world.heap.setMemory i v)
  | .outer i select next => stepSwitch s i (select.inner s.world.heap v) next
  | .inner i generation next =>
    let x := s.world.heap.switch i
    if !x.stopped && x.generation == generation then
      s.goOn (.run (.deliver next v)) s.world.heap
    else s.goOn (.pass .done) s.world.heap
  | .relocate gate scheduler next =>
    s.goOn (.run (.schedule scheduler (.deliver gate next v))) s.world.heap
  | .slot i k next =>
    let l := (s.world.heap.join i).set k (some v)
    let h := s.world.heap.setJoin i l
    match l.mapM id with
    | some values => s.goOn (.run (.deliver next (.tuple values))) h
    | none => s.goOn (.pass .done) h

/-- Undo a subscription. -/
def stepUndo : Teardown C → State F C S
  | .nothing => s.goOn (.pass .done) s.world.heap
  | .handler o id => s.goOn (.pass .done) (s.world.heap.removeHandler o id)
  | .observer subject id => s.goOn (.pass .done) (s.world.heap.removeObserver subject id)
  | .relocate gate source => s.goOn (.run (.undo source)) (s.world.heap.shutGate gate)
  | .switch i source =>
    let x := s.world.heap.switch i
    s.under (.closing i) (.run (.undo source)) (s.world.heap.setSwitch i { x with stopped := true })
  | .all members => s.goOn (.run (.undoAll members none)) s.world.heap
  | .composite c => s.goOn (.run (.disposeComposite c)) s.world.heap
  | .client code => s.goOn (.resume code .done) s.world.heap

def stepUndoAll (panic : Option String) : List (Teardown C) → State F C S
  | [] => s.goOn (panic.elim (.pass .done) .panic) s.world.heap
  | t :: rest => s.under (.undoing rest panic) (.run (.undo t)) s.world.heap

/-- Dispose a composite: from now on it is disposed, and its members are undone. -/
def stepDisposeComposite (c : Nat) : State F C S :=
  let x := s.world.heap.composite c
  if x.disposed then s.goOn (.pass .done) s.world.heap
  else
    s.goOn (.run (.undoAll x.members none)) (s.world.heap.setComposite c ⟨[], true⟩)

/-- Move a subscription into a composite; a disposed composite undoes it at once. -/
def stepAdd (c handle : Nat) : State F C S :=
  let t := s.world.heap.teardown handle
  let h := s.world.heap.clearHandle handle
  let x := h.composite c
  if x.disposed then s.goOn (.run (.undo t)) h
  else s.goOn (.pass .done) (h.setComposite c { x with members := x.members ++ [t] })

/-- Run a task. -/
def stepTask : Task F C → State F C S
  | .deliver gate o v =>
    if s.world.heap.gateOpen gate then s.goOn (.run (.deliver o v)) s.world.heap
    else s.goOn (.pass .done) s.world.heap
  | .client code => s.goOn (.resume code .done) s.world.heap

/-- Keep a task for later, or run it at once where the scheduler keeps none. -/
def stepSchedule (scheduler : SchedulerId) (t : Task F C) : State F C S :=
  match s.world.heap.tasks? scheduler with
  | some tasks => s.goOn (.pass .done) (s.world.heap.setTasks scheduler (tasks ++ [t]))
  | none => stepTask s t

/-- Take the first of the kept tasks and run it. -/
def stepDrain (scheduler : SchedulerId) (ran : Nat) : State F C S :=
  match s.world.heap.tasks? scheduler with
  | some (t :: tasks) =>
    stepTask (s.under (.draining scheduler ran t) (.pass .done)
      (s.world.heap.setTasks scheduler tasks)) t
  | _ => s.goOn (.pass (.count ran)) s.world.heap

def stepCommand : Command F C → State F C S
  | .set o property v => stepSet s o property v
  | .write root path v => stepWrite s root path v
  | .next subject v => stepPublish s subject v (s.world.heap.observers subject)
  | .deliver o v => stepDeliver K s v o
  | .subscribe x o => stepSubscribe K s o x
  | .subscribeAll members rest => stepSubscribeAll s members rest
  | .undo t => stepUndo s t
  | .undoAll members panic => stepUndoAll s panic members
  | .dispose handle =>
    s.goOn (.run (.undo (s.world.heap.teardown handle))) (s.world.heap.clearHandle handle)
  | .disposeComposite c => stepDisposeComposite s c
  | .add c handle => stepAdd s c handle
  | .schedule scheduler t => stepSchedule s scheduler t
  | .drain scheduler ran => stepDrain s scheduler ran

end Commands

/-! ## Signals and panics -/

section Frames

variable (s : State F C S)

/-- The subscription in a signal. -/
def Signal.teardown : Signal C → Teardown C
  | .subscription t => t
  | _ => .nothing

/-- Go on with what a frame has left to do; the frame itself is gone from `s`. -/
def stepFrame (signal : Signal C) : Frame F C → State F C S
  | .client code => s.goOn (.resume code signal) s.world.heap
  | .subscribed _ t => s.goOn (.pass (.subscription t)) s.world.heap
  | .notifying _ rest o v => stepNotify s o v rest
  | .publishing _ rest subject v => stepPublish s subject v rest
  | .announcing o property old new =>
    stepNotify (s.under (.changed o old new) (.pass .done) s.world.heap) o new
      (s.world.heap.handlersFor o .after property)
  | .changed .. => s.goOn (.pass (.flag true)) s.world.heap
  | .passing next v => s.goOn (.run (.deliver next v)) s.world.heap
  | .writing _ => s.goOn (.pass .done) s.world.heap
  | .gathering _ members rest =>
    s.goOn (.run (.subscribeAll (members ++ [signal.teardown]) rest)) s.world.heap
  | .relocating gate =>
    s.goOn (.pass (.subscription (.relocate gate signal.teardown))) s.world.heap
  | .opening i => s.goOn (.pass (.subscription (.switch i signal.teardown))) s.world.heap
  | .switching i generation inner next =>
    if (s.world.heap.switch i).stopped then s.goOn (.pass .done) s.world.heap
    else
      s.under (.entering i generation inner)
        (.run (.subscribe inner (.inner i generation next))) s.world.heap
  | .entering i generation _ =>
    let x := s.world.heap.switch i
    if x.generation = generation then
      s.goOn (.pass .done) (s.world.heap.setSwitch i { x with current := some signal.teardown })
    else s.goOn (.run (.undo signal.teardown)) s.world.heap
  | .closing i =>
    let x := s.world.heap.switch i
    s.goOn (.run (.undo (x.current.getD .nothing)))
      (s.world.heap.setSwitch i { x with current := none })
  | .undoing rest panic => s.goOn (.run (.undoAll rest panic)) s.world.heap
  | .draining scheduler ran _ => s.goOn (.run (.drain scheduler (ran + 1))) s.world.heap
  | .unwinding message => s.goOn (.panic message) s.world.heap

/-- What a panic does to a frame: what is owned there is undone before the panic goes on, and
members that remain to be undone still are. -/
def unwindFrame (message : String) : Frame F C → State F C S
  | .subscribed _ t => s.under (.unwinding message) (.run (.undo t)) s.world.heap
  | .gathering _ members _ =>
    s.under (.unwinding message) (.run (.undoAll members none)) s.world.heap
  | .undoing rest panic =>
    s.goOn (.run (.undoAll rest (some (panic.getD message)))) s.world.heap
  | .unwinding first => s.goOn (.panic first) s.world.heap
  | _ => s.goOn (.panic message) s.world.heap

/-- Make the move of resumed code. -/
def stepMove : Move F C → State F C S
  | .finish => s.goOn (.pass .done) s.world.heap
  | .perform command code => s.under (.client code) (.run command) s.world.heap
  | .goOn code => s.goOn (.resume code .done) s.world.heap
  | .panic message => s.goOn (.panic message) s.world.heap

end Frames

/-! ## Steps and runs -/

namespace State

variable (K : Client F C S)

/-- One step. -/
def step (s : State F C S) : State F C S :=
  match s.control, s.frames with
  | .run command, _ => stepCommand K s command
  | .resume code signal, _ =>
    let (w, move) := K.resume code signal s.world
    stepMove { s with world := w } move
  | .pass signal, f :: rest => stepFrame { s with frames := rest } signal f
  | .panic message, f :: rest => unwindFrame { s with frames := rest } message f
  | _, [] => s

/-- Nothing is left to do. -/
def finished (s : State F C S) : Bool :=
  match s.control, s.frames with
  | .pass _, [] => true
  | .panic _, [] => true
  | _, _ => false

/-- Step until nothing is left to do, but at most so many times. -/
def run : (limit : Nat) → State F C S → State F C S
  | 0, s => s
  | limit + 1, s => if s.finished then s else run limit (s.step K)

end State

end DataBinding
