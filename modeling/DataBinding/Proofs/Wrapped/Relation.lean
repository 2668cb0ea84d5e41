import DataBinding.Proofs.Heap.Pairs
import DataBinding.Proofs.Heap.Tapped
import DataBinding.Proofs.Machine.Completes
/-!
# Values that are wrapped before they are noted

Two runs of the same client differ in one subscription: in the second run each value of a path is wrapped in a record
of the change before it is joined with others and noted, and something may be picked from it (`Wrapping`). So an
observer of the second run is that of the first one, but that it wraps right before the slot of the join, or right
before the code (`Observer.Wraps`), and the join holds wrapped values (`Heap.Wraps`). All else is the same, cell for
cell.
-/

namespace DataBinding

variable {F C S : Type}

/-- All code comes back at once, leaves the heap alone and goes on holding what it holds, and only this code notes what
it is given. Functions yield the same, and make the same streams, wherever objects hold the same and there are the same
streams. -/
structure Client.LooksOn (K : Client F C S) (seen : S → List Value) (code : C) : Prop where
  resume : ∀ c signal w, ∃ w', K.Returns c signal w w' ∧ w'.heap = w.heap ∧ K.refs w'.client = K.refs w.client ∧
    (c = code → seen w'.client = seen w.client ++ signal.values) ∧ (c ≠ code → seen w'.client = seen w.client)
  apply : ∀ f v (w : World F C S), ∃ u xs, ∀ w' : World F C S, w.heap.Agrees w'.heap →
    w'.heap.streams = w.heap.streams → K.apply f v w' = (u, w'.withHeap (w'.heap.grown xs))

/-- How the second run differs from the first one. -/
structure Wrapping (F C S : Type) where
  client : Client F C S
  /-- The values that the client has noted. -/
  seen : S → List Value
  /-- The code that notes the values it is given. -/
  code : C
  /-- Where all paths start. -/
  root : ObjectId
  /-- What the property of each path is called. -/
  names : List (Option String)
  /-- The join of the values of several paths; a single path has none. -/
  join : Option Nat
  /-- The function that the second run applies at last, if any. -/
  selector : Option F
  /-- What the function makes of a value. -/
  pick : Value → Value

namespace Wrapping

variable (g : Wrapping F C S)

/-- What receives the wrapped values in the end. -/
def finished : Observer F C :=
  match g.selector with
  | none => .client g.code
  | some f => .map (.apply f) (.client g.code)

/-- The second value is the first one with each value of a path wrapped: the value itself, or those in a tuple. -/
inductive Image : Value → Value → Prop
  | one {p} (v) : g.join = none → g.names = [p] → Image v (.change g.root p v)
  | several {j vs} : g.join = some j → vs.length = g.names.length →
      Image (.tuple vs) (.tuple (List.zipWith (.change g.root) g.names vs))

/-- The second run notes this instead of a value. -/
def Shows (v v' : Value) : Prop := ∃ u, g.Image v u ∧ v' = g.pick u

/-- The slots of a join with wrapped values. -/
def wrapped (l : List (Option Value)) : List (Option Value) :=
  List.zipWith (fun p => Option.map (.change g.root p)) g.names l

/-- What only the second run holds. -/
def extras : List Node := .object g.root :: g.selector.elim [] g.client.functionRefs

/-- The client only looks on, and the selector only picks. -/
structure Sound : Prop where
  client : g.client.LooksOn g.seen g.code
  picked : ∀ f, g.selector = some f → ∀ v w, g.client.apply f v w = (g.pick v, w)
  whole : g.selector = none → ∀ v, g.pick v = v

/-- The second observer wraps what the first one is given. -/
inductive Ends : Observer F C → Observer F C → Prop
  | one {p} : g.join = none → g.names = [p] → Ends (.client g.code) (.map (.wrap g.root p) g.finished)
  | slot {j k p} : g.join = some j → g.names[k]? = some p →
      Ends (.slot j k (.client g.code)) (.map (.wrap g.root p) (.slot j k g.finished))

end Wrapping

section Relations

variable (g : Wrapping F C S)

/-! ## Observers -/

/-- The second observer is the first one, but that it wraps what is noted in the end. -/
inductive Observer.Wraps : Observer F C → Observer F C → Prop
  | ends {x y} : g.Ends x y → Wraps x y
  | client {c} : c ≠ g.code → Wraps (.client c) (.client c)
  | write (root path) : Wraps (.write root path) (.write root path)
  | map (f) {x y} : Wraps x y → Wraps (.map f x) (.map f y)
  | filter (f) {x y} : Wraps x y → Wraps (.filter f x) (.filter f y)
  | skip (i) {x y} : Wraps x y → Wraps (.skip i x) (.skip i y)
  | distinct (i) {x y} : Wraps x y → Wraps (.distinct i x) (.distinct i y)
  | outer (i select) {x y} : Wraps x y → Wraps (.outer i select x) (.outer i select y)
  | inner (i generation) {x y} : Wraps x y → Wraps (.inner i generation x) (.inner i generation y)
  | relocate (gate scheduler) {x y} : Wraps x y → Wraps (.relocate gate scheduler x) (.relocate gate scheduler y)
  | slot {j} (k) {x y} : g.join ≠ some j → Wraps x y → Wraps (.slot j k x) (.slot j k y)

/-- What is subscribed to, and by whom; the second run may wrap on the way there. -/
inductive Request.Wraps : Stream F × Observer F C → Stream F × Observer F C → Prop
  | same {x y y'} : y.Wraps g y' → Wraps (x, y) (x, y')
  | mapped {x f y y'} : g.Ends y (.map f y') → Wraps (x, y) (.map x f, y')

structure Handler.Wraps (x y : Handler F C) : Prop where
  id : y.id = x.id
  timing : y.timing = x.timing
  property : y.property = x.property
  reportsOwner : y.reportsOwner = x.reportsOwner
  observer : x.observer.Wraps g y.observer

/-- An observer of a subject. -/
structure Listener.Wraps (x y : Nat × Observer F C) : Prop where
  id : y.1 = x.1
  observer : x.2.Wraps g y.2

inductive Task.Wraps : Task F C → Task F C → Prop
  | deliver (gate) {x y} (v) : x.Wraps g y → Wraps (.deliver gate x v) (.deliver gate y v)
  | client (c) : Wraps (.client c) (.client c)

/-! ## The heap -/

structure Object.Wraps (x y : Object F C) : Prop where
  typeName : y.typeName = x.typeName
  capability : y.capability = x.capability
  properties : y.properties = x.properties
  handlers : List.Forall₂ (Handler.Wraps g) x.handlers y.handlers
  nextHandler : y.nextHandler = x.nextHandler

structure Subject.Wraps (x y : Subject F C) : Prop where
  observers : List.Forall₂ (Listener.Wraps g) x.observers y.observers
  nextObserver : y.nextObserver = x.nextObserver

inductive Scheduler.Wraps : Scheduler F C → Scheduler F C → Prop
  | immediate : Wraps .immediate .immediate
  | queue {l l'} : List.Forall₂ (Task.Wraps g) l l' → Wraps (.queue l) (.queue l')

/-- All tables in which there are no observers and no joins are the same. -/
structure Heap.SameCells (h h' : Heap F C) : Prop where
  composites : h'.composites = h.composites
  handles : h'.handles = h.handles
  streams : h'.streams = h.streams
  counters : h'.counters = h.counters
  memories : h'.memories = h.memories
  switches : h'.switches = h.switches
  gates : h'.gates = h.gates

/-- The join of the paths has a slot for each, and holds wrapped values in the second heap; all others are the
same. -/
structure Heap.WrapsJoins (h h' : Heap F C) : Prop where
  size : h'.joins.size = h.joins.size
  others : ∀ j, g.join ≠ some j → h'.join j = h.join j
  below : ∀ j, g.join = some j → j < h.joins.size
  length : ∀ j, g.join = some j → (h.join j).length = g.names.length
  wrapped : ∀ j, g.join = some j → h'.join j = g.wrapped (h.join j)

structure Heap.Wraps (h h' : Heap F C) : Prop where
  objects : ∀ o : ObjectId, Option.Rel (Object.Wraps g) h.objects[o]? h'.objects[o]?
  subjects : ∀ j : SubjectId, Option.Rel (Subject.Wraps g) h.subjects[j]? h'.subjects[j]?
  schedulers : ∀ i : SchedulerId, Option.Rel (Scheduler.Wraps g) h.schedulers[i]? h'.schedulers[i]?
  cells : h.SameCells h'
  joins : h.WrapsJoins g h'

end Relations

variable {g : Wrapping F C S} {h h' : Heap F C}

/-! ## Joins -/

namespace Wrapping

/-- Filling a slot fills the wrapped slot with the wrapped value. -/
theorem wrapped_set {l : List (Option Value)} {k : Nat} {p : Option String} (hk : g.names[k]? = some p) (v : Value) :
    g.wrapped (l.set k (some v)) = (g.wrapped l).set k (some (.change g.root p v)) := by
  unfold wrapped
  refine List.ext_getElem? fun i => ?_
  simp only [List.getElem?_zipWith, List.getElem?_set, List.length_zipWith]
  by_cases hi : k = i
  · subst hi
    have hlt : k < g.names.length := (List.getElem?_eq_some_iff.1 hk).1
    by_cases hl : k < l.length
    · simp only [if_true, hk, hl, Nat.lt_min.2 ⟨hlt, hl⟩, Option.map_some]
    · have hmin : ¬ k < min g.names.length l.length := fun h => hl (Nat.lt_min.1 h).2
      simp only [if_true, hk, hl, hmin, if_false]
  · simp [hi]

/-- Filled slots hold as many values. -/
theorem length_of_mapM {l : List (Option Value)} {vs : List Value} (h : l.mapM id = some vs) :
    vs.length = l.length := by
  induction l generalizing vs with
  | nil =>
    cases h
    rfl
  | cons x l ih =>
    rw [List.mapM_cons] at h
    obtain ⟨v, -, h⟩ := Option.bind_eq_some_iff.1 h
    obtain ⟨us, hus, h⟩ := Option.bind_eq_some_iff.1 h
    cases h
    exact congrArg Nat.succ (ih hus)

/-- The wrapped slots are all filled exactly if the slots are. -/
theorem mapM_wrapped {l : List (Option Value)} (hl : l.length = g.names.length) :
    (g.wrapped l).mapM id = (l.mapM id).map (List.zipWith (.change g.root) g.names) := by
  unfold wrapped
  generalize g.names = names at hl ⊢
  induction l generalizing names with
  | nil =>
    obtain rfl := List.length_eq_zero_iff.1 hl.symm
    rfl
  | cons v l ih =>
    cases names with
    | nil => cases hl
    | cons p names =>
      have hrest := ih names (Nat.succ.inj hl)
      cases v with
      | none => simp
      | some v =>
        simp only [List.zipWith_cons_cons, List.mapM_cons, hrest, Option.map_some, id]
        cases l.mapM id <;> rfl

end Wrapping

/-! ## What is read -/

namespace Heap.Wraps

variable (hw : h.Wraps g h')
include hw

theorem agrees : h.Agrees h' where
  size := size_eq_of_rel hw.objects
  get o p := by
    have ho : h'.objects[o]?.map (·.get p) = h.objects[o]?.map (·.get p) :=
      map_eq_of_rel (hw.objects o) fun _ _ hr => by simp only [Object.get, hr.properties]
    simp only [Heap.get, ho]

theorem read (o : ObjectId) (p : String) : h'.read o p = h.read o p := by
  simp only [Heap.read, hw.agrees.get]

theorem inner (v : Value) (select : Selection) : select.inner h' v = select.inner h v := by
  cases select with
  | link => rfl
  | stream => cases v <;> simp only [Selection.inner, Heap.stream, hw.cells.streams]

theorem nextHandler (o : ObjectId) : h'.objects[o]?.map Object.nextHandler = h.objects[o]?.map Object.nextHandler :=
  map_eq_of_rel (hw.objects o) fun _ _ => (·.nextHandler)

theorem nextObserver (j : SubjectId) :
    h'.subjects[j]?.map Subject.nextObserver = h.subjects[j]?.map Subject.nextObserver :=
  map_eq_of_rel (hw.subjects j) fun _ _ => (·.nextObserver)

theorem handlersFor (o : ObjectId) (t : Timing) (p : String) :
    List.Forall₂ (Handler.Wraps g) (h.handlersFor o t p) (h'.handlersFor o t p) := by
  refine forall₂_of_rel (hw.objects o) fun x y hr => ?_
  simp only [Object.handlersFor, hr.capability]
  split
  · exact List.rel_filter (fun x y hxy => by simp only [hxy.timing, hxy.property]) hr.handlers
  · exact .nil

theorem observers (j : SubjectId) : List.Forall₂ (Observer.Wraps g) (h.observers j) (h'.observers j) :=
  forall₂_of_rel (hw.subjects j) fun _ _ hr =>
    List.forall₂_map_left_iff.2 (List.forall₂_map_right_iff.2 (hr.observers.imp fun _ _ => (·.observer)))

theorem tasks (i : SchedulerId) : Option.Rel (List.Forall₂ (Task.Wraps g)) (h.tasks? i) (h'.tasks? i) := by
  have hi := hw.schedulers i
  simp only [Heap.tasks?]
  generalize h.schedulers[i]? = x, h'.schedulers[i]? = y at hi
  cases hi with
  | none => exact .none
  | some hr =>
    cases hr with
    | immediate => exact .none
    | queue hl => exact .some hl

end Heap.Wraps

end DataBinding
