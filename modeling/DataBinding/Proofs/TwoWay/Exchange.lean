import DataBinding.Proofs.Machine.Alive
import DataBinding.Proofs.Machine.Logs
/-!
# Two properties that are written into each other

An assignment to one of two bound properties is carried to the other one, and from there back
(`Exchange.set`). It ends there: what comes back equals what was assigned, and an equal value is not
stored.

What is stored on the way is read off the states gone through (`State.stored?`).
-/

namespace DataBinding

variable {F C S : Type} {K : Client F C S}

namespace State

/-- The property that the next step stores another value in. -/
def stored? (s : State F C S) : Option (ObjectId × String) :=
  match s.control with
  | .run (.set o p v) => if (s.world.heap.get o p).eqv v then none else some (o, p)
  | _ => none

/-- The state leads to another one, and these properties are stored on the way, in this order. -/
def Stores (K : Client F C S) (s : State F C S) (log : List (ObjectId × String)) (e : State F C S) :
    Prop :=
  Logs K stored? s log e

namespace Stores

variable {s s' e : State F C S} {log log' : List (ObjectId × String)}

theorem refl (s : State F C S) : Stores K s [] s := Logs.refl s

theorem trans (h : Stores K s log s') (h' : Stores K s' log' e) : Stores K s (log ++ log') e :=
  Logs.trans h h'

/-- On the way nothing is stored, and afterwards this. -/
theorem after (h : Stores K s [] s') (h' : Stores K s' log e) : Stores K s log e := Logs.after h h'

/-- A step that stores nothing. -/
theorem go (hs : ¬ s.control.IsAnswer) (hn : s.stored? = none) (h : Stores K (s.step K) log e) :
    Stores K s log e := Logs.go hs hn h

/-- A step that stores a property. -/
theorem store {o : ObjectId} {p : String} (hs : ¬ s.control.IsAnswer) (hn : s.stored? = some (o, p))
    (h : Stores K (s.step K) log e) : Stores K s ((o, p) :: log) e := Logs.act hs hn h

/-- A frame goes on with a signal. -/
theorem back {f : Frame F C} {fs : List (Frame F C)} {signal : Signal C} {w : World F C S}
    (h : Stores K (stepFrame ⟨.pass signal, fs, w⟩ signal f) log e) :
    Stores K ⟨.pass signal, f :: fs, w⟩ log e := Logs.back rfl h

/-- A way that ends with a signal and without frames is a call. -/
theorem ends {signal : Signal C} {w : World F C S} (h : Stores K s log ⟨.pass signal, [], w⟩) :
    ∃ l, Ends K [] s l ⟨.pass signal, [], w⟩ ∧ l.filterMap stored? = log := Logs.ends h

end Stores

end State

open State

variable {h h' : Heap F C} {k : S} {fs : List (Frame F C)} {o o' : ObjectId} {p p' : String}
  {v old : Value} {x : Handler F C}

/-! ## Assignments -/

/-- An equal value is not stored. -/
theorem stores_set_equal (he : (h.get o p).eqv v = true) :
    Stores K ⟨.run (.set o p v), fs, h, k⟩ [] ⟨.pass (.flag false), fs, h, k⟩ :=
  logs_set_equal he (by simp [stored?, he])

section Changed
variable (hn : (h.get o p).eqv v = false) (hb : h.handlersFor o .before p = [])
include hn hb

/-- Nobody hears of an assignment. -/
theorem stores_set_unheard (ha : h.handlersFor o .after p = []) :
    Stores K ⟨.run (.set o p v), fs, h, k⟩ [(o, p)] ⟨.pass (.flag true), fs, h.put o p v, k⟩ := by
  have hh : ∀ t, h.handlersFor o t p = [] := fun t => by
    cases t
    · exact ha
    · exact hb
  exact logs_set_unheard hn hh (by simp [stored?, hn]) fun _ _ _ => rfl

/-- One handler hears of an assignment, once it is made. -/
theorem stores_set_heard (ha : h.handlersFor o .after p = [x]) (hx : x.reportsOwner = false) :
    Stores K ⟨.run (.set o p v), fs, h, k⟩ [(o, p)] ⟨.run (.deliver x.observer v),
      .notifying x [] o v :: .changed o (h.get o p) v :: fs, h.put o p v, k⟩ := by
  have hb' : (h.put o p v).handlersFor o .before p = [] := by
    rw [Heap.handlersFor_put, hb]
  have ha' : (h.put o p v).handlersFor o .after p = [x] := by
    rw [Heap.handlersFor_put, ha]
  refine .store id (by simp [stored?, hn]) ?_
  rw [State.step_set_other hn, hb', stepNotify]
  refine .back ?_
  simp only [stepFrame, under, World.withHeap, ha', stepNotify, hx, Bool.false_eq_true, if_false]
  exact .refl _

end Changed

/-- The handler has been told, and there are no others. -/
theorem stores_told (signal : Signal C) (w : World F C S) :
    Stores K ⟨.pass signal, .notifying x [] o v :: .changed o old v :: fs, w⟩ []
      ⟨.pass (.flag true), fs, w⟩ :=
  .back (.back (.refl _))

/-! ## Values that are carried to a property -/

/-- The observer writes each value into the property, mapped by this function. It publishes to nobody on
the way, and leaves none out any more. -/
inductive Observer.Carries (K : Client F C S) (h : Heap F C) (o : ObjectId) (p : String) :
    Observer F C → (Value → Value) → Prop
  | write {path : Path} : path.links = [] → path.root.property = p → p ≠ "" →
      Carries K h o p (.write o path) id
  | apply {f x} {g map : Value → Value} : (∀ v w, K.apply f v w = (g v, w)) →
      Carries K h o p x map → Carries K h o p (.map (.apply f) x) (map ∘ g)
  | publish {i side x} {map : Value → Value} : h.observers i = [] → Carries K h o p x map →
      Carries K h o p (.map (.publish i side) x) map
  | skip {i x} {map : Value → Value} : h.counter i = 0 → Carries K h o p x map →
      Carries K h o p (.skip i x) map

/-- A path of one segment is written on its root. -/
theorem Heap.target?_of_single (h : Heap F C) (o : ObjectId) {path : Path} (hl : path.links = [])
    (hn : path.root.property ≠ "") : h.target? o path = some (o, path.root.property) := by
  simp [target?, Path.leaf, Path.segments, hl, Segment.isAny, hn, follow]

namespace Observer.Carries

variable {x : Observer F C} {map : Value → Value}

/-- It does so wherever the cells are the same. -/
theorem congr (hc : x.Carries K h o p map) (hs : h'.subjects = h.subjects)
    (hk : h'.counters = h.counters) : x.Carries K h' o p map := by
  induction hc with
  | write hl hp hn => exact .write hl hp hn
  | apply hf _ ih => exact .apply hf ih
  | publish ho _ ih =>
    refine .publish ?_ ih
    rw [← ho]
    simp only [Heap.observers, hs]
  | skip hz _ ih =>
    refine .skip ?_ ih
    rw [← hz]
    simp only [Heap.counter, hk]

/-- A value that is delivered is written, mapped. -/
theorem stores (hc : x.Carries K h o p map) (ho : Node.object o ∈ K.refs k) (fs : List (Frame F C))
    (v : Value) :
    Stores K ⟨.run (.deliver x v), fs, h, k⟩ [] ⟨.run (.set o p (map v)), .writing o :: fs, h, k⟩ := by
  induction hc generalizing v with
  | @write path hl hp hn =>
    have halive : (⟨.run (.deliver (.write o path) v), fs, h, k⟩ : State F C S).alive K (.object o) =
        true := alive_of_kept K (fun _ hm => hm) (.inl ho)
    have htarget : h.target? o path = some (o, p) := by
      rw [h.target?_of_single o hl (hp.symm ▸ hn), hp]
    refine .go id rfl ?_
    simp only [State.step, stepCommand, stepDeliver]
    rw [if_pos halive]
    refine .go id rfl ?_
    simp only [State.step, stepCommand, under, World.withHeap, stepWrite, htarget]
    exact .refl _
  | @apply f x g map hf _ ih =>
    refine .go id rfl ?_
    simp only [State.step, stepCommand, stepDeliver, stepMap, hf]
    exact ih (g v)
  | @publish i side x map hn _ ih =>
    refine .go id rfl (.go id rfl ?_)
    simp only [State.step, stepCommand, stepDeliver, stepMap, under, World.withHeap, hn, stepPublish]
    exact .back (ih v)
  | @skip i x map hz _ ih =>
    refine .go id rfl ?_
    simp only [State.step, stepCommand, stepDeliver, hz]
    exact ih v

end Observer.Carries

/-! ## An exchange -/

/-- One handler hears of the property, once it has changed, and carries its value to another one. -/
structure Heap.Carries (K : Client F C S) (h : Heap F C) (o : ObjectId) (p : String) (o' : ObjectId)
    (p' : String) (map : Value → Value) : Prop where
  exist : o < h.objects.size
  before : h.handlersFor o .before p = []
  after : ∃ x, h.handlersFor o .after p = [x] ∧ x.reportsOwner = false ∧
    x.observer.Carries K h o' p' map

/-- Its only handler carries the values of a property. -/
theorem Heap.carries_of_handlers {map : Value → Value} {i : Nat} {y : Observer F C}
    (ho : o < h.objects.size) (hs : h.supports o .after = true)
    (hx : h.handlers o = [⟨i, .after, p, false, y⟩]) (hy : y.Carries K h o' p' map) :
    h.Carries K o p o' p' map := by
  refine ⟨ho, ?_, ⟨i, .after, p, false, y⟩, ?_, rfl, hy⟩
  · simp [handlersFor_eq, hx]
  · simp [handlersFor_eq, hx, hs]

theorem Heap.Carries.put {map : Value → Value} (hc : h.Carries K o p o' p' map) (a : ObjectId)
    (q : String) (u : Value) : (h.put a q u).Carries K o p o' p' map := by
  obtain ⟨x, hx, hr, hcar⟩ := hc.after
  refine ⟨?_, ?_, x, ?_, hr, hcar.congr rfl rfl⟩
  · rw [Heap.size_put]
    exact hc.exist
  · rw [Heap.handlersFor_put]
    exact hc.before
  · rw [Heap.handlersFor_put]
    exact hx

/-- Two properties are carried to each other. -/
structure Exchange (K : Client F C S) (h : Heap F C) (k : S) (o : ObjectId) (p : String)
    (o' : ObjectId) (p' : String) (map map' : Value → Value) : Prop where
  there : h.Carries K o p o' p' map
  back : h.Carries K o' p' o p map'
  ne : o ≠ o'
  held : Node.object o ∈ K.refs k
  held' : Node.object o' ∈ K.refs k

namespace Exchange

variable {map map' : Value → Value}

theorem symm (e : Exchange K h k o p o' p' map map') : Exchange K h k o' p' o p map' map :=
  ⟨e.back, e.there, e.ne.symm, e.held', e.held⟩

theorem put (e : Exchange K h k o p o' p' map map') (a : ObjectId) (q : String) (u : Value) :
    Exchange K (h.put a q u) k o p o' p' map map' :=
  ⟨e.there.put a q u, e.back.put a q u, e.ne, e.held, e.held'⟩

/-- What an assignment has stored: nothing, or the value, and what it is mapped to. -/
inductive Settled (h : Heap F C) (o : ObjectId) (p : String) (o' : ObjectId) (p' : String)
    (v v' : Value) : List (ObjectId × String) → Heap F C → Prop
  | same : (h.get o p).eqv v = true → Settled h o p o' p' v v' [] h
  | one : (h.get o' p').eqv v' = true → Settled h o p o' p' v v' [(o, p)] (h.put o p v)
  | both : Settled h o p o' p' v v' [(o, p), (o', p')] ((h.put o p v).put o' p' v')

/-- An assignment comes back, and what comes back is not stored, since it equals what was assigned. -/
theorem set (e : Exchange K h k o p o' p' map map') (hv : v.eqv (map' (map v)) = true)
    (fs : List (Frame F C)) :
    ∃ log h' b, Settled h o p o' p' v (map v) log h' ∧
      Stores K ⟨.run (.set o p v), fs, h, k⟩ log ⟨.pass (.flag b), fs, h', k⟩ := by
  cases heq : (h.get o p).eqv v with
  | true => exact ⟨[], h, false, .same heq, stores_set_equal heq⟩
  | false =>
    obtain ⟨x, hx, hr, hcar⟩ := (e.put o p v).there.after
    obtain ⟨y, hy, hr', hcar'⟩ := ((e.put o p v).put o' p' (map v)).back.after
    rw [Heap.handlersFor_put] at hx hy
    -- the value is stored and carried to the other property
    have hthere : Stores K ⟨.run (.set o p v), fs, h, k⟩ [(o, p)] ⟨.run (.set o' p' (map v)),
        .writing o' :: .notifying x [] o v :: .changed o (h.get o p) v :: fs, h.put o p v, k⟩ :=
      (stores_set_heard heq e.there.before hx hr).trans (hcar.stores e.held' _ v)
    have hget : (h.put o p v).get o' p' = h.get o' p' := by
      rw [Heap.get_put _ _ _ _ _ _ e.there.exist]
      exact if_neg fun he => e.ne he.1.symm
    cases heq' : (h.get o' p').eqv (map v) with
    | true =>
      refine ⟨_, _, true, .one heq', hthere.trans ?_⟩
      refine .after (stores_set_equal (hget ▸ heq')) (.back ?_)
      exact stores_told _ _
    | false =>
      have hback : ((h.put o p v).put o' p' (map v)).get o p = v := by
        rw [Heap.get_put _ _ _ _ _ _ ((e.put o p v).back.exist), if_neg fun he => e.ne he.1,
          Heap.get_put _ _ _ _ _ _ e.there.exist, if_pos ⟨rfl, rfl⟩]
      refine ⟨_, _, true, .both, hthere.trans ?_⟩
      have hequal : (((h.put o p v).put o' p' (map v)).get o p).eqv (map' (map v)) = true := by
        rw [hback]
        exact hv
      refine (stores_set_heard (hget ▸ heq') (e.put o p v).back.before hy hr').trans ?_
      -- it comes back, and an equal value is there already
      refine .after (hcar'.stores e.held _ (map v)) ?_
      refine .after (stores_set_equal hequal) (.back ?_)
      refine .after (stores_told _ _) (.back ?_)
      exact stores_told _ _

end Exchange

end DataBinding
