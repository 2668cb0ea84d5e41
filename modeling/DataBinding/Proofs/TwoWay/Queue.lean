import DataBinding.Proofs.Machine.Completes
import DataBinding.Proofs.TwoWay.Wiring
/-!
# Two properties that are written into each other by way of a queue

Where the values of a property are written into another one on a queue, a change only leaves a task
there, and the write is made once the queue is drained. So the queue of two properties that are carried
to each other holds one task at most, for the one and for the other in turn.

`Queued.drain_quiet`: the source keeps its value while the queue is drained, if the target is not
watched, or holds what the source is mapped to, or if the value equals what it is mapped to and back.
`Queued.drain_echo`: otherwise it is given another one.
-/

namespace DataBinding

variable {F C S : Type} {K : Client F C S} {h h' h'' : Heap F C} {k : S} {i : SchedulerId}
  {o o' : ObjectId} {p p' : String} {map map' : Value → Value} {ts : List (Task F C)} {task : Task F C}

open State

/-! ## Cells -/

namespace Heap

theorem tasks?_setTasks_self (ht : h.tasks? i = some ts) (ts' : List (Task F C)) :
    (h.setTasks i ts').tasks? i = some ts' := by
  have hi : i < h.schedulers.size := by
    refine Nat.lt_of_not_le fun hn => ?_
    simp [tasks?, Array.getElem?_eq_none hn] at ht
  rw [tasks?_setTasks, if_pos ⟨rfl, hi⟩]

/-- Open gates stay open, and counters that have run out stay so; the subjects are the same. -/
structure StaysOpen (h h' : Heap F C) : Prop where
  subjects : h'.subjects = h.subjects
  counter : ∀ c, h.counter c = 0 → h'.counter c = 0
  gate : ∀ g, h.gateOpen g = true → h'.gateOpen g = true

namespace StaysOpen

theorem of_eq (hs : h'.subjects = h.subjects) (hc : h'.counters = h.counters) (hg : h'.gates = h.gates) :
    h.StaysOpen h' :=
  ⟨hs, fun c h0 => by simpa only [Heap.counter, hc] using h0, fun g h1 => by simpa only [gateOpen, hg] using h1⟩

theorem trans (a : h.StaysOpen h') (b : h'.StaysOpen h'') : h.StaysOpen h'' :=
  ⟨b.subjects.trans a.subjects, fun c hc => b.counter c (a.counter c hc),
    fun g hg => b.gate g (a.gate g hg)⟩

theorem put (h : Heap F C) (o : ObjectId) (p : String) (v : Value) : h.StaysOpen (h.put o p v) :=
  of_eq rfl rfl rfl

theorem setTasks (h : Heap F C) (i : SchedulerId) (ts : List (Task F C)) : h.StaysOpen (h.setTasks i ts) :=
  of_eq rfl rfl rfl

end StaysOpen

end Heap

/-! ## Observers that leave tasks -/

/-- Each value, mapped by this function, is left on the queue, to be written into the property. -/
inductive Observer.Queues (K : Client F C S) (h : Heap F C) (i : SchedulerId) (o : ObjectId) (p : String) :
    Observer F C → (Value → Value) → Prop
  | relocate {g x} : h.gateOpen g = true →
      (∀ h' : Heap F C, h'.subjects = h.subjects → x.Carries K h' o p id) →
      Queues K h i o p (.relocate g i x) id
  | apply {f x} {g map : Value → Value} : (∀ v w, K.apply f v w = (g v, w)) →
      Queues K h i o p x map → Queues K h i o p (.map (.apply f) x) (map ∘ g)
  | skip {c x} {map : Value → Value} : h.counter c = 0 → Queues K h i o p x map →
      Queues K h i o p (.skip c x) map

/-- Running the task writes this value into the property. -/
def Task.Writes (K : Client F C S) (h : Heap F C) (o : ObjectId) (p : String) (v : Value)
    (task : Task F C) : Prop :=
  ∃ g x, task = .deliver g x v ∧ h.gateOpen g = true ∧
    ∀ h' : Heap F C, h'.subjects = h.subjects → x.Carries K h' o p id

theorem Task.Writes.congr {v : Value} (hw : task.Writes K h o p v) (hs : h.StaysOpen h') :
    task.Writes K h' o p v := by
  obtain ⟨g, x, rfl, hg, hx⟩ := hw
  exact ⟨g, x, rfl, hs.gate g hg, fun h'' hs' => hx h'' (hs'.trans hs.subjects)⟩

namespace Observer.Queues

variable {x : Observer F C}

theorem congr (hq : x.Queues K h i o p map) (hs : h.StaysOpen h') : x.Queues K h' i o p map := by
  induction hq with
  | relocate hg hx => exact .relocate (hs.gate _ hg) fun h'' hs' => hx h'' (hs'.trans hs.subjects)
  | apply hf _ ih => exact .apply hf ih
  | skip hc _ ih => exact .skip (hs.counter _ hc) ih

/-- A value that is delivered leaves one task. -/
theorem stores (hq : x.Queues K h i o p map) (ht : h.tasks? i = some ts) (v : Value)
    (fs : List (Frame F C)) :
    ∃ task, task.Writes K h o p (map v) ∧ Stores K ⟨.run (.deliver x v), fs, h, k⟩ []
      ⟨.pass .done, fs, h.setTasks i (ts ++ [task]), k⟩ := by
  induction hq generalizing v with
  | @relocate g x hg hx =>
    refine ⟨.deliver g x v, ⟨g, x, rfl, hg, hx⟩, .go id rfl (.go id rfl ?_)⟩
    simp only [State.step, stepCommand, stepDeliver, goOn, World.withHeap, stepSchedule, ht]
    exact .refl _
  | @apply f x g map hf _ ih =>
    obtain ⟨task, hw, hs⟩ := ih (g v)
    refine ⟨task, hw, .go id rfl ?_⟩
    simp only [State.step, stepCommand, stepDeliver, stepMap, hf]
    exact hs
  | @skip c x map hc _ ih =>
    obtain ⟨task, hw, hs⟩ := ih v
    refine ⟨task, hw, .go id rfl ?_⟩
    simp only [State.step, stepCommand, stepDeliver, hc]
    exact hs

end Observer.Queues

/-! ## Draining -/

/-- A task that makes its write. -/
theorem stores_drain_write {v : Value} (ht : h.tasks? i = some (task :: ts)) (hw : task.Writes K h o p v)
    (ho : Node.object o ∈ K.refs k) (n : Nat) (fs : List (Frame F C)) :
    Stores K ⟨.run (.drain i n), fs, h, k⟩ []
      ⟨.run (.set o p v), .writing o :: .draining i n task :: fs, h.setTasks i ts, k⟩ := by
  obtain ⟨g, x, rfl, hg, hx⟩ := hw
  have hopen : (h.setTasks i ts).gateOpen g = true := hg
  refine .go id rfl ?_
  simp only [State.step, stepCommand, stepDrain, ht, stepTask, under, World.withHeap, hopen, if_true]
  exact (hx (h.setTasks i ts) rfl).stores ho _ v

theorem stores_drain_next (signal : Signal C) (n : Nat) (fs : List (Frame F C)) (w : World F C S) :
    Stores K ⟨.pass signal, .writing o :: .draining i n task :: fs, w⟩ []
      ⟨.run (.drain i (n + 1)), fs, w⟩ :=
  .back (.back (.refl _))

theorem stores_drain_nil (ht : h.tasks? i = some []) (n : Nat) (fs : List (Frame F C)) :
    Stores K ⟨.run (.drain i n), fs, h, k⟩ [] ⟨.pass (.count n), fs, h, k⟩ := by
  refine .go id rfl ?_
  simp only [State.step, stepCommand, stepDrain, ht]
  exact .refl _

/-- Client code that does nothing. -/
def Task.Idle (K : Client F C S) (task : Task F C) : Prop :=
  ∃ code, task = .client code ∧ ∀ w, K.Returns code .done w w

theorem Client.Returns.stores {code : C} {signal : Signal C} {w w' : World F C S}
    (hr : K.Returns code signal w w') (fs : List (Frame F C)) :
    Stores K ⟨.resume code signal, fs, w⟩ [] ⟨.pass .done, fs, w'⟩ := by
  induction hr with
  | finish he =>
    refine .go id rfl ?_
    simp only [State.step, he, stepMove]
    exact .refl _
  | goOn he _ ih =>
    refine .go id rfl ?_
    simp only [State.step, he, stepMove]
    exact ih

/-- Tasks that do nothing are run first. -/
theorem stores_drain_idle {idle : List (Task F C)} (hi : ∀ task ∈ idle, task.Idle K) (h : Heap F C)
    (ht : h.tasks? i = some (idle ++ ts)) (n : Nat) (fs : List (Frame F C)) :
    ∃ h', h' = h.setTasks i ts ∧ Stores K ⟨.run (.drain i n), fs, h, k⟩ []
      ⟨.run (.drain i (n + idle.length)), fs, h', k⟩ := by
  induction idle generalizing h n with
  | nil =>
    refine ⟨h, ?_, .refl _⟩
    have hself : h.schedulers.setIfInBounds i (.queue ts) = h.schedulers := by
      unfold Heap.tasks? at ht
      split at ht
      · next tasks he =>
        cases ht
        obtain ⟨hi, he⟩ := Array.getElem?_eq_some_iff.1 he
        rw [List.nil_append] at he
        rw [← he, Array.setIfInBounds, dif_pos hi, Array.set_getElem_self]
      · cases ht
    rw [Heap.setTasks, hself]
  | cons task rest ih =>
    obtain ⟨⟨code, rfl, hr⟩, hrest⟩ := List.forall_mem_cons.1 hi
    obtain ⟨h', rfl, hs⟩ := ih hrest (h.setTasks i (rest ++ ts)) (Heap.tasks?_setTasks_self ht _) (n + 1)
    refine ⟨h.setTasks i ts, rfl, .go id rfl ?_⟩
    simp only [State.step, stepCommand, stepDrain, ht, List.cons_append, stepTask]
    refine (Client.Returns.stores (hr _) _).after (.back ?_)
    have htwice : (h.setTasks i (rest ++ ts)).setTasks i ts = h.setTasks i ts := by
      simp [Heap.setTasks]
    rw [htwice, Nat.add_assoc, Nat.add_comm 1] at hs
    exact hs

/-! ## Two properties -/

/-- What one handler hears of the property, once it has changed, is left on the queue, to be written into
another one; or else nobody hears of it. -/
structure Heap.Queues (K : Client F C S) (h : Heap F C) (i : SchedulerId) (watched : Bool) (o : ObjectId)
    (p : String) (o' : ObjectId) (p' : String) (map : Value → Value) : Prop where
  exist : o < h.objects.size
  before : h.handlersFor o .before p = []
  heard : watched = true → ∃ x, h.handlersFor o .after p = [x] ∧ x.reportsOwner = false ∧
    x.observer.Queues K h i o' p' map
  unheard : watched = false → h.handlersFor o .after p = []

namespace Heap.Queues

variable {watched : Bool}

theorem setTasks (hq : h.Queues K i watched o p o' p' map) (ts : List (Task F C)) :
    (h.setTasks i ts).Queues K i watched o p o' p' map := by
  refine ⟨hq.exist, hq.before, fun hw => ?_, hq.unheard⟩
  obtain ⟨x, hx, hr, hobs⟩ := hq.heard hw
  exact ⟨x, hx, hr, hobs.congr (.setTasks h i ts)⟩

/-- A change of the property leaves a task. -/
theorem stores_set (hq : h.Queues K i watched o p o' p' map) (hw : watched = true)
    (ht : h.tasks? i = some ts) {v : Value} (hn : (h.get o p).eqv v = false) (fs : List (Frame F C)) :
    ∃ task, task.Writes K h o' p' (map v) ∧ Stores K ⟨.run (.set o p v), fs, h, k⟩ [(o, p)]
      ⟨.pass (.flag true), fs, (h.put o p v).setTasks i (ts ++ [task]), k⟩ := by
  obtain ⟨x, hx, hr, hobs⟩ := hq.heard hw
  obtain ⟨task, hwrites, hs⟩ := (hobs.congr (.put h o p v)).stores (k := k) ht v
    (.notifying x [] o v :: .changed o (h.get o p) v :: fs)
  have hrun := (stores_set_heard hn hq.before hx hr).trans (hs.after (stores_told _ _))
  rw [List.append_nil] at hrun
  exact ⟨task, hwrites.congr (.of_eq rfl rfl rfl), hrun⟩

end Heap.Queues

/-- Two properties are carried to each other by way of the queue, each if it is watched. -/
structure Queued (K : Client F C S) (h : Heap F C) (k : S) (i : SchedulerId) (watched watched' : Bool)
    (o : ObjectId) (p : String) (o' : ObjectId) (p' : String) (map map' : Value → Value) : Prop where
  there : h.Queues K i watched o p o' p' map
  back : h.Queues K i watched' o' p' o p map'
  ne : o ≠ o'
  held : Node.object o ∈ K.refs k
  held' : Node.object o' ∈ K.refs k

namespace Queued

variable {watched watched' : Bool}

theorem setTasks (q : Queued K h k i watched watched' o p o' p' map map') (ts : List (Task F C)) :
    Queued K (h.setTasks i ts) k i watched watched' o p o' p' map map' :=
  ⟨q.there.setTasks ts, q.back.setTasks ts, q.ne, q.held, q.held'⟩

/-- The value is written into the other property, and is brought back to be written here. -/
theorem drain_back (q : Queued K h k i watched watched' o p o' p' map map')
    (ht : h.tasks? i = some [task]) (hw : task.Writes K h o' p' (map (h.get o p)))
    (hwatched : watched' = true) (hn : (h.get o' p').eqv (map (h.get o p)) = false) (n : Nat)
    (fs : List (Frame F C)) :
    ∃ task', Stores K ⟨.run (.drain i n), fs, h, k⟩ [(o', p')]
      ⟨.run (.set o p (map' (map (h.get o p)))), .writing o :: .draining i (n + 1) task' :: fs,
        (h.put o' p' (map (h.get o p))).setTasks i [], k⟩ := by
  obtain ⟨v, hv⟩ : ∃ v, v = map (h.get o p) := ⟨_, rfl⟩
  rw [← hv] at hw hn ⊢
  have hfirst := stores_drain_write ht hw q.held' n fs
  obtain ⟨task', hwrites, hset⟩ := (q.back.setTasks []).stores_set (k := k) hwatched (Heap.tasks?_setTasks_self ht []) hn
    (.writing o' :: .draining i n task :: fs)
  obtain ⟨h₁, hh₁⟩ : ∃ h₁, h₁ = ((h.setTasks i []).put o' p' v).setTasks i [task'] := ⟨_, rfl⟩
  have ht₁ : h₁.tasks? i = some [task'] := by
    rw [hh₁]
    exact Heap.tasks?_setTasks_self (Heap.tasks?_setTasks_self ht []) _
  have hsecond := stores_drain_write ht₁ (hwrites.congr (hh₁ ▸ .of_eq rfl rfl rfl)) q.held (n + 1) fs
  have hlast : h₁.setTasks i [] = (h.put o' p' v).setTasks i [] := by
    rw [hh₁]
    simp [Heap.setTasks, Heap.put]
  rw [hlast] at hsecond
  rw [List.nil_append, ← hh₁] at hset
  have hrun := hfirst.after (hset.trans ((stores_drain_next _ n fs _).after hsecond))
  exact ⟨task', hrun⟩

/-- Only the other property changes, if it is not watched, or holds what this one is mapped to, or if this
one holds what it is mapped to and back. -/
theorem drain_quiet (q : Queued K h k i watched watched' o p o' p' map map')
    (ht : h.tasks? i = some [task]) (hw : task.Writes K h o' p' (map (h.get o p)))
    (hc : watched' = false ∨ (h.get o' p').eqv (map (h.get o p)) = true ∨
      (h.get o p).eqv (map' (map (h.get o p))) = true) (n : Nat) (fs : List (Frame F C)) :
    ∃ log m h', Stores K ⟨.run (.drain i n), fs, h, k⟩ log ⟨.pass (.count m), fs, h', k⟩ ∧
      ∀ a r, ¬ (a = o' ∧ r = p') → h'.get a r = h.get a r := by
  have hput : ∀ a r, ¬ (a = o' ∧ r = p') → (h.put o' p' (map (h.get o p))).get a r = h.get a r :=
    fun a r hne => by rw [Heap.get_put _ _ _ _ _ _ q.back.exist, if_neg hne]
  have hfirst := stores_drain_write ht hw q.held' n fs
  have hnil := Heap.tasks?_setTasks_self ht []
  cases hsame : (h.get o' p').eqv (map (h.get o p)) with
  | true =>
    -- the other property holds the value already
    have hset : Stores K ⟨_, .writing o' :: .draining i n task :: fs, _⟩ [] _ :=
      stores_set_equal (K := K) (h := h.setTasks i []) (k := k) hsame
    exact ⟨_, _, _, hfirst.after (hset.after ((stores_drain_next _ n fs _).after
      (stores_drain_nil hnil _ fs))), fun _ _ _ => rfl⟩
  | false =>
    cases hwatched : watched' with
    | false =>
      -- nobody hears of the write
      have hset : Stores K ⟨_, .writing o' :: .draining i n task :: fs, _⟩ _ _ :=
        stores_set_unheard (K := K) (h := h.setTasks i []) (k := k) hsame q.back.before
          (q.back.unheard hwatched)
      exact ⟨_, _, _, hfirst.after (hset.trans ((stores_drain_next _ n fs _).after
        (stores_drain_nil (h := (h.setTasks i []).put o' p' _) hnil _ fs))), hput⟩
    | true =>
      -- what is brought back equals what is here
      have hequal : (h.get o p).eqv (map' (map (h.get o p))) = true := by
        simpa [hwatched, hsame] using hc
      obtain ⟨task', hback⟩ := q.drain_back ht hw hwatched hsame n fs
      have hget : ((h.put o' p' (map (h.get o p))).setTasks i []).get o p = h.get o p :=
        hput o p fun he => q.ne he.1
      rw [← hget] at hequal
      have hset : Stores K ⟨_, .writing o :: .draining i (n + 1) task' :: fs, _⟩ [] _ :=
        stores_set_equal (K := K) (k := k) hequal
      rw [hget] at hset
      exact ⟨_, _, _, hback.trans (hset.after ((stores_drain_next _ (n + 1) fs _).after
        (stores_drain_nil (h := (h.put o' p' _).setTasks i []) hnil _ fs))), hput⟩

/-- Otherwise this one is given another value. -/
theorem drain_echo (q : Queued K h k i watched watched' o p o' p' map map')
    (ht : h.tasks? i = some [task]) (hw : task.Writes K h o' p' (map (h.get o p)))
    (hwatched : watched' = true) (hn : (h.get o' p').eqv (map (h.get o p)) = false)
    (he : (h.get o p).eqv (map' (map (h.get o p))) = false) (n : Nat) (fs : List (Frame F C)) :
    ∃ gs h', Stores K ⟨.run (.drain i n), fs, h, k⟩ [(o', p')]
        ⟨.run (.set o p (map' (map (h.get o p)))), gs, h', k⟩ ∧
      (h'.get o p).eqv (map' (map (h.get o p))) = false := by
  obtain ⟨task', hback⟩ := q.drain_back ht hw hwatched hn n fs
  refine ⟨_, _, hback, ?_⟩
  have hget : ((h.put o' p' (map (h.get o p))).setTasks i []).get o p = h.get o p := by
    refine (Heap.get_put h o' o p' p _ q.back.exist).trans ?_
    exact if_neg fun he => q.ne he.1
  rw [hget]
  exact he

end Queued

end DataBinding
