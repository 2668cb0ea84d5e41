import DataBinding.Proofs.Heap.Rosters
import DataBinding.Proofs.Supply.Needs
import DataBinding.Proofs.TwoWay.NoEcho
/-!
# Subscribing where nobody hears of it

The pipeline of a path yields one value at once, and registers with nothing but objects that properties lead to
from its root. So a value that is passed on to the other side of a binding is written there and no more happens,
where nobody has registered with the objects that properties lead to from the other root
(`Stream.Carried.goes_write`); and the value that is read back is left out (`Stream.Carried.goes_skip`). Both
subscriptions come to an end.
-/

namespace DataBinding

variable {F C S : Type}

/-! ## Ways -/

namespace State

/-- The state leads to another one. -/
def Goes (K : Client F C S) (s e : State F C S) : Prop := ∃ l, Leads K [] s l e

namespace Goes

variable {K : Client F C S} {s s' e : State F C S}

theorem refl (s : State F C S) : Goes K s s := ⟨[], .here⟩

theorem trans (h : Goes K s s') (h' : Goes K s' e) : Goes K s e := by
  obtain ⟨l, hl⟩ := h
  obtain ⟨l', hl'⟩ := h'
  exact ⟨l ++ l', hl.trans hl'⟩

theorem go (hs : ¬ s.control.IsAnswer) (h : Goes K (s.step K) e) : Goes K s e := by
  obtain ⟨l, hl⟩ := h
  exact ⟨s :: l, .go hs hl⟩

theorem back {f : Frame F C} {fs : List (Frame F C)} {signal : Signal C} {w : World F C S}
    (h : Goes K (stepFrame ⟨.pass signal, fs, w⟩ signal f) e) : Goes K ⟨.pass signal, f :: fs, w⟩ e := by
  obtain ⟨l, hl⟩ := h
  exact ⟨_ :: l, .step (fun _ => List.cons_ne_nil _ _) hl⟩

theorem of_logs {α : Type} {read : State F C S → Option α} {log : List α} (h : Logs K read s log e) :
    Goes K s e := by
  obtain ⟨l, hl, -⟩ := h
  exact ⟨l, hl⟩

theorem of_passesOn {base : List (Frame F C)} (h : PassesOn K base s e) (hs : base <:+ s.frames) : Goes K s e := by
  obtain ⟨l, hl, -⟩ := h.beneath List.nil_suffix hs
  exact ⟨l, hl⟩

end Goes

end State

open State

/-! ## What is there -/

/-- All objects that the value refers to are among the first `n`. -/
def Value.Within (n : Nat) (v : Value) : Prop := ∀ o, Node.object o ∈ v.refs → o < n

theorem Value.within_object {n : Nat} {o : ObjectId} : (Value.object o).Within n ↔ o < n := by
  simp [Within, Value.refs]

namespace Heap

variable {g h h' : Heap F C}

/-- All objects that properties refer to are there. -/
def Whole (h : Heap F C) : Prop := ∀ o p, (h.get o p).Within h.objects.size

theorem Whole.closed (hw : h.Whole) : h.Closed := by
  intro o p b hb
  have hin := hw o p
  rw [hb] at hin
  exact Value.within_object.1 hin

theorem Agrees.whole (ha : h.Agrees h') (hw : h.Whole) : h'.Whole := by
  intro o p
  rw [ha.get, ha.size]
  exact hw o p

theorem Whole.within_readFrom (hw : h.Whole) {v : Value} (hv : v.Within h.objects.size) (l : List Segment) :
    (h.readFrom v l).Within h.objects.size :=
  readFrom_keeps (by simp [Value.Within, Value.refs]) (fun o p _ => hw o p) hv l

end Heap

/-! ## On the way to a write -/

/-- The function computes a value and changes nothing, and what the value refers to is there. -/
def Client.Computes (K : Client F C S) (n : Nat) (f : F) : Prop :=
  ∃ map : Value → Value, (∀ v w, K.apply f v w = (map v, w)) ∧ ∀ v, v.Within n → (map v).Within n

/-- The stream passed through functions, schedulers and publications. -/
inductive Stream.Carried (K : Client F C S) (n : Nat) (changes : Option SubjectId) (x : Stream F) :
    Stream F → Prop
  | refl : Carried K n changes x x
  | apply {z : Stream F} {f : F} : K.Computes n f → Carried K n changes x z →
      Carried K n changes x (.map z (.apply f))
  | relocate {z : Stream F} (i : SchedulerId) : Carried K n changes x z → Carried K n changes x (.relocate z i)
  | publish {z : Stream F} {j : SubjectId} (side : Side) : changes = some j → Carried K n changes x z →
      Carried K n changes x (.map z (.publish j side))

/-- Objects are as many, and what is referred to is among them; with those that properties lead to from this
one nobody has registered, and nobody listens to the changes. -/
structure Heap.Rested (target : ObjectId) (changes : Option SubjectId) (n : Nat) (h : Heap F C) : Prop where
  size : h.objects.size = n
  whole : h.Whole
  quiet : ∀ o, h.Reaches target o → h.handlers o = []
  unheard : ∀ j, changes = some j → h.observers j = []

/-- The gates that are open stay open. -/
def Heap.Gated (h h' : Heap F C) : Prop := ∀ i, h.gateOpen i = true → h'.gateOpen i = true

variable {K : Client F C S} {k : S} {g h : Heap F C} {n : Nat} {root target : ObjectId}
  {taps : List (ObjectId × String)} {changes : Option SubjectId} {v : Value} {x z : Stream F}

/-- Where nobody hears of it, the observer deals with a value: no more happens than that something is
assigned. -/
def Observer.Deals (K : Client F C S) (k : S) (target : ObjectId) (changes : Option SubjectId) (n : Nat)
    (g : Heap F C) (y : Observer F C) : Prop :=
  ∀ (h : Heap F C) (v : Value) (fs : List (Frame F C)), g.Gated h → h.Rested target changes n →
    v.Within n → ∃ signal h', h'.objects.size = n ∧ h'.Whole ∧
      Goes K ⟨.run (.deliver y v), fs, h, k⟩ ⟨.pass signal, fs, h', k⟩

namespace Observer.Deals

/-- What is assigned through a path belongs to an object that properties lead to. -/
theorem reaches_follow {o b : ObjectId} {l : List Segment} (hl : h.follow o l = some b) : h.Reaches o b := by
  induction l generalizing o with
  | nil =>
    cases hl
    exact .refl
  | cons s rest ih =>
    unfold Heap.follow at hl
    split at hl
    · next next hp => exact Relation.ReflTransGen.head ⟨_, hp⟩ (ih hl)
    · cases hl

theorem write (ht : target < n) (hk : Node.object target ∈ K.refs k) (path : Path) :
    (Observer.write target path : Observer F C).Deals K k target changes n g := by
  intro h v fs _ hh hv
  have hquiet : ∀ o p, h.target? target path = some (o, p) → ∀ t, h.handlersFor o t p = [] := by
    intro o p he t
    have hreach : h.Reaches target o := by
      unfold Heap.target? at he
      split at he
      · cases he
      · obtain ⟨b, hb, heq⟩ := Option.map_eq_some_iff.1 he
        cases heq
        exact reaches_follow hb
    exact List.sublist_nil.1 (hh.quiet o hreach ▸ h.handlersFor_sublist o p t)
  obtain ⟨log, h', ha, hl⟩ := logs_write hh.whole.closed (hh.size ▸ ht) hk hquiet v fs
  refine ⟨.done, h', ha.size.trans hh.size, ?_, .of_logs hl⟩
  intro o p
  rw [ha.size]
  obtain he | he := ha.get o p
  · rw [he]
    exact hh.whole o p
  · rw [he, hh.size]
    exact hv

variable {y : Observer F C} (hy : y.Deals K k target changes n g)

include hy

theorem apply {f : F} (hf : K.Computes n f) : (Observer.map (.apply f) y).Deals K k target changes n g := by
  obtain ⟨map, happly, hmap⟩ := hf
  intro h v fs hg hh hv
  obtain ⟨signal, h', hs, hw, hl⟩ := hy h (map v) fs hg hh (hmap v hv)
  refine ⟨signal, h', hs, hw, .go id ?_⟩
  simp only [step, stepCommand, stepDeliver, stepMap, happly]
  exact hl

theorem publish {j : SubjectId} (hj : changes = some j) (side : Side) :
    (Observer.map (.publish j side) y).Deals K k target changes n g := by
  intro h v fs hg hh hv
  obtain ⟨signal, h', hs, hw, hl⟩ := hy h v fs hg hh hv
  refine ⟨signal, h', hs, hw, .go id (.go id ?_)⟩
  simp only [step, stepCommand, stepDeliver, stepMap, under, World.withHeap, hh.unheard j hj, stepPublish]
  exact .back hl

/-- A value is delivered at once, or kept for later. -/
theorem relocate (i : SchedulerId) :
    (Observer.relocate g.gates.size i y).Deals K k target changes n g.newGate.2 := by
  intro h v fs hg hh hv
  have hopen : h.gateOpen g.gates.size = true := hg _ (by rw [Heap.gateOpen_newGate, if_pos rfl])
  have hgated : g.Gated h := by
    intro j hj
    refine hg j ?_
    rw [Heap.gateOpen_newGate, hj, ite_self]
  cases htasks : h.tasks? i with
  | some tasks =>
    refine ⟨.done, h.setTasks i (tasks ++ [.deliver g.gates.size y v]), hh.size, ?_, .go id (.go id ?_)⟩
    · exact Heap.Agrees.whole (.of_objects rfl) hh.whole
    · simp only [step, stepCommand, stepDeliver, goOn, World.withHeap, stepSchedule, htasks]
      exact .refl _
  | none =>
    obtain ⟨signal, h', hs, hw, hl⟩ := hy h v fs hgated hh hv
    refine ⟨signal, h', hs, hw, .go id (.go id ?_)⟩
    simp only [step, stepCommand, stepDeliver, goOn, World.withHeap, stepSchedule, htasks, stepTask, hopen,
      if_true]
    exact hl

end Observer.Deals

/-- The frames pass a subscription on, as another one. -/
def Frame.PassesOn (K : Client F C S) (k : S) (gs : List (Frame F C)) : Prop :=
  ∀ (t : Teardown C) (fs : List (Frame F C)) (h : Heap F C), ∃ t',
    Goes K ⟨.pass (.subscription t), gs ++ fs, h, k⟩ ⟨.pass (.subscription t'), fs, h, k⟩

namespace Stream.Carried

/-- To subscribe to what a stream is carried to is to subscribe to the stream, behind the operators. -/
theorem goes (hc : x.Carried K n changes z) (target : ObjectId) (h : Heap F C) (y : Observer F C) (fs : List (Frame F C)) :
    ∃ gates y' gs, h.Gated { h with gates := gates } ∧ Frame.PassesOn K k gs ∧
      (y.Deals K k target changes n h → y'.Deals K k target changes n { h with gates := gates }) ∧
      Goes K ⟨.run (.subscribe z y), fs, h, k⟩
        ⟨.run (.subscribe x y'), gs ++ fs, { h with gates := gates }, k⟩ := by
  induction hc generalizing h y fs with
  | refl => exact ⟨h.gates, y, [], fun _ hi => hi, fun t fs h => ⟨t, .refl _⟩, id, .refl _⟩
  | apply hf _ ih =>
    obtain ⟨gates, y', gs, hg, hb, hd, hl⟩ := ih h (.map (.apply _) y) fs
    exact ⟨gates, y', gs, hg, hb, fun hy => hd (hy.apply hf), .go id hl⟩
  | publish side hj _ ih =>
    obtain ⟨gates, y', gs, hg, hb, hd, hl⟩ := ih h (.map (.publish _ side) y) fs
    exact ⟨gates, y', gs, hg, hb, fun hy => hd (hy.publish hj side), .go id hl⟩
  | relocate i _ ih =>
    obtain ⟨gates, y', gs, hg, hb, hd, hl⟩ := ih h.newGate.2 (.relocate h.gates.size i y)
      (.relocating h.gates.size :: fs)
    refine ⟨gates, y', gs ++ [.relocating h.gates.size], ?_, ?_, fun hy => hd (hy.relocate i), ?_⟩
    · intro j hj
      refine hg j ?_
      rw [Heap.gateOpen_newGate, hj, ite_self]
    · intro t fs h'
      obtain ⟨t', ht⟩ := hb t (.relocating h.gates.size :: fs) h'
      refine ⟨.relocate h.gates.size t', ?_⟩
      rw [List.append_assoc]
      exact ht.trans (.back (.refl _))
    · rw [List.append_assoc]
      exact .go id hl

/-- What a stream tells is written on the other side, where nobody hears of it. -/
theorem goes_write (hc : x.Carried K n changes z) (hx : x.Yields K k h root taps v)
    (hr : Node.object root ∈ K.refs k) (hh : h.Rested target changes n)
    (hnear : ∀ e ∈ taps, ¬ h.Reaches target e.1) (hv : v.Within n) (ht : target < n) (hk : Node.object target ∈ K.refs k) (path : Path) (fs : List (Frame F C)) :
    ∃ t h', h'.objects.size = n ∧ h'.Whole ∧
      Goes K ⟨.run (.subscribe z (.write target path)), fs, h, k⟩ ⟨.pass (.subscription t), fs, h', k⟩ := by
  obtain ⟨gates, y', gs, hg, hb, hd, hl⟩ := hc.goes (k := k) target h (.write target path) fs
  obtain ⟨h₁, gs₁, htaps, hb₁, hp₁⟩ := hx { h with gates := gates } y' (gs ++ fs) (.of_objects rfl) (.of_kept hr)
  have hrested : h₁.Rested target changes n := by
    refine ⟨htaps.agrees.size.trans hh.size, htaps.agrees.whole hh.whole, fun o ho => ?_, fun j hj => ?_⟩
    · have ho : h.Reaches target o := (htaps.agrees.reaches ..).1 ho
      rw [htaps.handlers_of_not_mem fun p hp => hnear _ hp ho]
      exact hh.quiet o ho
    · have hobservers : h₁.observers j = h.observers j := by simp only [Heap.observers, htaps.subjects]
      rw [hobservers]
      exact hh.unheard j hj
  have hgated : Heap.Gated { h with gates := gates } h₁ := by
    intro i hi
    simpa only [Heap.gateOpen, htaps.gates] using hi
  obtain ⟨signal, h₂, hs, hw, hl₂⟩ := hd (.write ht hk path) h₁ v (gs₁ ++ (gs ++ fs)) hgated hrested hv
  obtain ⟨t, h₃, ha, hp₃⟩ := hb₁.handsBack (K := K) (k := k) signal (gs ++ fs) h₂
  obtain ⟨t', hl₄⟩ := hb t fs h₃
  exact ⟨t', h₃, ha.size.trans hs, ha.whole hw, hl.trans ((Goes.of_passesOn hp₁ (List.suffix_refl _)).trans
    (hl₂.trans ((Goes.of_passesOn hp₃ (List.suffix_append ..)).trans hl₄)))⟩

/-- What a stream tells is left out. -/
theorem goes_skip (hc : (Stream.skip x 1).Carried K n changes z) (hx : x.Yields K k h root taps v)
    (hr : Node.object root ∈ K.refs k) (y : Observer F C) (fs : List (Frame F C)) :
    ∃ t h', Goes K ⟨.run (.subscribe z y), fs, h, k⟩ ⟨.pass (.subscription t), fs, h', k⟩ := by
  obtain ⟨gates, y', gs, -, hb, -, hl⟩ := hc.goes (k := k) 0 h y fs
  obtain ⟨h₁, gs₁, htaps, hb₁, hp₁⟩ := hx (Heap.newCounter { h with gates := gates } 1).2
    (.skip h.counters.size y') (gs ++ fs) (.of_objects rfl) (.of_kept hr)
  have hone : h₁.counter h.counters.size = 1 := by
    rw [Heap.counter, htaps.counters]
    simp [Heap.newCounter]
  obtain ⟨t, h₂, -, hp₂⟩ := hb₁.handsBack (K := K) (k := k) .done (gs ++ fs) (h₁.setCounter h.counters.size 0)
  obtain ⟨t', hl₃⟩ := hb t fs h₂
  refine ⟨t', h₂, hl.trans (.go id ((Goes.of_passesOn hp₁ (List.suffix_refl _)).trans (.go id ?_)))⟩
  simp only [step, stepCommand, stepDeliver, hone]
  exact (Goes.of_passesOn hp₂ (List.suffix_append ..)).trans hl₃

end Stream.Carried

end DataBinding
