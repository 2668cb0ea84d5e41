import Mathlib.Data.List.Destutter
import DataBinding.Live.Observation
import DataBinding.Proofs.Course.Lane
/-!
# Linear stages

A linear stage passes each value on at once, changed perhaps, or not at all (`Stage.Linear`), and so makes one list
of deliveries into another (`Stage.onList`): it maps, leaves out repetitions or leaves out the first ones.
Each stage is a transducer whose state is in a new cell, if it has any (`Stage.through`).
-/

namespace DataBinding

variable {F C S : Type} {K : Client F C S} {code : C} {root : ObjectId} {a : Arguments F} {g : Slot → Value → Value}

namespace Stage

/-- The stage passes each value on at once, changed perhaps, or not at all. -/
def Linear : Stage → Prop
  | .select _ | .convert _ | .wrap _ | .distinct | .skip _ | .emptyIfNull => True
  | _ => False

/-- The delivery with a new empty stream in the place of a value that is no stream. -/
def orEmpty (d : Delivery F) : Delivery F :=
  match d.1 with
  | .stream _ => d
  | _ => (.stream d.2.size, d.2.push .empty)

/-- What a linear stage makes of a list of deliveries, for functions that compute `g`. -/
def onList (root : ObjectId) (g : Slot → Value → Value) : Stage → List (Delivery F) → List (Delivery F)
  | .select slot | .convert slot => List.map fun d => (g slot d.1, d.2)
  | .wrap p => List.map fun d => (.change root p d.1, d.2)
  | .emptyIfNull => List.map orEmpty
  | .distinct => List.destutter fun d d' => d.1.eqv d'.1 = false
  | .skip n => List.drop n.toNat
  | _ => id

@[simp] theorem onList_nil (root : ObjectId) (g : Slot → Value → Value) (st : Stage) :
    st.onList root g ([] : List (Delivery F)) = [] := by
  cases st <;> simp [onList]

end Stage

/-- The supplied functions compute `g`, and do nothing else. -/
def Arguments.Compute (a : Arguments F) (K : Client F C S) (g : Slot → Value → Value) : Prop :=
  ∀ slot f, a.slot? slot = some f → ∀ v w, K.apply f v w = (g slot v, w)

/-! ## Transducers -/

namespace Transducer

/-- Leaves out as many deliveries as its state says. -/
def skipping : Transducer Nat (Delivery F) (Delivery F) where
  next n _ := n - 1
  emit n d := if n = 0 then some d else none

/-- Remembers the value that it has let through last, and leaves out values equal to it. -/
def distinct : Transducer (Option Value) (Delivery F) (Delivery F) where
  next m d := if m.any (·.eqv d.1) then m else some d.1
  emit m d := if m.any (·.eqv d.1) then none else some d

variable (l : List (Delivery F))

theorem run_skipping (n : Nat) : skipping.run n l = l.drop n := by
  induction l generalizing n with
  | nil => simp [run]
  | cons d l ih =>
    cases n with
    | zero => exact congrArg (d :: ·) (ih 0)
    | succ n => exact ih n

theorem cons_run_distinct (d : Delivery F) :
    d :: distinct.run (some d.1) l = l.destutter' (fun d d' => d.1.eqv d'.1 = false) d := by
  induction l generalizing d with
  | nil => rfl
  | cons d' l ih =>
    by_cases he : d.1.eqv d'.1 = true
    · rw [List.destutter'_cons_neg _ (by simp [he]), ← ih]
      simp [run, distinct, he]
    · rw [List.destutter'_cons_pos _ (by simpa using he), ← ih]
      simp [run, distinct, he]

theorem run_distinct : distinct.run none l = l.destutter fun d d' => d.1.eqv d'.1 = false := by
  cases l with
  | nil => rfl
  | cons d l =>
    rw [List.destutter_cons', ← cons_run_distinct]
    simp [run, distinct]

end Transducer

/-! ## One stage -/

section Through

variable [DecidableEq F] [DecidableEq C] {s : State F C S} {x y : Stream F} {z : Observer F C}
  {Ok : State F C S → Prop}

/-- What comes through an operator from the time it is subscribed to is what its transducer makes of what it
receives. -/
theorem State.Unheard.through {A : Type} (t : Transducer A (Delivery F) (Delivery F)) {σ : Heap F C → A}
    (z' : Observer F C) (h : Heap F C) (hu : s.Unheard code) (hz : z.Lane code s.world.heap.There)
    (hcells : s.world.heap.OnlyCells h) (hthere : ∀ p, s.world.heap.There p → h.There p)
    (hz' : z'.Prompt ∧ z'.next? = some z)
    (hown : ∀ p, z'.spot? = some p → p.IsCell ∧ ¬ s.world.heap.There p ∧ h.There p)
    (hσ : ∀ h h' : Heap F C, (∀ p, z'.spot? = some p → h.Same h' p) → σ h' = σ h)
    (hturn : ∀ (s : State F C S) v, s.control = .run (.deliver z' v) → Ok s →
      (∀ p, z'.spot? = some p → s.world.heap.There p) →
      (s.step K).delivery? z = t.emit (σ s.world.heap) (v, s.world.heap.streams) ∧
      σ (s.step K).world.heap = t.next (σ s.world.heap) (v, s.world.heap.streams))
    {l : List (State F C S)} {e : State F C S}
    (hc : State.Continues K code ⟨.run (.subscribe x z'), s.frames, h, s.world.client⟩ l e) (hok : ∀ x ∈ l, Ok x) :
    deliveries z (l ++ [e]) = t.run (σ h) (deliveries z' l) := by
  have hclear : z'.Clear (.into code z (· = z') z'.spot? fun _ _ => False) h.There := by
    cases z' <;> first | exact trivial | exact .inl rfl
  have hgiven : ∀ y, y = z' → y.Prompt ∧ y.next? = some z := fun y hy => hy ▸ hz'
  refine hu.transduces t σ (State.delivery? z') (State.delivery? z) hz hcells hthere hgiven hown nofun (c := .subscribe x z') (.inl hclear) hσ
    (fun _ => State.delivery?_eq_none) ?_ ?_ hc hok
  · rintro s hn y v hs rfl
    rw [State.delivery?_self hs] at hn
    cases hn
  · rintro s ⟨v, xs⟩ hi hoks hp
    obtain ⟨hs, rfl⟩ := State.exists_of_delivery? hi
    exact hturn s v hs hoks hp

theorem State.Unheard.through_map {f : Mapping F} (into : Delivery F → Delivery F) (hu : s.Unheard code)
    (hz : z.Lane code s.world.heap.There) (hf : (Observer.map f z).Prompt)
    (hturn : ∀ (s : State F C S) v, s.control = .run (.deliver (.map f z) v) → Ok s →
      (s.step K).delivery? z = some (into (v, s.world.heap.streams)))
    {l : List (State F C S)} {e : State F C S}
    (hc : State.Continues K code ⟨.run (.subscribe x (.map f z)), s.frames, s.world⟩ l e) (hok : ∀ x ∈ l, Ok x) :
    deliveries z (l ++ [e]) = (deliveries (.map f z) l).map into := by
  rw [← Transducer.run_mapping]
  exact hu.through (.mapping into) (σ := fun _ => ()) _ _ hz ⟨rfl, rfl, rfl⟩ (fun _ => id) ⟨hf, rfl⟩ nofun
    (fun _ _ _ => rfl) (fun s v hs hoks _ => ⟨hturn s v hs hoks, rfl⟩) hc hok

end Through

/-- A linear stage has been subscribed to: what it leads on to is given what it makes of what it receives. -/
structure Stage.Opens [DecidableEq F] [DecidableEq C] (K : Client F C S) (code : C) (root : ObjectId)
    (g : Slot → Value → Value) (st : Stage) (s : State F C S) (x : Stream F) (z z' : Observer F C) (h : Heap F C) :
    Prop where
  step : s.step K = ⟨.run (.subscribe x z'), s.frames, h, s.world.client⟩
  cells : s.world.heap.OnlyCells h
  there : ∀ p, s.world.heap.There p → h.There p
  lane : z'.Lane code h.There
  delivers : ∀ {l e}, State.Continues K code ⟨.run (.subscribe x z'), s.frames, h, s.world.client⟩ l e →
    (∀ t ∈ l, t.alive K (.object root) = true) → deliveries z (l ++ [e]) = st.onList root g (deliveries z' l)

section Opens

variable [DecidableEq F] [DecidableEq C] {s : State F C S} {x y : Stream F} {z : Observer F C}

/-- A mapping has been subscribed to. -/
theorem Stage.opens_map {st : Stage} {f : Mapping F} (hu : s.Unheard code) (hz : z.Lane code s.world.heap.There)
    (hs : s.control = .run (.subscribe (.map x f) z)) (hf : (Observer.map f z).Lane code s.world.heap.There)
    (into : Delivery F → Delivery F) (hinto : ∀ l, st.onList root g l = l.map into)
    (hturn : ∀ (s : State F C S) v, s.control = .run (.deliver (.map f z) v) → s.alive K (.object root) = true →
      (s.step K).delivery? z = some (into (v, s.world.heap.streams))) :
    ∃ z' h, st.Opens K code root g s x z z' h := by
  obtain ⟨c, fs, w⟩ := s
  cases hs
  exact ⟨.map f z, w.heap, rfl, ⟨rfl, rfl, rfl⟩, fun _ => id, hf, fun hc hok => by
    rw [hinto]
    exact hu.through_map into hz hf.prompt hturn hc hok⟩

/-- The values left out are those equal to the one let through last; at first there is none. -/
theorem Stage.opens_distinct (hu : s.Unheard code) (hz : z.Lane code s.world.heap.There)
    (hs : s.control = .run (.subscribe (.distinct x) z)) : ∃ z' h, Stage.distinct.Opens K code root g s x z z' h := by
  obtain ⟨c, fs, w⟩ := s
  cases hs
  have hnew := (Heap.Uses.newMemory w.heap : Heap.Uses none _ _).there
  have hthere : w.heap.newMemory.2.There (.memory w.heap.memories.size) := by simp [Heap.There, Heap.newMemory]
  have hempty : w.heap.newMemory.2.memory w.heap.memories.size = none := by simp [Heap.memory, Heap.newMemory]
  refine ⟨.distinct w.heap.memories.size z, w.heap.newMemory.2, rfl, ⟨rfl, rfl, rfl⟩, hnew, ⟨hthere, hz.mono hnew⟩,
    fun {l e} hc hok => ?_⟩
  have hlog : deliveries z (l ++ [e]) = Transducer.distinct.run (w.heap.newMemory.2.memory w.heap.memories.size)
      (deliveries (.distinct w.heap.memories.size z) l) := by
    refine hu.through .distinct (σ := fun h => h.memory w.heap.memories.size) (.distinct _ z)
      w.heap.newMemory.2 hz ⟨rfl, rfl, rfl⟩ hnew ⟨trivial, rfl⟩ ?_ (fun h h' hsame => hsame _ rfl) ?_ hc hok
    · rintro p ⟨⟩
      exact ⟨trivial, Nat.lt_irrefl _, hthere⟩
    · intro s v hd _ hi
      obtain ⟨c, fs, w'⟩ := s
      cases hd
      have hi := hi _ rfl
      cases he : (w'.heap.memory w.heap.memories.size).any (·.eqv v) with
      | true =>
        rw [State.step_distinct_same he]
        exact ⟨by simp [Transducer.distinct, he, State.delivery?], by simp [Transducer.distinct, he]⟩
      | false =>
        rw [State.step_distinct_other he]
        have hset : (w'.heap.setMemory w.heap.memories.size v).memory w.heap.memories.size = some v := by
          simp [Heap.memory, Heap.setMemory, show _ < _ from hi]
        refine ⟨?_, by simpa [Transducer.distinct, he, World.withHeap] using hset⟩
        rw [State.delivery?_self rfl]
        simp [Transducer.distinct, he, World.withHeap, Heap.setMemory]
  rw [hlog, hempty, Transducer.run_distinct]
  rfl

/-- The first values are left out, as many as are still to be counted. -/
theorem Stage.opens_skip {n : UInt64} (hu : s.Unheard code) (hz : z.Lane code s.world.heap.There)
    (hs : s.control = .run (.subscribe (.skip x n.toNat) z)) :
    ∃ z' h, (Stage.skip n).Opens K code root g s x z z' h := by
  obtain ⟨c, fs, w⟩ := s
  cases hs
  have hnew := (Heap.Uses.newCounter w.heap n.toNat : Heap.Uses none _ _).there
  have hthere : (w.heap.newCounter n.toNat).2.There (.counter w.heap.counters.size) := by
    simp [Heap.There, Heap.newCounter]
  have hfull : (w.heap.newCounter n.toNat).2.counter w.heap.counters.size = n.toNat := by
    simp [Heap.counter, Heap.newCounter]
  refine ⟨.skip w.heap.counters.size z, (w.heap.newCounter n.toNat).2, rfl, ⟨rfl, rfl, rfl⟩, hnew,
    ⟨hthere, hz.mono hnew⟩, fun {l e} hc hok => ?_⟩
  have hlog : deliveries z (l ++ [e]) = Transducer.skipping.run ((w.heap.newCounter n.toNat).2.counter
      w.heap.counters.size) (deliveries (.skip w.heap.counters.size z) l) := by
    refine hu.through .skipping (σ := fun h => h.counter w.heap.counters.size) (.skip _ z)
      (w.heap.newCounter n.toNat).2 hz ⟨rfl, rfl, rfl⟩ hnew ⟨trivial, rfl⟩ ?_
      (fun h h' hsame => hsame _ rfl) ?_ hc hok
    · rintro p ⟨⟩
      exact ⟨trivial, Nat.lt_irrefl _, hthere⟩
    · intro s v hd _ hi
      obtain ⟨c, fs, w'⟩ := s
      cases hd
      have hi := hi _ rfl
      cases he : w'.heap.counter w.heap.counters.size with
      | zero =>
        rw [State.step_skip_zero he]
        refine ⟨?_, by simp [Transducer.skipping, he]⟩
        rw [State.delivery?_self rfl]
        simp [Transducer.skipping]
      | succ m =>
        rw [State.step_skip_succ he]
        have hset : (w'.heap.setCounter w.heap.counters.size m).counter w.heap.counters.size = m := by
          simp [Heap.counter, Heap.setCounter, show _ < _ from hi]
        exact ⟨by simp [Transducer.skipping, State.delivery?], by simpa [Transducer.skipping, World.withHeap] using hset⟩
  rw [hlog, hfull, Transducer.run_skipping]
  rfl

/-- Each linear stage can be subscribed to, and starts afresh. -/
theorem Stage.Linear.opens {st : Stage} (hl : st.Linear) (hg : a.Compute K g) (hy : st.applyTo root a x = .ok y)
    (hu : s.Unheard code) (hz : z.Lane code s.world.heap.There) (hs : s.control = .run (.subscribe y z)) :
    ∃ z' h, st.Opens K code root g s x z z' h := by
  have happly : ∀ slot, (st = .select slot ∨ st = .convert slot) → ∃ z' h, st.Opens K code root g s x z z' h := by
    intro slot hst
    obtain ⟨f, hf, rfl⟩ : ∃ f, a.slot? slot = some f ∧ y = .map x (.apply f) := by
      rcases hst with rfl | rfl <;>
      · simp only [applyTo, Arguments.function, bind, Except.bind] at hy
        cases hf : a.slot? slot with
        | none => simp [hf] at hy
        | some f =>
          simp only [hf] at hy
          exact ⟨f, rfl, (Except.ok.inj hy).symm⟩
    refine opens_map hu hz hs ⟨by simp, hz⟩ (fun d => (g slot d.1, d.2)) (by rcases hst with rfl | rfl <;> exact fun _ => rfl)
      fun s v hd _ => ?_
    obtain ⟨c, fs, w⟩ := s
    cases hd
    simp only [State.step, stepCommand, stepDeliver, stepMap, hg slot f hf]
    exact State.delivery?_self rfl
  cases st with
  | select slot => exact happly slot (.inl rfl)
  | convert slot => exact happly slot (.inr rfl)
  | wrap p =>
    cases hy
    refine opens_map hu hz hs ⟨by simp, hz⟩ (fun d => (.change root p d.1, d.2)) (fun _ => rfl) fun s v hd ha => ?_
    obtain ⟨c, fs, w⟩ := s
    cases hd
    rw [State.step_wrap ha]
    exact State.delivery?_self rfl
  | emptyIfNull =>
    cases hy
    refine opens_map hu hz hs ⟨by simp, hz⟩ orEmpty (fun _ => rfl) fun s v hd _ => ?_
    obtain ⟨c, fs, w⟩ := s
    cases hd
    cases v with
    | stream i => exact State.delivery?_self rfl
    | _ => exact State.delivery?_self rfl
  | distinct =>
    cases hy
    exact opens_distinct hu hz hs
  | skip n =>
    cases hy
    exact opens_skip hu hz hs
  | _ => exact hl.elim

end Opens

end DataBinding
