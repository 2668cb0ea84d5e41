import DataBinding.Proofs.Chain.Advance
import DataBinding.Proofs.Quiet.Onlookers
/-!
# A chain follows a value

What a chain is told at one segment it follows to the end of its path: each further link is watched on
the parent it has now, and the last operator is given what the path reads (`Chain.delivers`).
-/

namespace DataBinding

variable {F C S : Type}

namespace Chain

variable (c : Chain C) (seen : S → List Value)

/-- The last operator has been given a value: it equals the one remembered, or it is noted. -/
def Handed (u : Value) (w w' : World F C S) : Prop :=
  ((c.remembered w.heap).any (·.eqv u) = true ∧ seen w'.client = seen w.client ∧
      c.remembered w'.heap = c.remembered w.heap) ∨
    ((c.remembered w.heap).any (·.eqv u) = false ∧ seen w'.client = seen w.client ++ [u] ∧
      c.remembered w'.heap = c.memory.map fun _ => u)

/-- The links to do have been followed from a value, in the first world, to the end, in the second. -/
structure Followed (Other : Observer F C → Prop) (pending : List (ObjectId × Nat)) (todo : List Link)
    (regs pre : List (Registration F C)) (v : Value) (w w' : World F C S) : Prop where
  live : c.Live pending w'.heap [] (pre ++ regs) (w.heap.readFrom v (todo.map Link.segment))
  tidy : c.Tidy Other w'.heap
  grows : w.heap.Grows w'.heap
  get : ∀ o p, w'.heap.get o p = w.heap.get o p
  told : ∀ r ∈ pre, r.told = r.held w'.heap
  handed : c.Handed seen (w.heap.readFrom v (todo.map Link.segment)) w w'

/-- Besides, the switches of the links to do have gone on. -/
structure Cascaded (Other : Observer F C → Prop) (pending : List (ObjectId × Nat)) (todo : List Link)
    (regs pre : List (Registration F C)) (v : Value) (w w' : World F C S) : Prop
    extends c.Followed seen Other pending todo regs pre v w w' where
  onward : c.Onward w.heap w'.heap
  later : ∀ l ∈ todo, w.heap.generation l < w'.heap.generation l

variable {c} {K : Client F C S} {seen} {Other : Observer F C → Prop}
  {pending : List (ObjectId × Nat)} {todo : List Link} {regs : List (Registration F C)} {v : Value}

open State

/-- Where no values are left out, each one is noted. -/
theorem Handed.seen_eq {u : Value} {w w' : World F C S} (h : c.Handed seen u w w')
    (hm : c.memory = none) : seen w'.client = seen w.client ++ [u] := by
  obtain ⟨hany, -⟩ | ⟨-, hs, -⟩ := h
  · simp [remembered, hm] at hany
  · exact hs

/-- The last operator is given a value. -/
theorem deliver_last (hK : K.Notes seen c.code fun v => [v]) {w : World F C S}
    (hl : c.Live pending w.heap [] regs v) (ht : c.Tidy Other w.heap) (base : List (Frame F C)) :
    Completes K base ⟨.run (.deliver c.last v), base, w⟩
      fun _ w' => c.Cascaded seen Other pending [] regs [] v w w' := by
  have hcells : ∀ w' : World F C S, w'.heap.objects = w.heap.objects →
      w'.heap.switches = w.heap.switches → w.heap.memories.size ≤ w'.heap.memories.size →
      c.Handed seen v w w' → c.Cascaded seen Other pending [] regs [] v w w' :=
    fun w' ho hs hm hh => {
      live := hl.of_cells ho hs hm
      tidy := ht.of_cells ho hs hm
      grows := .of_cells ho hs hm
      get := fun o p => by simp [Heap.get, ho]
      told := by simp
      later := by simp
      onward := .of_cells ho hs hm
      handed := hh }
  unfold last
  cases hm : c.memory with
  | none =>
    obtain ⟨w', hr, hh, hw⟩ := hK v w
    refine .step id (.resume hr (hcells w' (by rw [hh]) (by rw [hh]) (Nat.le_of_eq (by rw [hh]))
      (.inr ⟨?_, hw, ?_⟩))) <;> simp [remembered, hm]
  | some m =>
    have hsize := hl.memory m hm
    refine .step id ?_
    simp only [State.step, stepCommand, stepDeliver]
    split
    · next ha =>
      refine .pass (hcells w rfl rfl (Nat.le_refl _) (.inl ⟨?_, rfl, rfl⟩))
      simpa [remembered, hm] using ha
    · next ha =>
      obtain ⟨w', hr, hh, hw⟩ := hK v (w.withHeap (w.heap.setMemory m v))
      refine .step id (.resume hr (hcells w' (by rw [hh]; rfl) (by rw [hh]; rfl)
        (by rw [hh]; simp [World.withHeap, Heap.setMemory]) (.inr ⟨?_, hw, ?_⟩)))
      · simpa [remembered, hm] using ha
      · simp [remembered, hm, hh, World.withHeap, Heap.memory, Heap.setMemory, hsize]

/-- What the chain follows the links to do from, wherever it does. -/
def Delivers (c : Chain C) (K : Client F C S) (seen : S → List Value)
    (Other : Observer F C → Prop) (todo : List Link) : Prop :=
  ∀ pending regs v base (w : World F C S), c.Live pending w.heap todo regs v →
    c.Tidy Other w.heap → (∀ o, v = .object o → KeptObject K base w.client w.heap o) →
    Completes K base ⟨.run (.deliver (c.observer todo) v), base, w⟩
      fun _ w' => ∃ pre, c.Cascaded seen Other pending todo regs pre v w w'

/-- One link and then the links after it. The link has the new registrations, if any. -/
theorem Cascaded.link {l : Link} {w w₁ : World F C S} {h : Heap F C} {t : Teardown C} {u : Value}
    {pending' : List (ObjectId × Nat)} {pre new : List (Registration F C)}
    (hp : l.segment.property ≠ "") (hl : c.Live pending w.heap (l :: todo) regs v)
    (hn : w.heap.Numbered)
    (ha : c.Advanced Other l todo v pending regs w.heap t u pending' new h)
    (hf : c.Cascaded seen Other pending' todo (new ++ regs) pre u ⟨h, w.client⟩ w₁) :
    c.Cascaded seen Other pending (l :: todo) regs (pre ++ new) v w
      ⟨w₁.heap.entered l.switch (h.generation l) t, w₁.client⟩ := by
  have honward := ha.onward_entered hl hn hf.onward
  have hread := ha.readFrom hp
  have hheld : ∀ r : Registration F C,
      r.held (w₁.heap.entered l.switch (h.generation l) t) = r.held w₁.heap :=
    fun r => Heap.get_entered ..
  refine ⟨⟨?_, ha.tidy_entered hl hf.onward hf.tidy hf.live, honward.toGrows, fun o p => ?_,
    fun r hr => ?_, ?_⟩, honward, fun e he => ?_⟩
  · rw [List.append_assoc, hread]
    exact ha.live_entered hl hf.onward hf.tidy.numbered hf.live
  · rw [Heap.get_entered, hf.get, ha.get]
  · rw [hheld]
    rcases List.mem_append.1 hr with hr | hr
    · exact hf.told r hr
    -- the new registration, if any, holds what has just been read
    obtain ⟨-, -, -, rfl, -⟩ | ⟨o, n, -, -, rfl, rfl, -⟩ := ha.parent
    · cases hr
    · rw [List.mem_singleton.1 hr, Registration.held, hf.get, ha.get]
      rfl
  · have hr : c.remembered h = c.remembered w.heap := by
      unfold Chain.remembered
      congr 1
      funext m
      simp [Heap.memory, ha.memories]
    have hr' : c.remembered (w₁.heap.entered l.switch (h.generation l) t) =
        c.remembered w₁.heap := by
      unfold Chain.remembered
      congr 1
      funext m
      simp [Heap.memory]
    have hh := hf.handed
    rw [Handed, hr, ← hread] at hh
    rw [Handed, hr']
    exact hh
  · have hkeep : (w₁.heap.entered l.switch (h.generation l) t).generation e =
        w₁.heap.generation e := Heap.generation_entered ..
    rw [hkeep]
    rcases List.mem_cons.1 he with rfl | he
    · have hle := hf.onward.later _ (mem_links_of_suffix hl.follows.suffix)
      have hgen := ha.generation hl
      simp only at hle
      omega
    · exact Nat.lt_of_le_of_lt (ha.le_generation hl e) (hf.later e he)

/-- The chain follows links of its path to the end. -/
theorem delivers (hK : K.Notes seen c.code fun v => [v]) (hp : ∀ s ∈ c.segments, s.property ≠ "")
    (todo : List Link) : c.Delivers K seen Other todo := by
  induction todo with
  | nil => exact fun pending regs v base w hl ht _ =>
      (deliver_last hK hl ht base).mono fun _ w' hw' => ⟨[], hw'⟩
  | cons l todo ih =>
    intro pending regs v base w hl ht hk
    have hm := mem_links_of_suffix hl.follows.suffix
    have hp' : l.segment.property ≠ "" := hp _ (List.mem_cons_of_mem _ (List.mem_map_of_mem hm))
    obtain ⟨L, inner, t, u, pending', new, h, hL, -, ha, hk'⟩ :=
      leads_link (K := K) hp' hl ht hk
    refine .leads hL (.step id ((step_inner (ha.live.running l hm).2 rfl u).symm ▸ ?_))
    refine .call (f := .entering l.switch (h.generation l) inner)
      (R := fun signal w₁ => signal = .subscription t ∧ ∃ pre,
        c.Cascaded seen Other pending' todo (new ++ regs) pre u ⟨h, w.client⟩ w₁)
      (List.suffix_cons _ _) ?_ ?_
    -- the first value of the link is followed during the subscription
    · refine .call (f := .subscribed _ t) (List.suffix_refl _)
        (ih pending' _ u _ ⟨h, w.client⟩ ha.live ha.tidy fun o ho => ?_)
        fun _ w₁ hw₁ => .back (.pass ⟨rfl, hw₁⟩)
      exact (hk' o ho).congr
        (fun _ hm => List.mem_cons_of_mem _ (List.mem_cons_of_mem _ hm)) rfl fun _ _ => rfl
    -- and then the subscription is over
    · rintro _ w₁ ⟨rfl, pre, hw₁⟩
      obtain ⟨L', hL', -⟩ := leads_entering K base w₁.client (.subscription t)
        (hw₁.grows.undoes ha.undoes) (h.generation l) inner
      exact .leads hL' (.pass ⟨pre ++ new, hw₁.link hp' hl ht.numbered ha⟩)

end Chain

end DataBinding
