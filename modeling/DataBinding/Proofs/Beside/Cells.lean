import DataBinding.Proofs.Beside.Setting
/-!
# Cells beside others

Where both runs write what is alike into tied cells, or make new cells that hold what is alike, the one heap
still mirrors the other (`Heap.Mirrors.sets`, `Heap.Mirrors.makes`). So it does where the second run writes into
alien cells or makes some (`Heap.Mirrors.setsAlien`, `Heap.Mirrors.makesAlien`).
-/

namespace DataBinding

variable {F C S : Type}

namespace Heap

/-- A cell is written, if it exists. -/
structure Sets (h : Heap F C) (k : Kind) (i : Nat) (c : Cell F C) (h' : Heap F C) : Prop extends OnlyCells h h' where
  cell : ∀ k' j, h'.cell k' j = if k' = k ∧ j = i ∧ i < h.count k then c else h.cell k' j
  count : ∀ k', h'.count k' = h.count k'

/-- A cell is made, under the next number. -/
structure Makes (h : Heap F C) (k : Kind) (c : Cell F C) (h' : Heap F C) : Prop extends OnlyCells h h' where
  cell : ∀ k' j, h'.cell k' j = if k' = k ∧ j = h.count k then c else h.cell k' j
  count : ∀ k', h'.count k' = h.count k' + if k' = k then 1 else 0

section Operations
variable (h : Heap F C) (i n : Nat) (v : Value) (l : List (Option Value)) (x : Switch C) (y : Stream F)
  (t : Teardown C)

/-! ## The operations -/

theorem sets_setCounter : h.Sets .counter i (.counter n) (h.setCounter i n) where
  cell k' j := by
    cases k' <;> simp only [cell, reduceCtorEq, false_and, if_false] <;> try rfl
    simp only [counter, setCounter, count, Array.getElem?_setIfInBounds]
    grind
  count k' := by cases k' <;> simp [count, setCounter, nextId, nextHandler]
  objects := rfl
  subjects := rfl
  schedulers := rfl

theorem sets_setMemory : h.Sets .memory i (.memory (some v)) (h.setMemory i v) where
  cell k' j := by
    cases k' <;> simp only [cell, reduceCtorEq, false_and, if_false] <;> try rfl
    simp only [memory, setMemory, count, Array.getElem?_setIfInBounds]
    grind
  count k' := by cases k' <;> simp [count, setMemory, nextId, nextHandler]
  objects := rfl
  subjects := rfl
  schedulers := rfl

theorem sets_setJoin : h.Sets .join i (.join l) (h.setJoin i l) where
  cell k' j := by
    cases k' <;> simp only [cell, reduceCtorEq, false_and, if_false] <;> try rfl
    simp only [join, setJoin, count, Array.getElem?_setIfInBounds]
    grind
  count k' := by cases k' <;> simp [count, setJoin, nextId, nextHandler]
  objects := rfl
  subjects := rfl
  schedulers := rfl

theorem sets_setSwitch : h.Sets .switch i (.switch x) (h.setSwitch i x) where
  cell k' j := by
    cases k' <;> simp only [cell, reduceCtorEq, false_and, if_false] <;> try rfl
    rw [switch_setSwitch]
    simp only [true_and, count]
    split <;> rfl
  count k' := by cases k' <;> simp [count, setSwitch, nextId, nextHandler]
  objects := rfl
  subjects := rfl
  schedulers := rfl

theorem sets_shutGate : h.Sets .gate i (.gate false) (h.shutGate i) where
  cell k' j := by
    cases k' <;> simp only [cell, reduceCtorEq, false_and, if_false] <;> try rfl
    simp only [gateOpen, shutGate, count, Array.getElem?_setIfInBounds]
    grind
  count k' := by cases k' <;> simp [count, shutGate, nextId, nextHandler]
  objects := rfl
  subjects := rfl
  schedulers := rfl

theorem sets_clearHandle : h.Sets .handle i (.handle .nothing) (h.clearHandle i) where
  cell k' j := by
    cases k' <;> simp only [cell, reduceCtorEq, false_and, if_false] <;> try rfl
    simp only [teardown, clearHandle, count, Array.getElem?_setIfInBounds]
    grind
  count k' := by cases k' <;> simp [count, clearHandle, nextId, nextHandler]
  objects := rfl
  subjects := rfl
  schedulers := rfl

theorem makes_newCounter : h.Makes .counter (.counter n) (h.newCounter n).2 where
  cell k' j := by
    cases k' <;> simp only [cell, reduceCtorEq, false_and, if_false] <;> try rfl
    simp only [counter, newCounter, count, Array.getElem?_push]
    grind
  count k' := by cases k' <;> simp [count, newCounter, nextId, nextHandler]
  objects := rfl
  subjects := rfl
  schedulers := rfl

theorem makes_newMemory : h.Makes .memory (.memory none) h.newMemory.2 where
  cell k' j := by
    cases k' <;> simp only [cell, reduceCtorEq, false_and, if_false] <;> try rfl
    simp only [memory, newMemory, count, Array.getElem?_push]
    grind
  count k' := by cases k' <;> simp [count, newMemory, nextId, nextHandler]
  objects := rfl
  subjects := rfl
  schedulers := rfl

theorem makes_newJoin : h.Makes .join (.join (List.replicate n none)) (h.newJoin n).2 where
  cell k' j := by
    cases k' <;> simp only [cell, reduceCtorEq, false_and, if_false] <;> try rfl
    simp only [join, newJoin, count, Array.getElem?_push]
    grind
  count k' := by cases k' <;> simp [count, newJoin, nextId, nextHandler]
  objects := rfl
  subjects := rfl
  schedulers := rfl

theorem makes_newSwitch : h.Makes .switch (.switch ⟨0, none, false⟩) h.newSwitch.2 where
  cell k' j := by
    cases k' <;> simp only [cell, reduceCtorEq, false_and, if_false] <;> try rfl
    rw [switch_newSwitch]
    simp only [true_and, count]
    split <;> rfl
  count k' := by cases k' <;> simp [count, newSwitch, nextId, nextHandler]
  objects := rfl
  subjects := rfl
  schedulers := rfl

theorem makes_newGate : h.Makes .gate (.gate true) h.newGate.2 where
  cell k' j := by
    cases k' <;> simp only [cell, reduceCtorEq, false_and, if_false] <;> try rfl
    rw [gateOpen_newGate]
    simp only [true_and, count]
    split <;> rfl
  count k' := by cases k' <;> simp [count, newGate, nextId, nextHandler]
  objects := rfl
  subjects := rfl
  schedulers := rfl

theorem makes_newStream : h.Makes .stream (.stream y) (h.newStream y).2 where
  cell k' j := by
    cases k' <;> simp only [cell, reduceCtorEq, false_and, if_false] <;> try rfl
    simp only [stream, newStream, count, Array.getElem?_push]
    grind
  count k' := by cases k' <;> simp [count, newStream, nextId, nextHandler]
  objects := rfl
  subjects := rfl
  schedulers := rfl

theorem makes_newHandle : h.Makes .handle (.handle t) (h.newHandle t).2 where
  cell k' j := by
    cases k' <;> simp only [cell, reduceCtorEq, false_and, if_false] <;> try rfl
    simp only [teardown, newHandle, count, Array.getElem?_push]
    grind
  count k' := by cases k' <;> simp [count, newHandle, nextId, nextHandler]
  objects := rfl
  subjects := rfl
  schedulers := rfl

end Operations

/-! ## What mirrors still does -/

variable {q : Setting F C S} {ρ ρ' : Ties} {h h' h₁ h₁' : Heap F C} {k : Kind} {i j : Nat} {c c' : Cell F C}

theorem OnlyCells.refl (h : Heap F C) : h.OnlyCells h := ⟨rfl, rfl, rfl⟩

theorem OnlyCells.get (ho : h.OnlyCells h₁) (o : ObjectId) (p : String) : h₁.get o p = h.get o p := by
  simp only [Heap.get, ho.objects]

theorem OnlyCells.roster (ho : h.OnlyCells h₁) (n : Node) : h₁.roster n = h.roster n := by
  cases n <;> simp only [Heap.roster, handlers, ho.objects, ho.subjects]

theorem Mirrors.harmless (hm : h.Mirrors q ρ h') (k : Kind) (i : Nat) : (h'.cell k i).Harmless q := by
  cases k <;> first | exact hm.streams i | trivial

/-- The one heap mirrors the other if only cells have changed, and these still do. -/
theorem Mirrors.of_cells (hm : h.Mirrors q ρ h') (hρ : ρ ≤ ρ') (ho : h.OnlyCells h₁) (ho' : h'.OnlyCells h₁')
    (sound : ∀ k, (ρ' k).Sound (h₁.count k) (h₁'.count k))
    (cells : ∀ k i j, (ρ' k).pair i j → (h₁.cell k i).Alike q ρ' (h₁'.cell k j))
    (aliens : ∀ k j, (ρ' k).alien j → (h₁'.cell k j).Alien q ρ')
    (streams : ∀ i, (h₁'.cell .stream i).Harmless q) : h₁.Mirrors q ρ' h₁' where
  sound := sound
  cells := cells
  aliens := aliens
  streams := streams
  objects := by rw [ho.objects, hm.objects]
  objects' := by rw [ho'.objects, hm.objects']
  subjects := by rw [ho.subjects, hm.subjects]
  subjects' := by rw [ho'.subjects, hm.subjects']
  get o p := by
    rw [ho.get, ho'.get]
    exact q.alike_mono hρ (hm.get o p)
  supports o t := by
    simp only [Heap.supports, ho.objects, ho'.objects]
    exact hm.supports o t
  handlers o := by
    simp only [Heap.handlers, ho.objects, ho'.objects]
    exact (hm.handlers o).mono (fun _ _ => Handler.Alike.mono hρ) fun _ => Handler.Alien.mono hρ
  listeners j := by
    rw [ho.roster, ho'.roster]
    exact (hm.listeners j).mono (fun _ _ => Listener.Alike.mono hρ) fun _ => Listener.Alien.mono hρ
  schedulers := by rw [ho.schedulers, ho'.schedulers, hm.schedulers]
  tasks i := by
    simp only [Heap.tasks?, ho.schedulers, ho'.schedulers]
    exact rel_imp (fun _ _ hs => hs.mono (fun _ _ => Task.Alike.mono hρ) fun _ => Task.Alien.mono hρ) (hm.tasks i)

/-- Tied cells are written alike. -/
theorem Mirrors.sets (hm : h.Mirrors q ρ h') (hp : (ρ k).pair i j) (hs : h.Sets k i c h₁) (hs' : h'.Sets k j c' h₁')
    (hc : c.Alike q ρ c') (hc' : c'.Harmless q) : h₁.Mirrors q ρ h₁' := by
  refine hm.of_cells (Ties.le_refl ρ) hs.toOnlyCells hs'.toOnlyCells (fun k' => ?_) (fun k' a b hab => ?_)
    (fun k' b hb => ?_) fun a => ?_
  · rw [hs.count, hs'.count]
    exact hm.sound k'
  · rw [hs.cell, hs'.cell]
    by_cases hk : k' = k
    · subst hk
      have hb := (hm.sound k').below hp
      by_cases ha : a = i
      · subst ha
        obtain rfl := (hm.sound k').left hp hab
        simpa [hb] using hc
      · have hj : b ≠ j := fun hbj => ha ((hm.sound k').right hab (hbj ▸ hp))
        simpa [ha, hj] using hm.cells k' a b hab
    · simpa [hk] using hm.cells k' a b hab
  · rw [hs'.cell]
    have hj : ¬ (k' = k ∧ b = j ∧ j < h'.count k) := by
      rintro ⟨rfl, rfl, -⟩
      exact (hm.sound k').apart hp hb
    simpa [hj] using hm.aliens k' b hb
  · rw [hs'.cell]
    split
    · exact hc'
    · exact hm.harmless .stream a

/-- An alien cell is written. -/
theorem Mirrors.setsAlien (hm : h.Mirrors q ρ h') (ha : (ρ k).alien j) (hs' : h'.Sets k j c' h₁')
    (hc : c'.Alien q ρ) (hc' : c'.Harmless q) : h.Mirrors q ρ h₁' := by
  refine hm.of_cells (Ties.le_refl ρ) (.refl h) hs'.toOnlyCells (fun k' => ?_) (fun k' a b hab => ?_)
    (fun k' b hb => ?_) fun a => ?_
  · rw [hs'.count]
    exact hm.sound k'
  · rw [hs'.cell]
    have hj : ¬ (k' = k ∧ b = j ∧ j < h'.count k) := by
      rintro ⟨rfl, rfl, -⟩
      exact (hm.sound k').apart hab ha
    simpa [hj] using hm.cells k' a b hab
  · rw [hs'.cell]
    split
    · exact hc
    · exact hm.aliens k' b hb
  · rw [hs'.cell]
    split
    · exact hc'
    · exact hm.harmless .stream a

/-- Both runs make a cell. -/
theorem Mirrors.makes (hm : h.Mirrors q ρ h') (hs : h.Makes k c h₁) (hs' : h'.Makes k c' h₁')
    (hc : c.Alike q ρ c') (hc' : c'.Harmless q) :
    h₁.Mirrors q (ρ.tie k (h.count k) (h'.count k) 1) h₁' := by
  have hρ := ρ.le_tie k (h.count k) (h'.count k) 1
  refine hm.of_cells hρ hs.toOnlyCells hs'.toOnlyCells (fun k' => ?_) (fun k' a b hab => ?_)
    (fun k' b hb => ?_) fun a => ?_
  · rw [hs.count, hs'.count]
    exact (hm.sound k').tie (by rintro rfl; exact ⟨rfl, rfl⟩)
  · rw [hs.cell, hs'.cell]
    rcases hab with hab | ⟨rfl, d, hd, rfl, rfl⟩
    · have hb := (hm.sound k').below hab
      have ha : ¬ (k' = k ∧ a = h.count k) := by rintro ⟨rfl, rfl⟩; exact Nat.lt_irrefl _ hb.1
      have hj : ¬ (k' = k ∧ b = h'.count k) := by rintro ⟨rfl, rfl⟩; exact Nat.lt_irrefl _ hb.2
      rw [if_neg ha, if_neg hj]
      exact (hm.cells k' a b hab).mono hρ
    · obtain rfl : d = 0 := by omega
      rw [if_pos ⟨rfl, rfl⟩, if_pos ⟨rfl, rfl⟩]
      exact hc.mono hρ
  · rw [hs'.cell]
    have hj : ¬ (k' = k ∧ b = h'.count k) := by
      rintro ⟨rfl, rfl⟩
      exact Nat.lt_irrefl _ ((hm.sound k').alien_below hb)
    rw [if_neg hj]
    exact (hm.aliens k' b hb).mono hρ
  · rw [hs'.cell]
    split
    · exact hc'
    · exact hm.harmless .stream a

/-- Only the second run makes a cell. -/
theorem Mirrors.makesAlien (hm : h.Mirrors q ρ h') (hs' : h'.Makes k c' h₁') (hc : c'.Alien q ρ)
    (hc' : c'.Harmless q) : h.Mirrors q (ρ.spare k (h'.count k)) h₁' := by
  have hρ := ρ.le_spare k (h'.count k)
  refine hm.of_cells hρ (.refl h) hs'.toOnlyCells (fun k' => ?_) (fun k' a b hab => ?_)
    (fun k' b hb => ?_) fun a => ?_
  · rw [hs'.count]
    exact (hm.sound k').spare (by rintro rfl; rfl)
  · rw [hs'.cell]
    have hj : ¬ (k' = k ∧ b = h'.count k) := by
      rintro ⟨rfl, rfl⟩
      exact Nat.lt_irrefl _ ((hm.sound k').below hab).2
    rw [if_neg hj]
    exact (hm.cells k' a b hab).mono hρ
  · rw [hs'.cell]
    split
    · exact hc.mono hρ
    · rcases hb with hb | ⟨rfl, rfl⟩
      · exact (hm.aliens k' b hb).mono hρ
      · next hn => exact absurd ⟨rfl, rfl⟩ hn
  · rw [hs'.cell]
    split
    · exact hc'
    · exact hm.harmless .stream a

section Grown
variable (h : Heap F C) (xs : List (Stream F))

theorem cell_grown {k : Kind} (hk : k ≠ .stream) (i : Nat) : (h.grown xs).cell k i = h.cell k i := by
  cases k <;> first | rfl | exact absurd rfl hk

theorem count_grown (k : Kind) : (h.grown xs).count k = h.count k + if k = .stream then xs.length else 0 := by
  cases k <;> simp [count, grown, nextId, nextHandler]

theorem stream_grown_of_lt {i : Nat} (hi : i < h.streams.size) : (h.grown xs).stream i = h.stream i := by
  simp [stream, grown, Array.getElem?_append, hi]

theorem stream_grown (d : Nat) : (h.grown xs).stream (h.streams.size + d) = xs[d]?.getD .empty := by
  have hd : ¬ h.streams.size + d < h.streams.size := by omega
  simp [stream, grown, Array.getElem?_append, hd]

theorem harmless_grown (hh : ∀ i, (h.stream i).Harmless q) (hx : ∀ x ∈ xs, x.Harmless q) (i : Nat) :
    ((h.grown xs).stream i).Harmless q := by
  by_cases hi : i < h.streams.size
  · rw [h.stream_grown_of_lt xs hi]
    exact hh i
  · obtain ⟨d, rfl⟩ := Nat.exists_eq_add_of_le (Nat.le_of_not_lt hi)
    rw [h.stream_grown xs d]
    cases hd : xs[d]? with
    | none => trivial
    | some x => exact hx x (List.mem_of_getElem? hd)

end Grown

/-- Both runs make streams that are alike. -/
theorem Mirrors.grown (hm : h.Mirrors q ρ h') {xs ys : List (Stream F)}
    (hρ' : ρ' = ρ.tie .stream h.streams.size h'.streams.size xs.length)
    (hx : List.Forall₂ (Stream.Alike q (ρ' .stream).pair) xs ys) : (h.grown xs).Mirrors q ρ' (h'.grown ys) := by
  have hlen := hx.length_eq
  have hρ : ρ ≤ ρ' := hρ' ▸ ρ.le_tie ..
  refine hm.of_cells hρ ⟨rfl, rfl, rfl⟩ ⟨rfl, rfl, rfl⟩ (fun k => ?_) (fun k a b hab => ?_) (fun k b hb => ?_)
    (harmless_grown h' ys hm.streams ?_)
  · rw [count_grown, count_grown, ← hlen, hρ']
    exact (hm.sound k).tie (by rintro rfl; exact ⟨rfl, rfl⟩)
  · have hcases := hab
    rw [hρ'] at hcases
    rcases hcases with hold | ⟨rfl, d, hd, rfl, rfl⟩
    · have hc := (hm.cells k a b hold).mono hρ
      by_cases hk : k = .stream
      · subst hk
        have hb := (hm.sound .stream).below hold
        change ((h.grown xs).stream a).Alike q _ ((h'.grown ys).stream b)
        rw [stream_grown_of_lt h xs hb.1, stream_grown_of_lt h' ys hb.2]
        exact hc
      · rwa [cell_grown h xs hk, cell_grown h' ys hk]
    · change ((h.grown xs).stream _).Alike q _ ((h'.grown ys).stream _)
      rw [stream_grown, stream_grown, List.getElem?_eq_getElem hd, List.getElem?_eq_getElem (hlen ▸ hd)]
      exact hx.get hd (hlen ▸ hd)
  · by_cases hk : k = .stream
    · subst hk
      trivial
    · rw [cell_grown h' ys hk]
      refine (hm.aliens k b ?_).mono hρ
      rw [hρ'] at hb
      exact hb
  · intro y hy
    obtain ⟨n, hn, rfl⟩ := List.mem_iff_getElem.1 hy
    exact (hx.get (hlen ▸ hn) hn).harmless

/-- Only the second run makes streams. -/
theorem Mirrors.grownAlien (hm : h.Mirrors q ρ h') {ys : List (Stream F)} (hy : ∀ y ∈ ys, y.Harmless q) :
    h.Mirrors q ρ (h'.grown ys) := by
  refine hm.of_cells (Ties.le_refl ρ) (.refl h) ⟨rfl, rfl, rfl⟩ (fun k => ?_) (fun k a b hab => ?_) (fun k b hb => ?_)
    (harmless_grown h' ys hm.streams hy)
  · rw [count_grown]
    exact (hm.sound k).mono (Nat.le_refl _) (Nat.le_add_right _ _)
  · have hc := hm.cells k a b hab
    by_cases hk : k = .stream
    · subst hk
      have hb := (hm.sound .stream).below hab
      change (h.stream a).Alike q _ ((h'.grown ys).stream b)
      rwa [stream_grown_of_lt h' ys hb.2]
    · rwa [cell_grown h' ys hk]
  · by_cases hk : k = .stream
    · subst hk
      trivial
    · rw [cell_grown h' ys hk]
      exact hm.aliens k b hb

end Heap

end DataBinding
