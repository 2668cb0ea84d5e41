import DataBinding.Proofs.Chain.Subscribe
import DataBinding.Proofs.Feed.Turns
import DataBinding.Proofs.Quiet.Onlookers
/-!
# Strangers

A stranger to new subscriptions has only cells that were there before, and delivers to other code, which
notes nothing. A value that is delivered to it comes to an end, and no property, no newer cell and nothing
that has been noted changes (`Observer.Stranger.deliver`).
-/

namespace DataBinding

variable {F C S : Type}

/-- The joins of an observer are there. -/
def Observer.Joined (h : Heap F C) : Observer F C → Prop
  | .client _ | .write .. => True
  | .slot j _ next => j < h.joins.size ∧ next.Joined h
  | .map _ next | .filter _ next | .skip _ next | .distinct _ next | .outer _ _ next | .inner _ _ next
  | .relocate _ _ next => next.Joined h

/-- An observer with cells of this heap, for other code that notes nothing. -/
structure Observer.Stranger (K : Client F C S) (seen : S → List Value) (c : Heap F C) (code : C)
    (x : Observer F C) : Prop where
  cells : x.Scoped c
  joins : x.Joined c
  notes : ∃ other, x.code? = some other ∧ other ≠ code ∧ K.Notes seen other fun _ => []

/-- Properties, cells that this heap does not have, and what has been noted are as they were. -/
structure World.Elsewhere (c : Heap F C) (seen : S → List Value) (w w' : World F C S) : Prop where
  agrees : w.heap.Agrees w'.heap
  memories : w.heap.memories.size ≤ w'.heap.memories.size
  memory : ∀ m, c.memories.size ≤ m → w'.heap.memory m = w.heap.memory m
  join : ∀ j, c.joins.size ≤ j → w'.heap.join j = w.heap.join j
  noted : seen w'.client = seen w.client

namespace World.Elsewhere

variable {c : Heap F C} {seen : S → List Value} {w w' w'' : World F C S}

theorem trans (a : w.Elsewhere c seen w') (b : w'.Elsewhere c seen w'') : w.Elsewhere c seen w'' where
  agrees := a.agrees.trans b.agrees
  memories := Nat.le_trans a.memories b.memories
  memory m hm := (b.memory m hm).trans (a.memory m hm)
  join j hj := (b.join j hj).trans (a.join j hj)
  noted := b.noted.trans a.noted

theorem of_aside (ha : w.heap.Aside w'.heap) (hc : w'.client = w.client) : w.Elsewhere c seen w' :=
  ⟨ha.toAgrees, Nat.le_of_eq (by rw [ha.memories]), fun m _ => ha.memory m, fun j _ => ha.join j, by rw [hc]⟩

end World.Elsewhere

/-- A stranger is told: its switches may turn, and nothing is done but elsewhere. -/
structure World.Sidesteps (K : Client F C S) (seen : S → List Value) (c : Heap F C) (code : C)
    (w w' : World F C S) : Prop where
  turns : w.heap.Turns (· < c.switches.size) (fun _ y => y.observer.Stranger K seen c code) w'.heap
  elsewhere : w.Elsewhere c seen w'

variable {K : Client F C S} {seen : S → List Value} {c : Heap F C} {code : C}

namespace Observer.Stranger

variable {x y : Observer F C}

theorem next (hx : x.Stranger K seen c code) (ho : x.operand? = some y) : y.Stranger K seen c code := by
  obtain ⟨hs, hj, hn⟩ := hx
  cases x <;> simp only [Observer.operand?, Option.some.injEq, reduceCtorEq] at ho <;> subst ho
  case map | distinct | inner => exact ⟨hs.2, hj, hn⟩
  case slot => exact ⟨hs, hj.2, hn⟩
  all_goals exact ⟨hs, hj, hn⟩

theorem bystanders (hK : K.Pure seen) (c : Heap F C) (code : C) :
    Bystanders K (Stranger K seen c code) Heap.Numbered (World.Sidesteps K seen c code) where
  numbered _ ht := ht
  refl w _ := ⟨.refl _, .of_aside (.refl _) rfl⟩
  trans _ _ _ a b := ⟨a.turns.trans b.turns, a.elsewhere.trans b.elsewhere⟩
  tidy _ _ ht hw := hw.turns.numbered ht
  grows _ _ hw := hw.turns.toGrows
  next x y hx ho := hx.next ho
  operator x y v base w hx ho ht := by
    have hpublish : ∀ s side y, x ≠ .map (.publish s side) y := by
      rintro s side y rfl
      exact hx.cells.1 s side rfl
    obtain ⟨w₁, hcells, hseen, hstep⟩ := State.step_operator hK ho hpublish v base w
    refine ⟨w₁, ⟨.of_eq (.of_cells hcells.objects hcells.switches (Nat.le_of_eq hcells.size.symm))
      (fun o => by simp only [Heap.handlers, hcells.objects])
      (fun o => by simp only [Heap.nextHandler, hcells.objects]) hcells.switches,
      .of_objects hcells.objects, Nat.le_of_eq hcells.size.symm, fun m hm => hcells.memory m ?_,
      fun j hj => hcells.join j ?_, hseen⟩, hstep⟩
    · rintro y rfl
      exact absurd hx.cells.1 (Nat.not_lt_of_le hm)
    · rintro k y rfl
      exact absurd hx.joins.1 (Nat.not_lt_of_le hj)
  client x v w hx _ := by
    obtain ⟨other, hc, -, hn⟩ := hx.notes
    obtain rfl : x = other := by simpa [Observer.code?] using hc
    obtain ⟨w', hr, hh, hw⟩ := hn v w
    obtain ⟨h', k'⟩ := w'
    obtain rfl : h' = w.heap := hh
    exact ⟨_, hr, .refl _, .refl _, Nat.le_refl _, fun _ _ => rfl, fun _ _ => rfl, by simpa using hw⟩
  write root path hx := by
    obtain ⟨other, hc, -⟩ := hx.notes
    simp [Observer.code?] at hc
  outer i select y hx := ⟨hx.cells.2.1, ⟨hx.cells.2.2, hx.joins, hx.notes⟩,
    fun g => ⟨⟨hx.cells.1, hx.cells.2.2⟩, hx.joins, hx.notes⟩⟩
  restarted i select y w hx ht := ⟨(Heap.turns_restarted i ht).mono (fun _ hj => hj ▸ hx.cells.1) fun _ _ => id,
    .of_aside (Heap.aside_restarted ..) rfl⟩
  entered i select y w g t hx ht hu := ⟨(Heap.turns_entered i g hu).mono (fun _ hj => hj ▸ hx.cells.1)
    fun _ _ => id, .of_aside (Heap.aside_entered ..) rfl⟩
  watched x o t p reports w hx ht := ⟨Heap.turns_addHandler t p reports x hx, .of_aside (Heap.aside_addHandler ..) rfl⟩
  relocate gate s y hx := ⟨hx.cells, hx.joins, hx.notes⟩
  tasks w s l ht := ⟨.of_eq (.of_cells rfl rfl (Nat.le_refl _)) (fun _ => rfl) (fun _ => rfl) rfl,
    .of_aside ⟨.of_objects rfl, rfl, rfl⟩ rfl⟩

/-- What is delivered to a stranger comes to an end. -/
theorem deliver (hK : K.Pure seen) (hx : x.Stranger K seen c code) (base : List (Frame F C)) (v : Value)
    (w : World F C S) (hn : w.heap.Numbered) :
    State.Completes K base ⟨.run (.deliver x v), base, w⟩ fun _ w' => w.Sidesteps K seen c code w' :=
  (bystanders hK c code).deliver hx base v w hn

end Observer.Stranger

end DataBinding
