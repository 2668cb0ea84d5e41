import DataBinding.Proofs.Chain.Others
import DataBinding.Proofs.Machine.Bystanders
/-!
# Observers that only look on

An onlooker of a chain is another observer whose code does nothing but return. A value that is
delivered to it comes to an end and leaves the chain and all properties as they are
(`Chain.Onlooker.deliver`).
-/

namespace DataBinding

variable {F C S : Type}

namespace Client

variable (K : Client F C S) (seen : S → List Value)

/-- When code is given a value it returns; it leaves the heap alone and notes these values. -/
def Notes (code : C) (noted : Value → List Value) : Prop :=
  ∀ v w, ∃ w', K.Returns code (.value v) w w' ∧ w'.heap = w.heap ∧
    seen w'.client = seen w.client ++ noted v

end Client

namespace Chain

variable (c : Chain C) (K : Client F C S) (seen : S → List Value)

/-- An observer of another subscription, whose code notes nothing. -/
def Onlooker (o : Observer F C) : Prop :=
  c.Spares o ∧ ∃ code, o.code? = some code ∧ K.Notes seen code fun _ => []

/-- The chain, all properties and what has been noted stay as they are. -/
def Unmoved (w w' : World F C S) : Prop :=
  c.Passes (c.Onlooker K seen) w.heap w'.heap ∧ seen w'.client = seen w.client

variable {c K seen}

theorem Unmoved.trans {w w' w'' : World F C S} (h : c.Unmoved K seen w w')
    (h' : c.Unmoved K seen w' w'') : c.Unmoved K seen w w'' :=
  ⟨h.1.trans h'.1, h'.2.trans h.2⟩

open State

/-- Onlookers leave all of that as it is. -/
theorem bystanders (hK : K.Pure seen) :
    Bystanders K (c.Onlooker K seen) (c.Tidy (c.Onlooker K seen)) (c.Unmoved K seen) where
  numbered _ ht := ht.numbered
  refl _ ht := ⟨.refl ht, rfl⟩
  trans _ _ _ := Unmoved.trans
  tidy _ _ _ hw := hw.1.tidy
  grows _ _ hw := hw.1.leaves.toGrows
  next x y hx ho := by
    obtain ⟨hs, hcode⟩ := hx
    cases x <;> simp only [Observer.operand?, Option.some.injEq, reduceCtorEq] at ho <;> subst ho
    case map | distinct | inner => exact ⟨hs.2, hcode⟩
    all_goals exact ⟨hs, hcode⟩
  operator x y v base w hx ho ht := by
    obtain ⟨w₁, hp, hw, hstep⟩ := ht.step_operator hK ho hx.1 v base
    exact ⟨w₁, ⟨hp, hw⟩, hstep⟩
  client x v w hx ht := by
    obtain ⟨-, code, hc, hq⟩ := hx
    obtain rfl : x = code := by simpa [Observer.code?] using hc
    obtain ⟨w', hr, hh, hw⟩ := hq v w
    refine ⟨w', hr, ?_, by simpa using hw⟩
    rw [hh]
    exact .refl ht
  write root path hx := by
    obtain ⟨-, code, hc, -⟩ := hx
    simp [Observer.code?] at hc
  outer i select y hx := ⟨hx.1.2.1, ⟨hx.1.2.2, hx.2⟩, fun g => ⟨⟨hx.1.1, hx.1.2.2⟩, hx.2⟩⟩
  restarted i select y w hx ht := ⟨ht.passes_restarted hx.1.1, rfl⟩
  entered i select y w g t hx ht hu := ⟨ht.passes_entered hx.1.1 hu g, rfl⟩
  watched x o t p reports w hx ht :=
    ⟨ht.passes_addHandler o t p reports (code?_of_spares hx.1) hx, rfl⟩
  relocate gate s y hx := hx
  tasks w s l ht := ⟨ht.passes_cells rfl rfl (Nat.le_refl _) fun _ _ => rfl, rfl⟩

/-- What is delivered to an onlooker comes to an end. -/
theorem Onlooker.deliver (hK : K.Pure seen) {o : Observer F C} (ho : c.Onlooker K seen o)
    (base : List (Frame F C)) (v : Value) (w : World F C S) (ht : c.Tidy (c.Onlooker K seen) w.heap) :
    Completes K base ⟨.run (.deliver o v), base, w⟩ fun _ w' => c.Unmoved K seen w w' :=
  (bystanders hK).deliver ho base v w ht

end Chain

end DataBinding
