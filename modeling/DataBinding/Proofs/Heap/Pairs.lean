import Mathlib.Data.List.Forall2
/-!
# Entries in pairs

Lists and tables that are related entry by entry stay so under the operations on them.
-/

namespace DataBinding

variable {α β : Type} {R : α → β → Prop} {l : List α} {l' : List β} {xs : Array α} {ys : Array β}

/-! ## Lists -/

theorem forall₂_set (hl : List.Forall₂ R l l') (k : Nat) {a : α} {b : β} (hab : R a b) :
    List.Forall₂ R (l.set k a) (l'.set k b) := by
  induction hl generalizing k with
  | nil => exact .nil
  | cons hx hl ih =>
    cases k with
    | zero => exact .cons hab hl
    | succ k => exact .cons hx (ih k)

theorem forall₂_replicate (n : Nat) {a : α} {b : β} (hab : R a b) :
    List.Forall₂ R (List.replicate n a) (List.replicate n b) := by
  induction n with
  | zero => exact .nil
  | succ n ih => exact .cons hab ih

theorem forall₂_mapIdx {γ δ : Type} {T : γ → δ → Prop} {f : Nat → α → γ} {g : Nat → β → δ}
    (hl : List.Forall₂ R l l') (hfg : ∀ k a b, R a b → T (f k a) (g k b)) :
    List.Forall₂ T (l.mapIdx f) (l'.mapIdx g) := by
  induction hl generalizing f g with
  | nil => exact .nil
  | cons hab _ ih =>
    rw [List.mapIdx_cons, List.mapIdx_cons]
    exact .cons (hfg 0 _ _ hab) (ih fun k => hfg (k + 1))

/-! ## Tables -/

theorem map_eq_of_rel {γ : Type} {a : Option α} {b : Option β} {f : α → γ} {f' : β → γ} (h : Option.Rel R a b)
    (hf : ∀ x y, R x y → f' y = f x) : b.map f' = a.map f := by
  cases h with
  | none => rfl
  | some hr => exact congrArg some (hf _ _ hr)

theorem forall₂_of_rel {γ δ : Type} {T : γ → δ → Prop} {a : Option α} {b : Option β} {f : α → List γ} {f' : β → List δ}
    (h : Option.Rel R a b) (hf : ∀ x y, R x y → List.Forall₂ T (f x) (f' y)) :
    List.Forall₂ T ((a.map f).getD []) ((b.map f').getD []) := by
  cases h with
  | none => exact .nil
  | some hr => exact hf _ _ hr

theorem size_eq_of_rel (h : ∀ i : Nat, Option.Rel R xs[i]? ys[i]?) : ys.size = xs.size := by
  have hnone : ∀ i : Nat, xs.size ≤ i ↔ ys.size ≤ i := fun i => by
    rw [← Array.getElem?_eq_none_iff, ← Array.getElem?_eq_none_iff]
    have hi := h i
    cases hx : xs[i]? <;> cases hy : ys[i]? <;> rw [hx, hy] at hi <;> cases hi <;> simp
  exact Nat.le_antisymm ((hnone _).1 (Nat.le_refl _)) ((hnone _).2 (Nat.le_refl _))

theorem forall₂_toList_of_rel (h : ∀ i : Nat, Option.Rel R xs[i]? ys[i]?) : List.Forall₂ R xs.toList ys.toList := by
  refine List.forall₂_iff_get.2 ⟨(size_eq_of_rel h).symm, fun i hi hi' => ?_⟩
  have hr := h i
  rw [Array.getElem?_eq_getElem hi, Array.getElem?_eq_getElem hi'] at hr
  cases hr with
  | some hr => exact hr

theorem rel_modify {f : α → α} {f' : β → β} (h : ∀ i : Nat, Option.Rel R xs[i]? ys[i]?) (i : Nat)
    (hf : ∀ x y, R x y → R (f x) (f' y)) (k : Nat) : Option.Rel R (xs.modify i f)[k]? (ys.modify i f')[k]? := by
  simp only [Array.getElem?_modify]
  split
  · have hk := h k
    cases hx : xs[k]? <;> cases hy : ys[k]? <;> rw [hx, hy] at hk <;> cases hk
    · exact .none
    · next hr => exact .some (hf _ _ hr)
  · exact h k

theorem rel_setIfInBounds (h : ∀ i : Nat, Option.Rel R xs[i]? ys[i]?) (i : Nat) {x : α} {y : β} (hr : R x y) (k : Nat) :
    Option.Rel R (xs.setIfInBounds i x)[k]? (ys.setIfInBounds i y)[k]? := by
  simp only [Array.getElem?_setIfInBounds, size_eq_of_rel h]
  split
  · split
    · exact .some hr
    · exact .none
  · exact h k

end DataBinding
