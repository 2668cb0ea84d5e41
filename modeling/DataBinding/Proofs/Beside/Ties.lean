import Mathlib.Data.List.Forall2
import DataBinding.Proofs.Heap.Rosters
/-!
# What of one heap is what in another

Two runs of the machine number their cells and registrations for themselves. Where the second one does all that
the first one does, and other things besides, some of what is numbered in the second heap is something of the
first one (`Tie.pair`), and some is only there (`Tie.alien`). This is told for each kind of things (`Ties`), and
grows as the runs go on (`Ties.tie`, `Ties.spare`).

A list of the second run is one of the first run with further elements in between (`Sifted`).
-/

namespace DataBinding

/-- A kind of things that are numbered in a heap. -/
inductive Kind where
  | counter
  | memory
  | join
  | switch
  | gate
  | stream
  | handle
  /-- The handlers of an object. -/
  | handler (object : ObjectId)
  /-- The observers of a subject. -/
  | observer (subject : SubjectId)
deriving DecidableEq

/-- The kind is one of cells, not of registrations. -/
def Kind.IsCell : Kind → Prop
  | .handler _ | .observer _ => False
  | _ => True

/-- How many numbers of a kind have been given away. -/
def Heap.count {F C : Type} (h : Heap F C) : Kind → Nat
  | .counter => h.counters.size
  | .memory => h.memories.size
  | .join => h.joins.size
  | .switch => h.switches.size
  | .gate => h.gates.size
  | .stream => h.streams.size
  | .handle => h.handles.size
  | .handler o => h.nextId (.object o)
  | .observer j => h.nextId (.subject j)

/-! ## Ties -/

/-- For one kind: a number of the first heap is the same thing as a number of the second one, or a number of the
second heap is of nothing that is there in the first one. -/
structure Tie where
  pair : Nat → Nat → Prop
  alien : Nat → Prop

/-- Numbers below these bounds are tied one to one, and nothing that is tied is alien. -/
structure Tie.Sound (t : Tie) (n m : Nat) : Prop where
  left : ∀ {i j j'}, t.pair i j → t.pair i j' → j = j'
  right : ∀ {i i' j}, t.pair i j → t.pair i' j → i = i'
  below : ∀ {i j}, t.pair i j → i < n ∧ j < m
  alien_below : ∀ {j}, t.alien j → j < m
  apart : ∀ {i j}, t.pair i j → ¬ t.alien j

abbrev Ties := Kind → Tie

namespace Ties

/-- Everything that is tied or alien stays so. -/
structure Stays (ρ ρ' : Ties) : Prop where
  pair : ∀ {k i j}, (ρ k).pair i j → (ρ' k).pair i j
  alien : ∀ {k j}, (ρ k).alien j → (ρ' k).alien j

instance : LE Ties := ⟨Stays⟩

variable {ρ ρ' ρ'' : Ties} {k k' : Kind} {i j n m : Nat}

theorem le_refl (ρ : Ties) : ρ ≤ ρ := ⟨id, id⟩

theorem le_trans (h : ρ ≤ ρ') (h' : ρ' ≤ ρ'') : ρ ≤ ρ'' :=
  ⟨fun hp => h'.pair (h.pair hp), fun ha => h'.alien (h.alien ha)⟩

/-- So many new numbers of a kind, from these on, are of the same things. -/
def tie (ρ : Ties) (k : Kind) (i j len : Nat) : Ties := fun k' =>
  { ρ k' with pair := fun a b => (ρ k').pair a b ∨ k' = k ∧ ∃ d < len, a = i + d ∧ b = j + d }

/-- A new number of a kind is of something that is only there in the second heap. -/
def spare (ρ : Ties) (k : Kind) (j : Nat) : Ties := fun k' =>
  { ρ k' with alien := fun b => (ρ k').alien b ∨ k' = k ∧ b = j }

theorem le_tie (ρ : Ties) (k : Kind) (i j len : Nat) : ρ ≤ ρ.tie k i j len := ⟨.inl, id⟩

theorem le_spare (ρ : Ties) (k : Kind) (j : Nat) : ρ ≤ ρ.spare k j := ⟨id, .inl⟩

theorem pair_tie (ρ : Ties) (k : Kind) (i j : Nat) : ((ρ.tie k i j 1) k).pair i j :=
  .inr ⟨rfl, 0, Nat.one_pos, rfl, rfl⟩

theorem alien_spare (ρ : Ties) (k : Kind) (j : Nat) : ((ρ.spare k j) k).alien j := .inr ⟨rfl, rfl⟩

end Ties

namespace Tie.Sound

variable {ρ : Ties} {k k' : Kind} {n m n' m' : Nat}

theorem mono {t : Tie} (h : t.Sound n m) (hn : n ≤ n') (hm : m ≤ m') : t.Sound n' m' where
  left := h.left
  right := h.right
  below hp := ⟨Nat.lt_of_lt_of_le (h.below hp).1 hn, Nat.lt_of_lt_of_le (h.below hp).2 hm⟩
  alien_below ha := Nat.lt_of_lt_of_le (h.alien_below ha) hm
  apart := h.apart

/-- The next numbers of a kind are tied. -/
theorem tie {len : Nat} (h : (ρ k').Sound n' m') (hk : k' = k → n' = n ∧ m' = m) :
    ((ρ.tie k n m len) k').Sound (n' + if k' = k then len else 0) (m' + if k' = k then len else 0) := by
  by_cases he : k' = k
  · subst he
    obtain ⟨rfl, rfl⟩ := hk rfl
    -- old pairs lie below the new ones, so no number is tied twice
    have hold : ∀ {i j}, (ρ k').pair i j → i < n' ∧ j < m' := h.below
    simp only [if_true]
    constructor
    · rintro i j j' (hp | ⟨-, d, -, rfl, rfl⟩) (hp' | ⟨-, d', -, hi, rfl⟩)
      · exact h.left hp hp'
      · have := hold hp
        omega
      · have := hold hp'
        omega
      · omega
    · rintro i i' j (hp | ⟨-, d, -, rfl, rfl⟩) (hp' | ⟨-, d', -, rfl, hj⟩)
      · exact h.right hp hp'
      · have := hold hp
        omega
      · have := hold hp'
        omega
      · omega
    · rintro i j (hp | ⟨-, d, hd, rfl, rfl⟩)
      · have := hold hp
        omega
      · omega
    · intro j ha
      have := h.alien_below ha
      omega
    · rintro i j (hp | ⟨-, d, -, rfl, rfl⟩) ha
      · exact h.apart hp ha
      · have := h.alien_below ha
        omega
  · have hsame : (ρ.tie k n m len) k' = ρ k' := by simp [Ties.tie, he]
    rw [hsame]
    exact h.mono (Nat.le_add_right _ _) (Nat.le_add_right _ _)

/-- The next number of a kind is alien. -/
theorem spare (h : (ρ k').Sound n' m') (hk : k' = k → m' = m) :
    ((ρ.spare k m) k').Sound n' (m' + if k' = k then 1 else 0) := by
  by_cases he : k' = k
  · subst he
    obtain rfl := hk rfl
    refine ⟨h.left, h.right, fun hp => ⟨(h.below hp).1, Nat.lt_add_right _ (h.below hp).2⟩, ?_, ?_⟩
    · rintro j (ha | ⟨-, rfl⟩)
      · exact Nat.lt_add_right _ (h.alien_below ha)
      · simp
    · rintro i j hp (ha | ⟨-, rfl⟩)
      · exact h.apart hp ha
      · exact Nat.lt_irrefl _ (h.below hp).2
  · have hsame : (ρ.spare k m) k' = ρ k' := by simp [Ties.spare, he]
    rw [hsame]
    exact h.mono (Nat.le_refl _) (Nat.le_add_right _ _)

end Tie.Sound

/-! ## Lists with more in between -/

/-- The second list is the first one, element for element, with others in between. -/
inductive Sifted {α : Type} (R : α → α → Prop) (D : α → Prop) : List α → List α → Prop
  | nil : Sifted R D [] []
  | keep {x y l m} : R x y → Sifted R D l m → Sifted R D (x :: l) (y :: m)
  | drop {y l m} : D y → Sifted R D l m → Sifted R D l (y :: m)

namespace Sifted

variable {α β : Type} {R R' : α → α → Prop} {D D' : α → Prop} {l m l' m' : List α}

theorem mono (h : Sifted R D l m) (hR : ∀ x y, R x y → R' x y) (hD : ∀ y, D y → D' y) : Sifted R' D' l m := by
  induction h with
  | nil => exact .nil
  | keep hx _ ih => exact .keep (hR _ _ hx) ih
  | drop hy _ ih => exact .drop (hD _ hy) ih

theorem append (h : Sifted R D l m) (h' : Sifted R D l' m') : Sifted R D (l ++ l') (m ++ m') := by
  induction h with
  | nil => exact h'
  | keep hx _ ih => exact .keep hx ih
  | drop hy _ ih => exact .drop hy ih

/-- Elements are left out from both lists, or others from the second one. -/
theorem filter (h : Sifted R D l m) {p q : α → Bool} (hR : ∀ x y, R x y → p x = q y) :
    Sifted R D (l.filter p) (m.filter q) := by
  induction h with
  | nil => exact .nil
  | @keep x y l m hx _ ih =>
    rw [List.filter_cons, List.filter_cons, hR x y hx]
    split
    · exact .keep hx ih
    · exact ih
  | @drop y l m hy _ ih =>
    rw [List.filter_cons]
    split
    · exact .drop hy ih
    · exact ih

/-- Others are left out from the second list. -/
theorem filter_right (h : Sifted R D l m) {q : α → Bool} (hR : ∀ x y, R x y → q y = true) :
    Sifted R D l (m.filter q) := by
  have hf := h.filter (p := fun _ => true) fun x y hx => (hR x y hx).symm
  rwa [List.filter_true] at hf

theorem map {S : β → β → Prop} {E : β → Prop} (h : Sifted R D l m) {f g : α → β} (hR : ∀ x y, R x y → S (f x) (g y))
    (hD : ∀ y, D y → E (g y)) : Sifted S E (l.map f) (m.map g) := by
  induction h with
  | nil => exact .nil
  | keep hx _ ih => exact .keep (hR _ _ hx) ih
  | drop hy _ ih => exact .drop (hD _ hy) ih

/-- Every element of the second list is of the first one, or another. -/
theorem of_forall₂ (h : List.Forall₂ R l m) : Sifted R D l m := by
  induction h with
  | nil => exact .nil
  | cons hx _ ih => exact .keep hx ih

end Sifted

end DataBinding
