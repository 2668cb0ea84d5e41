import Mathlib.Data.List.Forall2
import DataBinding.Proofs.Value.Equality
/-!
# Values up to the numbers of streams

A stream that is made while a program runs gets the next free number, so the same value may name it by another
number in another run. Values that are the same but for such numbers are alike (`Value.Alike`); they equal the
same values (`Value.Alike.eqv`).
-/

namespace DataBinding.Value

mutual

/-- The same values, but that streams go by other numbers; all objects in them are among the first `n`. -/
def Alike (n : Nat) (r : StreamId → StreamId → Prop) : Value → Value → Prop
  | null, v => v = null
  | bool b, v => v = bool b
  | int k, v => v = int k
  | float x, v => v = float x
  | text s, v => v = text s
  | object o, v => o < n ∧ v = object o
  | tuple items, v => ∃ items', alikeItems n r items items' ∧ v = tuple items'
  | stream i, v => ∃ j, r i j ∧ v = stream j
  | change s p u, v => s < n ∧ ∃ u', Alike n r u u' ∧ v = change s p u'
  | tagged s u, v => ∃ u', Alike n r u u' ∧ v = tagged s u'

def alikeItems (n : Nat) (r : StreamId → StreamId → Prop) : List Value → List Value → Prop
  | [], l => l = []
  | u :: rest, l => ∃ u' rest', Alike n r u u' ∧ alikeItems n r rest rest' ∧ l = u' :: rest'

end

variable {n : Nat} {r r' : StreamId → StreamId → Prop} {u v u' v' : Value} {l l' : List Value}

theorem alikeItems_iff : alikeItems n r l l' ↔ List.Forall₂ (Alike n r) l l' := by
  induction l generalizing l' with
  | nil => simp [alikeItems]
  | cons u rest ih => simp only [alikeItems, ih, List.forall₂_cons_left_iff]

mutual

theorem Alike.mono (hr : ∀ i j, r i j → r' i j) : ∀ {u v}, Alike n r u v → Alike n r' u v
  | null, _, h | bool _, _, h | int _, _, h | float _, _, h | text _, _, h | object _, _, h => by
    simpa only [Alike] using h
  | tuple items, _, h => by
    obtain ⟨items', hi, rfl⟩ := h
    exact ⟨items', alikeItems_mono hr hi, rfl⟩
  | stream i, _, h => by
    obtain ⟨j, hj, rfl⟩ := h
    exact ⟨j, hr i j hj, rfl⟩
  | change s p u, _, h => by
    obtain ⟨hs, u', hu, rfl⟩ := h
    exact ⟨hs, u', Alike.mono hr hu, rfl⟩
  | tagged s u, _, h => by
    obtain ⟨u', hu, rfl⟩ := h
    exact ⟨u', Alike.mono hr hu, rfl⟩

theorem alikeItems_mono (hr : ∀ i j, r i j → r' i j) : ∀ {l l'}, alikeItems n r l l' → alikeItems n r' l l'
  | [], _, h => h
  | u :: rest, _, h => by
    obtain ⟨u', rest', hu, hrest, rfl⟩ := h
    exact ⟨u', rest', Alike.mono hr hu, alikeItems_mono hr hrest, rfl⟩

end

mutual

/-- Values that are alike equal values that are alike, or do not, if streams are renamed one to one. -/
theorem Alike.eqv (hr : ∀ i i' j j', r i j → r i' j' → (i = i' ↔ j = j')) :
    ∀ {u v u' v'}, Alike n r u v → Alike n r u' v' → u.eqv u' = v.eqv v'
  | null, _, u', _, h, h' | bool _, _, u', _, h, h' | int _, _, u', _, h, h' | float _, _, u', _, h, h'
  | text _, _, u', _, h, h' => by
    simp only [Alike] at h
    subst h
    cases u' <;> simp only [Alike] at h' <;> grind [Value.eqv]
  | object _, _, u', _, h, h' => by
    obtain ⟨-, rfl⟩ := h
    cases u' <;> simp only [Alike] at h' <;> grind [Value.eqv]
  | tuple items, _, u', _, h, h' => by
    obtain ⟨items', hi, rfl⟩ := h
    cases u' <;> simp only [Alike] at h'
    case tuple items₂ =>
      obtain ⟨items₃, hi', rfl⟩ := h'
      simp only [Value.eqv]
      exact alikeItems_eqv hr hi hi'
    all_goals grind [Value.eqv]
  | stream i, _, u', _, h, h' => by
    obtain ⟨j, hj, rfl⟩ := h
    cases u' <;> simp only [Alike] at h'
    case stream i' =>
      obtain ⟨j', hj', rfl⟩ := h'
      have hiff := hr i i' j j' hj hj'
      simp only [Value.eqv]
      grind
    all_goals grind [Value.eqv]
  | change s p u, _, u', _, h, h' => by
    obtain ⟨-, v, hv, rfl⟩ := h
    cases u' <;> simp only [Alike] at h'
    case change s' p' u₂ =>
      obtain ⟨-, v₂, hv₂, rfl⟩ := h'
      simp only [Value.eqv, Alike.eqv hr hv hv₂]
    all_goals grind [Value.eqv]
  | tagged s u, _, u', _, h, h' => by
    obtain ⟨v, hv, rfl⟩ := h
    cases u' <;> simp only [Alike] at h'
    case tagged s' u₂ =>
      obtain ⟨v₂, hv₂, rfl⟩ := h'
      simp only [Value.eqv, Alike.eqv hr hv hv₂]
    all_goals grind [Value.eqv]

theorem alikeItems_eqv (hr : ∀ i i' j j', r i j → r i' j' → (i = i' ↔ j = j')) :
    ∀ {l m l' m'}, alikeItems n r l m → alikeItems n r l' m' → eqvItems l l' = eqvItems m m'
  | [], _, l', _, h, h' => by
    cases l' <;> simp only [alikeItems] at h h' <;> grind [Value.eqvItems]
  | u :: rest, _, l', _, h, h' => by
    obtain ⟨v, rest', hv, hrest, rfl⟩ := h
    cases l' with
    | nil =>
      simp only [alikeItems] at h'
      subst h'
      rfl
    | cons u₂ rest₂ =>
      obtain ⟨v₂, rest₃, hv₂, hrest₂, rfl⟩ := h'
      simp only [eqvItems, Alike.eqv hr hv hv₂, alikeItems_eqv hr hrest hrest₂]

end

/-- One of two values that are alike is an object exactly if the other is this object. -/
theorem Alike.object_iff (h : Alike n r u v) {o : ObjectId} : u = .object o ↔ v = .object o := by
  cases u <;> simp only [Alike] at h <;> grind

theorem Alike.of_stream {j : StreamId} (h : Alike n r u (.stream j)) : ∃ i, u = .stream i := by
  cases u <;> simp only [Alike] at h <;> grind

theorem Alike.tuple (h : List.Forall₂ (Alike n r) l l') : Alike n r (.tuple l) (.tuple l') :=
  ⟨l', alikeItems_iff.2 h, rfl⟩

end DataBinding.Value
