import Mathlib.Data.List.Forall2
import DataBinding.Live.Observation
/-!
# What may fail

A result of two outcomes is taken apart into these (`bind_eq_ok_iff`, `map_eq_ok_iff`).

Working through a list gives an outcome for each element (`mapM_eq_ok_iff`), or the error of the first one
that fails (`mapM_eq_error_iff`). What is not made by working through a list may still fail just as if it were
(`FailsAs`); so does what is put together from such outcomes (`FailsAs.bind`, `FailsAs.mapM`, `FailsAs.foldlM`).
In the same ways outcomes are put together that fail alike (`Parallel`).

The inputs of a stage are such a list (`observeInputs_eq_mapM`).
-/

namespace DataBinding

variable {ε α β γ δ : Type} {f : α → Except ε β} {x : α} {y : β} {l l' : List α} {e e' : ε}

/-! ## Success and failure -/

section

variable {r : Except ε α}

theorem exists_error_iff : (∃ e, r = .error e) ↔ ¬ ∃ x, r = .ok x := by
  cases r <;> simp

theorem map_eq_ok_iff {g : α → β} : r.map g = .ok y ↔ ∃ x, r = .ok x ∧ g x = y := by
  cases r <;> simp [Except.map]

theorem bind_eq_ok_iff {g : α → Except ε β} : (r >>= g) = .ok y ↔ ∃ x, r = .ok x ∧ g x = .ok y := by
  cases r <;> simp [bind, Except.bind]

theorem exists_map_iff {g : α → β} : (∃ y, r.map g = .ok y) ↔ ∃ x, r = .ok x := by
  cases r <;> simp [Except.map]

theorem exists_bind_iff {g : α → Except ε β} {P : Prop} (hg : ∀ x, r = .ok x → ((∃ y, g x = .ok y) ↔ P)) :
    (∃ y, (r >>= g) = .ok y) ↔ (∃ x, r = .ok x) ∧ P := by
  cases r with
  | error e => simp [bind, Except.bind]
  | ok x => simpa [bind, Except.bind] using hg x rfl

end

/-- Where it does not depend on what comes before whether a step succeeds, all of them succeed if each does. -/
theorem exists_foldlM_iff {step : β → α → Except ε β} {P : α → Prop}
    (hstep : ∀ z, ∀ x ∈ l, (∃ y, step z x = .ok y) ↔ P x) (z : β) :
    (∃ y, l.foldlM step z = .ok y) ↔ ∀ x ∈ l, P x := by
  induction l generalizing z with
  | nil => simp [pure, Except.pure]
  | cons x l ih =>
    obtain ⟨hx, hl⟩ := List.forall_mem_cons.1 fun x hx z => hstep z x hx
    rw [List.foldlM_cons, List.forall_mem_cons, ← hx z]
    exact exists_bind_iff fun y _ => ih (fun z x hx => hl x hx z) y

/-- What each step keeps is kept in the end. -/
theorem foldlM_keeps {Q : β → Prop} {step : β → α → Except ε β} {z z' : β} (h : l.foldlM step z = .ok z')
    (hz : Q z) (hstep : ∀ x ∈ l, ∀ z z', step z x = .ok z' → Q z → Q z') : Q z' := by
  induction l generalizing z with
  | nil =>
    cases h
    exact hz
  | cons x l ih =>
    obtain ⟨hx, hl⟩ := List.forall_mem_cons.1 hstep
    rw [List.foldlM_cons] at h
    obtain ⟨z₁, hz₁, h⟩ := bind_eq_ok_iff.1 h
    exact ih h (hx _ _ hz₁ hz) hl

/-! ## The first failure -/

/-- Some element fails, and this is the error of the first one. -/
def FirstError (f : α → Except ε β) (l : List α) (e : ε) : Prop :=
  ∃ before x after, l = before ++ x :: after ∧ (∀ y ∈ before, ∃ z, f y = .ok z) ∧ f x = .error e

theorem not_firstError_nil : ¬ FirstError f [] e := by
  rintro ⟨before, x, after, he, -⟩
  simp at he

/-- An element that does not fail is passed over. -/
theorem firstError_cons_of_ok (hx : f x = .ok y) : FirstError f (x :: l) e ↔ FirstError f l e := by
  constructor
  · rintro ⟨before, a, after, hl, hb, ha⟩
    cases before with
    | nil =>
      obtain ⟨rfl, rfl⟩ := List.cons.inj hl
      rw [hx] at ha
      cases ha
    | cons b before =>
      obtain ⟨rfl, rfl⟩ := List.cons.inj hl
      exact ⟨before, a, after, rfl, fun y hy => hb y (List.mem_cons_of_mem _ hy), ha⟩
  · rintro ⟨before, a, after, rfl, hb, ha⟩
    exact ⟨x :: before, a, after, rfl, List.forall_mem_cons.2 ⟨⟨y, hx⟩, hb⟩, ha⟩

theorem firstError_cons_of_error (hx : f x = .error e') : FirstError f (x :: l) e ↔ e' = e := by
  constructor
  · rintro ⟨before, a, after, hl, hb, ha⟩
    cases before with
    | nil =>
      obtain ⟨rfl, rfl⟩ := List.cons.inj hl
      exact Except.error.inj (hx.symm.trans ha)
    | cons b before =>
      obtain ⟨rfl, rfl⟩ := List.cons.inj hl
      obtain ⟨z, hz⟩ := hb x List.mem_cons_self
      rw [hx] at hz
      cases hz
  · rintro rfl
    exact ⟨[], x, l, rfl, by simp, hx⟩

theorem firstError_append : FirstError f (l ++ l') e ↔
    FirstError f l e ∨ (∀ x ∈ l, ∃ y, f x = .ok y) ∧ FirstError f l' e := by
  induction l with
  | nil => simp [not_firstError_nil]
  | cons x l ih =>
    cases hx : f x with
    | error e' => simp [firstError_cons_of_error hx, hx]
    | ok y => simp [firstError_cons_of_ok hx, hx, ih]

theorem FirstError.congr {f' : α → Except ε β} (h : FirstError f l e) (hf : ∀ x ∈ l, f x = f' x) :
    FirstError f' l e := by
  obtain ⟨before, x, after, rfl, hb, hx⟩ := h
  refine ⟨before, x, after, rfl, fun y hy => ?_, ?_⟩
  · rw [← hf y (List.mem_append_left _ hy)]
    exact hb y hy
  · rw [← hf x (by simp), hx]

/-- An element that fails is not one that does not. -/
theorem FirstError.not_forall (h : FirstError f l e) : ¬ ∀ x ∈ l, ∃ y, f x = .ok y := by
  obtain ⟨before, x, after, rfl, -, hx⟩ := h
  intro hall
  obtain ⟨y, hy⟩ := hall x (by simp)
  rw [hx] at hy
  cases hy

/-! ## Working through a list -/

theorem mapM_eq_ok_iff {r : List β} :
    l.mapM f = .ok r ↔ List.Forall₂ (fun x y => f x = .ok y) l r := by
  induction l generalizing r with
  | nil =>
    rw [List.mapM_nil, List.forall₂_nil_left_iff]
    exact ⟨fun h => (Except.ok.inj h).symm, fun h => h ▸ rfl⟩
  | cons x l ih =>
    rw [List.mapM_cons, List.forall₂_cons_left_iff, bind_eq_ok_iff]
    constructor
    · rintro ⟨y, hx, h⟩
      obtain ⟨u, hl, h⟩ := bind_eq_ok_iff.1 h
      cases h
      exact ⟨y, u, hx, ih.1 hl, rfl⟩
    · rintro ⟨y, u, hx, hl, rfl⟩
      exact ⟨y, hx, bind_eq_ok_iff.2 ⟨u, ih.2 hl, rfl⟩⟩

theorem exists_mapM_iff : (∃ r, l.mapM f = .ok r) ↔ ∀ x ∈ l, ∃ y, f x = .ok y := by
  simp only [mapM_eq_ok_iff]
  induction l with
  | nil => simp
  | cons x l ih => simp [List.forall₂_cons_left_iff, ← ih, and_comm]

theorem mapM_eq_error_iff : l.mapM f = .error e ↔ FirstError f l e := by
  induction l with
  | nil => simp [not_firstError_nil, pure, Except.pure]
  | cons x l ih =>
    rw [List.mapM_cons]
    cases hx : f x with
    | error e' => simp [firstError_cons_of_error hx, bind, Except.bind]
    | ok y =>
      rw [firstError_cons_of_ok hx, ← ih]
      cases hl : l.mapM f <;> simp [bind, Except.bind, pure, Except.pure]

/-- Either there is a first error, or no element fails. -/
theorem exists_firstError_or (f : α → Except ε β) (l : List α) :
    (∃ e, FirstError f l e) ∨ ∀ x ∈ l, ∃ y, f x = .ok y := by
  cases h : l.mapM f with
  | error e => exact .inl ⟨e, mapM_eq_error_iff.1 h⟩
  | ok r => exact .inr (exists_mapM_iff.1 ⟨r, h⟩)

theorem forM_eq_mapM {f : α → Except ε Unit} : l.forM f = (l.mapM f).map fun _ => () := by
  induction l with
  | nil => rfl
  | cons x l ih =>
    change (f x >>= fun _ => l.forM f) = _
    rw [List.mapM_cons, ih]
    cases f x with
    | error e => rfl
    | ok y => cases l.mapM f <;> rfl

theorem forM_eq_ok_iff {f : α → Except ε Unit} : l.forM f = .ok () ↔ ∀ x ∈ l, f x = .ok () := by
  induction l with
  | nil => simp [pure, Except.pure]
  | cons x l ih =>
    change (f x >>= fun _ => l.forM f) = _ ↔ _
    rw [List.forall_mem_cons, ← ih]
    cases f x <;> simp [bind, Except.bind]

theorem forM_eq_error_iff {f : α → Except ε Unit} : l.forM f = .error e ↔ FirstError f l e := by
  rw [forM_eq_mapM, ← mapM_eq_error_iff]
  cases l.mapM f <;> simp [Except.map]

section

variable {F : Type} {a : Arguments F} {root : ObjectId}

/-- Inputs are observed one after the other. -/
theorem observeInputs_eq_mapM (inputs : List Pipeline) :
    observeInputs root a inputs = inputs.mapM (·.observe root a) := by
  induction inputs with
  | nil =>
    rw [observeInputs, List.mapM_nil]
    rfl
  | cons p rest ih =>
    rw [observeInputs, List.mapM_cons, ih]
    rfl

theorem observeInputs_eq_ok_iff {inputs : List Pipeline} {xs : List (Stream F)} :
    observeInputs root a inputs = .ok xs ↔ List.Forall₂ (fun p x => p.observe root a = .ok x) inputs xs := by
  rw [observeInputs_eq_mapM, mapM_eq_ok_iff]

end

/-! ## Failing as a list does -/

/-- The outcome is a failure exactly if some element of the list fails, and then it is the error of the first
one. -/
def FailsAs (r : Except ε γ) (f : α → Except ε β) (l : List α) : Prop := ∀ e, r = .error e ↔ FirstError f l e

namespace FailsAs

variable {r : Except ε γ}

theorem exists_ok_iff (h : FailsAs r f l) : (∃ z, r = .ok z) ↔ ∀ x ∈ l, ∃ y, f x = .ok y := by
  constructor
  · rintro ⟨z, hz⟩
    refine (exists_firstError_or f l).resolve_left ?_
    rintro ⟨e, he⟩
    cases hz.symm.trans ((h e).2 he)
  · intro hall
    cases hr : r with
    | ok z => exact ⟨z, rfl⟩
    | error e => exact absurd hall ((h e).1 hr).not_forall

theorem ok (z : γ) : FailsAs (.ok z) f [] := by
  simp [FailsAs, not_firstError_nil]

theorem one (f : α → Except ε β) (x : α) : FailsAs (f x) f [x] := by
  intro e
  cases hx : f x with
  | error e' => simp [firstError_cons_of_error hx]
  | ok y => simp [firstError_cons_of_ok hx, not_firstError_nil]

/-- The elements may be tried in another way that comes to the same. -/
theorem congr {f' : α → Except ε β} (h : FailsAs r f l) (hf : ∀ x ∈ l, f x = f' x) : FailsAs r f' l :=
  fun e => (h e).trans ⟨fun he => he.congr hf, fun he => he.congr fun x hx => (hf x hx).symm⟩

theorem map (h : FailsAs r f l) (g : γ → δ) : FailsAs (r.map g) f l := by
  intro e
  rw [← h e]
  cases r <;> simp [Except.map]

/-- One outcome after the other fails as one list after the other. -/
theorem bind {g : γ → Except ε δ} (h : FailsAs r f l) (hg : ∀ z, FailsAs (g z) f l') :
    FailsAs (r >>= g) f (l ++ l') := by
  intro e
  rw [firstError_append, ← h.exists_ok_iff, ← h e]
  cases r with
  | error e' => simp [Bind.bind, Except.bind]
  | ok z => simpa [Bind.bind, Except.bind] using hg z e

/-- Elements that stand for lists fail as these lists do, one after the other. -/
theorem mapM {g : δ → Except ε γ} {F : δ → List α} {ks : List δ} (h : ∀ k ∈ ks, FailsAs (g k) f (F k)) :
    FailsAs (ks.mapM g) f (ks.flatMap F) := by
  induction ks with
  | nil => exact .ok []
  | cons k ks ih =>
    obtain ⟨hk, hks⟩ := List.forall_mem_cons.1 h
    rw [List.mapM_cons, List.flatMap_cons]
    exact hk.bind fun z => (ih hks).map (z :: ·)

theorem foldlM {step : γ → δ → Except ε γ} {F : δ → List α} {ks : List δ}
    (h : ∀ k ∈ ks, ∀ z, FailsAs (step z k) f (F k)) (z : γ) : FailsAs (ks.foldlM step z) f (ks.flatMap F) := by
  induction ks generalizing z with
  | nil => exact .ok z
  | cons k ks ih =>
    obtain ⟨hk, hks⟩ := List.forall_mem_cons.1 h
    rw [List.foldlM_cons, List.flatMap_cons]
    exact (hk z).bind fun z' => ih hks z'

end FailsAs

/-! ## Outcomes side by side -/

/-- The same error, or two results that are so related. -/
def Parallel (R : α → β → Prop) : Except ε α → Except ε β → Prop
  | .ok x, .ok y => R x y
  | .error e, .error e' => e = e'
  | _, _ => False

namespace Parallel

variable {R : α → β → Prop} {S : γ → δ → Prop} {r : Except ε α} {r' : Except ε β}

theorem error_iff (h : Parallel R r r') : r = .error e ↔ r' = .error e := by
  cases r <;> cases r' <;> simp_all [Parallel]

theorem map {g : α → γ} {g' : β → δ} (h : Parallel R r r') (hg : ∀ x y, R x y → S (g x) (g' y)) :
    Parallel S (r.map g) (r'.map g') := by
  cases r <;> cases r'
  case error.error => exact h
  case ok.ok => exact hg _ _ h
  all_goals exact h.elim

theorem bind {g : α → Except ε γ} {g' : β → Except ε δ} (h : Parallel R r r')
    (hg : ∀ x y, R x y → Parallel S (g x) (g' y)) : Parallel S (r >>= g) (r' >>= g') := by
  cases r <;> cases r'
  case error.error => exact h
  case ok.ok => exact hg _ _ h
  all_goals exact h.elim

theorem foldlM {ks : List δ} {step : α → δ → Except ε α} {step' : β → δ → Except ε β}
    (hstep : ∀ k ∈ ks, ∀ z z', R z z' → Parallel R (step z k) (step' z' k)) {z : α} {z' : β} (hz : R z z') :
    Parallel R (ks.foldlM step z) (ks.foldlM step' z') := by
  induction ks generalizing z z' with
  | nil => exact hz
  | cons k ks ih =>
    obtain ⟨hk, hks⟩ := List.forall_mem_cons.1 hstep
    rw [List.foldlM_cons, List.foldlM_cons]
    exact (hk z z' hz).bind fun _ _ hz => ih hks hz

theorem mapM {ks : List δ} {g : δ → Except ε α} {g' : δ → Except ε β} (h : ∀ k ∈ ks, Parallel R (g k) (g' k)) :
    Parallel (List.Forall₂ R) (ks.mapM g) (ks.mapM g') := by
  induction ks with
  | nil => exact .nil
  | cons k ks ih =>
    obtain ⟨hk, hks⟩ := List.forall_mem_cons.1 h
    rw [List.mapM_cons, List.mapM_cons]
    exact hk.bind fun _ _ hx => (ih hks).bind fun _ _ hxs => .cons hx hxs

end Parallel

end DataBinding
