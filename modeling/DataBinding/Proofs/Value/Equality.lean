import DataBinding.Live.Value
/-!
# Equality of values

`Value.eqv` is symmetric and transitive. It is not reflexive: a value with a NaN in it does not
equal itself (`Value.eqv_self`), nor any other value (`Value.eqv_self_left`).

A value is made of parts: tuples, changes and tagged values have members, and these may have members again
(`Value.Part`); what an object or a stream holds is no part of the reference to it. Numbers alone keep equality
from being reflexive: a value equals itself unless some number among its parts does not
(`Value.eqv_partial_equivalence`).
-/

namespace DataBinding.Value

mutual

theorem eqv_comm (a b : Value) : a.eqv b = b.eqv a := by
  cases a <;> cases b <;> simp only [eqv, Binary64.eqv_comm]
  case tuple.tuple as bs => exact eqvItems_comm as bs
  case change.change s p v s' p' v' => rw [eqv_comm v v', BEq.comm (a := s), BEq.comm (a := p)]
  case tagged.tagged s v s' v' => rw [eqv_comm v v', BEq.comm (a := s)]
  all_goals exact BEq.comm

theorem eqvItems_comm (as bs : List Value) : eqvItems as bs = eqvItems bs as := by
  cases as <;> cases bs <;> simp only [eqvItems]
  case cons.cons a as b bs => rw [eqv_comm a b, eqvItems_comm as bs]

end

mutual

theorem eqv_trans {a b c : Value} (h₁ : a.eqv b = true) (h₂ : b.eqv c = true) :
    a.eqv c = true := by
  cases a <;> cases b <;> simp only [eqv, reduceCtorEq] at h₁ <;>
    cases c <;> simp only [eqv, Bool.and_eq_true, beq_iff_eq, reduceCtorEq] at h₁ h₂ ⊢
  case float.float.float => exact Binary64.eqv_trans h₁ h₂
  case tuple.tuple.tuple => exact eqvItems_trans h₁ h₂
  case change.change.change =>
    exact ⟨⟨h₁.1.1.trans h₂.1.1, h₁.1.2.trans h₂.1.2⟩, eqv_trans h₁.2 h₂.2⟩
  case tagged.tagged.tagged => exact ⟨h₁.1.trans h₂.1, eqv_trans h₁.2 h₂.2⟩
  all_goals exact h₁.trans h₂

theorem eqvItems_trans {as bs cs : List Value} (h₁ : eqvItems as bs = true)
    (h₂ : eqvItems bs cs = true) : eqvItems as cs = true := by
  cases as <;> cases bs <;> simp only [eqvItems, reduceCtorEq] at h₁ <;>
    cases cs <;> simp only [eqvItems, Bool.and_eq_true, reduceCtorEq] at h₁ h₂ ⊢
  exact ⟨eqv_trans h₁.1 h₂.1, eqvItems_trans h₁.2 h₂.2⟩

end

theorem eqv_symm {a b : Value} (h : a.eqv b = true) : b.eqv a = true := eqv_comm a b ▸ h

/-- A value that equals another one equals itself. -/
theorem eqv_self_left {a b : Value} (h : a.eqv b = true) : a.eqv a = true :=
  eqv_trans h (eqv_symm h)

mutual

/-- Somewhere in the value there is a NaN. -/
def holdsNaN : Value → Bool
  | float x => x.isNaN
  | tuple items => holdsNaNItems items
  | change _ _ v => v.holdsNaN
  | tagged _ v => v.holdsNaN
  | _ => false

def holdsNaNItems : List Value → Bool
  | [] => false
  | v :: rest => v.holdsNaN || holdsNaNItems rest

end

mutual

/-- A value equals itself unless there is a NaN in it. -/
theorem eqv_self (v : Value) : v.eqv v = !v.holdsNaN := by
  cases v <;> simp only [eqv, holdsNaN, beq_self_eq_true, Bool.true_and, Bool.not_false]
  case float x =>
    rw [Bool.eq_iff_iff, Binary64.eqv_self_iff, Bool.not_eq_true']
  case tuple items => exact eqvItems_self items
  case change _ _ v => exact eqv_self v
  case tagged _ v => exact eqv_self v

theorem eqvItems_self (l : List Value) : eqvItems l l = !holdsNaNItems l := by
  cases l with
  | nil => rfl
  | cons v rest => rw [eqvItems, holdsNaNItems, eqv_self v, eqvItems_self rest, Bool.not_or]

end

/-- The object that a value is. -/
def object? : Value → Option ObjectId
  | .object o => some o
  | _ => none

theorem object?_eq_some {v : Value} {o : ObjectId} : v.object? = some o ↔ v = .object o := by
  cases v <;> simp [object?]

theorem object?_eq_of_eqv {v w : Value} (h : v.eqv w = true) : v.object? = w.object? := by
  cases v <;> cases w <;> simp_all [eqv, object?]

theorem eqv_of_object? {v w : Value} {o : ObjectId} (hv : v.object? = some o)
    (hw : w.object? = some o) : v.eqv w = true := by
  rw [object?_eq_some] at hv hw
  subst hv hw
  simp [eqv]

/-- The values that remain when each one equal to the last before it is left out; `last` is the one
before the list, if any. -/
def changes : Option Value → List Value → List Value
  | _, [] => []
  | last, v :: rest => if last.any (·.eqv v) then changes last rest else v :: changes (some v) rest

/-! ## Parts -/

/-- The values that a value is made of at once. -/
def members : Value → List Value
  | tuple items => items
  | change _ _ v | tagged _ v => [v]
  | _ => []

/-- The second value is the first one, or is reached from it by way of members. -/
inductive Part : Value → Value → Prop
  | self (v : Value) : Part v v
  | member {v u w : Value} (hu : u ∈ v.members) (h : Part u w) : Part v w

theorem sizeOf_lt_of_mem_members {v u : Value} (hu : u ∈ v.members) : sizeOf u < sizeOf v := by
  cases v with
  | tuple items =>
    have hlt : sizeOf u < sizeOf items := List.sizeOf_lt_of_mem hu
    rw [tuple.sizeOf_spec]
    omega
  | change =>
    rw [List.mem_singleton.1 hu, change.sizeOf_spec]
    omega
  | tagged =>
    rw [List.mem_singleton.1 hu, tagged.sizeOf_spec]
    omega
  | _ => exact (List.not_mem_nil hu).elim

theorem eqvItems_self_iff (l : List Value) : eqvItems l l = true ↔ ∀ v ∈ l, v.eqv v = true := by
  induction l with
  | nil => simp [eqvItems]
  | cons v rest ih => simp [eqvItems, ih]

/-- A value equals itself if its members do, and if it is a number, this number. -/
theorem eqv_self_iff_members (v : Value) :
    v.eqv v = true ↔ (∀ x, v = float x → x.eqv x = true) ∧ ∀ u ∈ v.members, u.eqv u = true := by
  cases v <;> simp [eqv, members, eqvItems_self_iff]

/-- The parts of a value that equals itself do so, too. -/
theorem Part.eqv_self {v w : Value} (h : v.Part w) (hv : v.eqv v = true) : w.eqv w = true := by
  induction h with
  | self v => exact hv
  | member hu _ ih => exact ih (((eqv_self_iff_members _).1 hv).2 _ hu)

/-- A value equals itself if the numbers in it do. -/
theorem eqv_self_of_parts (v : Value) (h : ∀ x, v.Part (float x) → x.eqv x = true) : v.eqv v = true := by
  refine (eqv_self_iff_members v).2 ⟨?_, fun u hu => ?_⟩
  · rintro x rfl
    exact h x (.self _)
  · exact eqv_self_of_parts u fun x hx => h x (.member hu hx)
termination_by sizeOf v
decreasing_by exact sizeOf_lt_of_mem_members hu

/-- **Equality of values is a partial equivalence, and only numbers keep it from being reflexive.** Like equality
of numbers it is symmetric and transitive. A value equals itself exactly if each number does that is reached from
it through tuples, changes and tagged values. -/
theorem eqv_partial_equivalence :
    ((∀ x y : Binary64, x.eqv y = true → y.eqv x = true) ∧
      ∀ x y z : Binary64, x.eqv y = true → y.eqv z = true → x.eqv z = true) ∧
    (∀ v w : Value, v.eqv w = true → w.eqv v = true) ∧
    (∀ u v w : Value, u.eqv v = true → v.eqv w = true → u.eqv w = true) ∧
    ∀ v : Value, v.eqv v = true ↔ ∀ x, v.Part (float x) → x.eqv x = true := by
  refine ⟨⟨fun x y h => ?_, fun x y z => Binary64.eqv_trans⟩, fun v w => eqv_symm, fun u v w => eqv_trans,
    fun v => ⟨fun hv x hx => ?_, eqv_self_of_parts v⟩⟩
  · rw [Binary64.eqv_comm]
    exact h
  · have hself := hx.eqv_self hv
    rwa [eqv] at hself

/-- The number is in a change in a tuple that is tagged, and it is a NaN. -/
example : (tagged .source (tuple [.null, change 0 none (float ⟨0x7ff8000000000000⟩)])).eqv
    (tagged .source (tuple [.null, change 0 none (float ⟨0x7ff8000000000000⟩)])) = false := by decide +kernel

end DataBinding.Value
