import DataBinding.Proofs.Chain.Basic
import DataBinding.Proofs.Feed.Turns
import DataBinding.Proofs.Machine.Completes
/-!
# What was passed on last

Where values equal to the one before are left out, the observer after that was given the one that is
remembered (`Heap.Passed`). A value that is delivered there is left out, or remembered and passed on
(`completes_filtered`).
-/

namespace DataBinding

variable {F C S : Type}

namespace Heap

/-- The value is remembered where equal ones are left out. -/
def remembering (h : Heap F C) (memory : Option Nat) (v : Value) : Heap F C :=
  memory.elim h (h.setMemory · v)

/-- One observer was given `last`, and the one after it, which is not given equal values again, holds what
it was given (`Q`). -/
def Passed (h : Heap F C) (memory : Option Nat) (Q : Option Value → Prop) (last : Option Value) : Prop :=
  match memory with
  | none => Q last
  | some m => m < h.memories.size ∧ Option.Rel (fun u v => u.eqv v = true) (h.memory m) last ∧ Q (h.memory m)

variable {h h' : Heap F C} {memory : Option Nat} {Q R : Option Value → Prop} {last : Option Value}
  {u v : Value}

theorem Passed.congr (hp : h.Passed memory Q last) (hs : h.memories.size ≤ h'.memories.size)
    (hm : ∀ m, memory = some m → m < h.memories.size → h'.memory m = h.memory m) (hq : ∀ u, Q u → R u) :
    h'.Passed memory R last := by
  cases memory with
  | none => exact hq _ hp
  | some m =>
    obtain ⟨hlt, hrel, hq'⟩ := hp
    refine ⟨Nat.lt_of_lt_of_le hlt hs, ?_⟩
    rw [hm m rfl hlt]
    exact ⟨hrel, hq _ hq'⟩

/-- What the observer holds is what was passed on, or equals it. -/
theorem Passed.held (hp : h.Passed memory Q last) :
    ∃ u, Q u ∧ (u = last ∨ Option.Rel (fun u v => u.eqv v = true) u last) := by
  cases memory with
  | none => exact ⟨last, hp, .inl rfl⟩
  | some m => exact ⟨h.memory m, hp.2.2, .inr hp.2.1⟩

/-- What is left out equals what was passed on. -/
theorem Passed.leave {m : Nat} (hp : h.Passed (some m) Q last) (hu : h.memory m = some u)
    (hv : u.eqv v = true) : h.Passed (some m) Q (some v) := by
  obtain ⟨hlt, -, hq⟩ := hp
  refine ⟨hlt, ?_, hq⟩
  rw [hu]
  exact .some hv

/-- What is remembered is passed on. -/
theorem Passed.remember (hp : h.Passed memory Q last) (hv : v.eqv v = true)
    (hs : h.memories.size ≤ h'.memories.size)
    (hm : ∀ m, memory = some m → h'.memory m = (h.remembering memory v).memory m) (hr : R (some v)) :
    h'.Passed memory R (some v) := by
  cases memory with
  | none => exact hr
  | some m =>
    have hlt := hp.1
    have hself : h'.memory m = some v := by
      rw [hm m rfl]
      simp [remembering, Heap.memory, Heap.setMemory, hlt]
    refine ⟨Nat.lt_of_lt_of_le hlt hs, ?_⟩
    rw [hself]
    exact ⟨.some hv, hr⟩

theorem memory_remembering {m : Nat} (hm : memory ≠ some m) : (h.remembering memory v).memory m = h.memory m := by
  cases memory with
  | none => rfl
  | some m' =>
    have hne : m' ≠ m := fun he => hm (he ▸ rfl)
    simp [remembering, Heap.memory, Heap.setMemory, hne]

@[simp] theorem objects_remembering : (h.remembering memory v).objects = h.objects := by
  cases memory <;> rfl

@[simp] theorem switches_remembering : (h.remembering memory v).switches = h.switches := by
  cases memory <;> rfl

@[simp] theorem joins_remembering : (h.remembering memory v).joins = h.joins := by
  cases memory <;> rfl

@[simp] theorem size_remembering : (h.remembering memory v).memories.size = h.memories.size := by
  cases memory <;> simp [remembering, Heap.setMemory]

@[simp] theorem get_remembering (o : ObjectId) (p : String) : (h.remembering memory v).get o p = h.get o p := by
  simp only [get, objects_remembering]

theorem bypasses_remembering {G : ObjectId → Prop} : h.Bypasses G (h.remembering memory v) :=
  .of_objects objects_remembering switches_remembering (Nat.le_of_eq size_remembering.symm)

end Heap

open State in
/-- A value is left out, or remembered and passed on. -/
theorem completes_filtered {K : Client F C S} {next : Observer F C} {memory : Option Nat} {v : Value}
    {base : List (Frame F C)} {w : World F C S} {Q : Signal C → World F C S → Prop}
    (hleave : ∀ m u, memory = some m → w.heap.memory m = some u → u.eqv v = true → Q .done w)
    (hpass : Completes K base ⟨.run (.deliver next v), base, w.heap.remembering memory v, w.client⟩ Q) :
    Completes K base ⟨.run (.deliver (next.filtered memory) v), base, w⟩ Q := by
  cases memory with
  | none => exact hpass
  | some m =>
    refine .step id ?_
    simp only [Observer.filtered, Option.elim_some, State.step, stepCommand, stepDeliver]
    split
    · next hany =>
      obtain ⟨u, hu, hv⟩ := (Option.any_eq_true _ _).1 hany
      exact .pass (hleave m u rfl hu hv)
    · exact hpass

end DataBinding
