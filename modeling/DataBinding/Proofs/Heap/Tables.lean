import DataBinding.Live.Heap
import DataBinding.Proofs.Value.Equality
/-!
# Reading the heap after an operation

What the operations on the tables do to the properties and the handlers of objects and to the cells
of switches.
-/

namespace DataBinding.Heap

variable {F C : Type} (h : Heap F C)

/-- The handlers of an object, in the order they were registered. -/
def handlers (o : ObjectId) : List (Handler F C) := (h.objects[o]?.map Object.handlers).getD []

/-- The id that the next handler of an object gets. -/
def nextHandler (o : ObjectId) : Nat := (h.objects[o]?.map Object.nextHandler).getD 0

/-- Whether an object raises notifications with this timing. -/
def supports (o : ObjectId) (t : Timing) : Bool :=
  (h.objects[o]?.map fun x => x.capability.supports t).getD false

variable (o o' : ObjectId) (p p' : String) (v : Value) (t t' : Timing) (id i j : Nat)
  (reports : Bool) (obs : Observer F C)

/-- Nothing is modified beyond the end of a table. -/
theorem modify_of_size_le {α : Type} {xs : Array α} {k : Nat} (hk : xs.size ≤ k) (f : α → α) :
    xs.modify k f = xs := by
  ext n hn
  · simp
  · rw [Array.size_modify] at hn
    rw [Array.getElem_modify, if_neg (by omega)]

/-! ## Objects -/

theorem handlersFor_eq : h.handlersFor o t p =
    if h.supports o t then
      (h.handlers o).filter fun x => x.timing == t && (x.property.isEmpty || x.property == p)
    else [] := by
  unfold handlersFor supports handlers
  rcases h.objects[o]? with _ | x
  · rfl
  · rfl

theorem mem_handlersFor {x : Handler F C} : x ∈ h.handlersFor o t p ↔
    h.supports o t = true ∧ x ∈ h.handlers o ∧ x.timing = t ∧ (x.property = "" ∨ x.property = p) := by
  rw [handlersFor_eq]
  split <;> simp_all [List.mem_filter]

theorem handlersFor_sublist : (h.handlersFor o t p).Sublist (h.handlers o) := by
  rw [handlersFor_eq]
  split
  · exact List.filter_sublist
  · exact List.nil_sublist _

/-- An object that does not exist has no handlers. -/
theorem lt_size_of_mem {x : Handler F C} (hx : x ∈ h.handlers o) : o < h.objects.size := by
  refine Nat.lt_of_not_le fun hn => ?_
  simp [handlers, Array.getElem?_eq_none hn] at hx

section Put

@[simp] theorem size_put : (h.put o p v).objects.size = h.objects.size := by simp [put]

@[simp] theorem handlers_put : (h.put o p v).handlers o' = h.handlers o' := by
  simp only [handlers, put, Array.getElem?_modify]
  split
  · cases h.objects[o']? <;> rfl
  · rfl

@[simp] theorem nextHandler_put : (h.put o p v).nextHandler o' = h.nextHandler o' := by
  simp only [nextHandler, put, Array.getElem?_modify]
  split
  · cases h.objects[o']? <;> rfl
  · rfl

@[simp] theorem supports_put : (h.put o p v).supports o' t = h.supports o' t := by
  simp only [supports, put, Array.getElem?_modify]
  split
  · cases h.objects[o']? <;> rfl
  · rfl

theorem lookup_filter_ne (l : List (String × Value)) (hp : p' ≠ p) :
    (l.filter (·.1 ≠ p)).lookup p' = l.lookup p' := by
  induction l with
  | nil => rfl
  | cons x l ih =>
    obtain ⟨q, u⟩ := x
    by_cases hq : q = p
    · subst hq
      simpa [List.lookup_cons, beq_eq_false_iff_ne.2 hp] using ih
    · by_cases hq' : p' = q
      · simp [hq, hq']
      · simpa [hq, List.lookup_cons, beq_eq_false_iff_ne.2 hq'] using ih

/-- Only the property that was put changes. -/
theorem get_put (ho : o < h.objects.size) :
    (h.put o p v).get o' p' = if o' = o ∧ p' = p then v else h.get o' p' := by
  simp only [get, put, Array.getElem?_modify]
  by_cases hoo : o = o'
  · subst hoo
    simp only [Array.getElem?_eq_getElem ho, Option.map_some, Option.getD_some, true_and, if_true]
    by_cases hp : p' = p
    · simp [Object.get, Object.put, hp]
    · simp only [Object.get, Object.put, if_neg hp, List.lookup_cons, beq_eq_false_iff_ne.2 hp]
      rw [lookup_filter_ne p p' _ hp]
  · simp [hoo, Ne.symm hoo]

@[simp] theorem handlersFor_put :
    (h.put o p v).handlersFor o' t p' = h.handlersFor o' t p' := by
  simp [handlersFor_eq]

end Put

section AddHandler

@[simp] theorem size_addHandler :
    (h.addHandler o t p reports obs).2.objects.size = h.objects.size := by simp [addHandler]

theorem handlers_addHandler (ho : o < h.objects.size) :
    (h.addHandler o t p reports obs).2.handlers o' =
      if o' = o then h.handlers o ++ [⟨h.nextHandler o, t, p, reports, obs⟩]
      else h.handlers o' := by
  simp only [handlers, addHandler, nextHandler, Array.getElem?_modify]
  by_cases hoo : o = o'
  · subst hoo
    simp [Array.getElem?_eq_getElem ho]
  · simp [hoo, Ne.symm hoo]

theorem nextHandler_addHandler (ho : o < h.objects.size) :
    (h.addHandler o t p reports obs).2.nextHandler o' =
      if o' = o then h.nextHandler o + 1 else h.nextHandler o' := by
  simp only [addHandler, nextHandler, Array.getElem?_modify]
  by_cases hoo : o = o'
  · subst hoo
    simp [Array.getElem?_eq_getElem ho]
  · simp [hoo, Ne.symm hoo]

@[simp] theorem get_addHandler : (h.addHandler o t p reports obs).2.get o' p' = h.get o' p' := by
  simp only [get, addHandler, Array.getElem?_modify]
  split
  · cases h.objects[o']? <;> rfl
  · rfl

@[simp] theorem supports_addHandler :
    (h.addHandler o t p reports obs).2.supports o' t' = h.supports o' t' := by
  simp only [supports, addHandler, Array.getElem?_modify]
  split
  · cases h.objects[o']? <;> rfl
  · rfl

/-- Registering with an object that does not exist does nothing. -/
theorem addHandler_of_le (ho : h.objects.size ≤ o) :
    (h.addHandler o t p reports obs).2 = h := by
  simp only [addHandler, modify_of_size_le ho]

/-- The handlers afterwards are those before and the new one, if there is such an object. -/
theorem mem_handlers_addHandler {x : Handler F C} : x ∈ (h.addHandler o t p reports obs).2.handlers o' ↔
    x ∈ h.handlers o' ∨ o < h.objects.size ∧ o' = o ∧ x = ⟨h.nextHandler o, t, p, reports, obs⟩ := by
  by_cases ho : o < h.objects.size
  · rw [handlers_addHandler _ _ _ _ _ _ _ ho]
    split
    · next he => simp [he, ho]
    · next he => simp [he]
  · rw [addHandler_of_le _ _ _ _ _ _ (Nat.le_of_not_lt ho)]
    simp [ho]

theorem lt_nextHandler_addHandler (ho : o < h.objects.size) :
    h.nextHandler o < (h.addHandler o t p reports obs).2.nextHandler o := by
  rw [nextHandler_addHandler _ _ _ _ _ _ _ ho, if_pos rfl]
  exact Nat.lt_succ_self _

theorem le_nextHandler_addHandler : h.nextHandler o' ≤ (h.addHandler o t p reports obs).2.nextHandler o' := by
  by_cases ho : o < h.objects.size
  · rw [nextHandler_addHandler _ _ _ _ _ _ _ ho]
    split
    · next he => exact he ▸ Nat.le_succ _
    · exact Nat.le_refl _
  · exact Nat.le_of_eq (by rw [addHandler_of_le _ _ _ _ _ _ (Nat.le_of_not_lt ho)])

end AddHandler

section RemoveHandler

@[simp] theorem size_removeHandler : (h.removeHandler o id).objects.size = h.objects.size := by
  simp [removeHandler]

theorem handlers_removeHandler : (h.removeHandler o id).handlers o' =
    if o' = o then (h.handlers o).filter (·.id ≠ id) else h.handlers o' := by
  simp only [handlers, removeHandler, Array.getElem?_modify]
  by_cases hoo : o = o'
  · subst hoo
    cases h.objects[o]? <;> simp
  · simp [hoo, Ne.symm hoo]

theorem mem_handlers_removeHandler {x : Handler F C} : x ∈ (h.removeHandler o id).handlers o' ↔
    x ∈ h.handlers o' ∧ ¬ (o' = o ∧ x.id = id) := by
  rw [handlers_removeHandler]
  split <;> simp_all [List.mem_filter]

@[simp] theorem nextHandler_removeHandler :
    (h.removeHandler o id).nextHandler o' = h.nextHandler o' := by
  simp only [nextHandler, removeHandler, Array.getElem?_modify]
  split
  · cases h.objects[o']? <;> rfl
  · rfl

@[simp] theorem get_removeHandler : (h.removeHandler o id).get o' p = h.get o' p := by
  simp only [get, removeHandler, Array.getElem?_modify]
  split
  · cases h.objects[o']? <;> rfl
  · rfl

@[simp] theorem supports_removeHandler : (h.removeHandler o id).supports o' t = h.supports o' t := by
  simp only [supports, removeHandler, Array.getElem?_modify]
  split
  · cases h.objects[o']? <;> rfl
  · rfl

end RemoveHandler

/-! ## Paths -/

/-- What a path reads depends on the properties only. -/
theorem readFrom_congr {h h' : Heap F C} (hg : ∀ o p, h'.get o p = h.get o p) (v : Value)
    (l : List Segment) : h'.readFrom v l = h.readFrom v l := by
  induction l generalizing v with
  | nil => rfl
  | cons s rest ih =>
    cases v with
    | object o =>
      have hr : h'.read o s.property = h.read o s.property := by simp only [read, hg]
      simp only [readFrom, hr, ih]
    | _ => rfl

/-- Nothing is read from a value that is no object. -/
theorem readFrom_of_none {h : Heap F C} {v : Value} (hv : v.object? = none) (s : Segment) (l : List Segment) :
    h.readFrom v (s :: l) = .null := by
  cases v <;> simp_all [Value.object?, readFrom]

theorem readFrom_null {h : Heap F C} (l : List Segment) : h.readFrom .null l = .null := by
  cases l <;> rfl

/-- What holds of no value, and of what the properties of an object hold if it does of the object, holds of what
is read. -/
theorem readFrom_keeps {h : Heap F C} {P : Value → Prop} (hnull : P .null)
    (hget : ∀ o p, P (.object o) → P (h.get o p)) {v : Value} (hv : P v) (l : List Segment) :
    P (h.readFrom v l) := by
  induction l generalizing v with
  | nil => exact hv
  | cons s rest ih =>
    cases v with
    | object o =>
      refine ih ?_
      rw [read]
      split
      · exact hv
      · exact hget o _ hv
    | _ => exact hnull

/-! ## Switches -/

theorem switch_setSwitch (x : Switch C) : (h.setSwitch i x).switch j =
    if j = i ∧ i < h.switches.size then x else h.switch j := by
  simp only [switch, setSwitch, Array.getElem?_setIfInBounds]
  by_cases hij : i = j
  · subst hij
    by_cases hi : i < h.switches.size <;> simp [hi]
  · simp [hij, Ne.symm hij]

theorem switch_setSwitch_of_ne (x : Switch C) (hij : j ≠ i) :
    (h.setSwitch i x).switch j = h.switch j := by
  simp [switch_setSwitch, hij]

@[simp] theorem size_setSwitch (x : Switch C) :
    (h.setSwitch i x).switches.size = h.switches.size := by simp [setSwitch]

@[simp] theorem newSwitch_fst : h.newSwitch.1 = h.switches.size := rfl

theorem switch_newSwitch : h.newSwitch.2.switch j =
    if j = h.switches.size then ⟨0, none, false⟩ else h.switch j := by
  simp only [switch, newSwitch, Array.getElem?_push]
  split <;> simp_all

/-! ## Joins -/

theorem join_setJoin (l : List (Option Value)) :
    (h.setJoin i l).join j = if j = i ∧ i < h.joins.size then l else h.join j := by
  simp only [join, setJoin, Array.getElem?_setIfInBounds]
  grind

theorem join_newJoin (n : Nat) :
    (h.newJoin n).2.join j = if j = h.joins.size then List.replicate n none else h.join j := by
  simp only [join, newJoin, Array.getElem?_push]
  grind

/-! ## Streams -/

/-- The heap with some streams more. -/
def grown (xs : List (Stream F)) : Heap F C := { h with streams := h.streams ++ xs.toArray }

/-! ## Schedulers -/

theorem tasks?_setTasks (s s' : SchedulerId) (l : List (Task F C)) : (h.setTasks s l).tasks? s' =
    if s' = s ∧ s < h.schedulers.size then some l else h.tasks? s' := by
  simp only [tasks?, setTasks, Array.getElem?_setIfInBounds]
  by_cases he : s = s'
  · subst he
    by_cases hs : s < h.schedulers.size <;> simp [hs]
  · simp [he, Ne.symm he]

/-- Objects, subjects and schedulers are as before. -/
structure OnlyCells (h h' : Heap F C) : Prop where
  objects : h'.objects = h.objects
  subjects : h'.subjects = h.subjects
  schedulers : h'.schedulers = h.schedulers

end DataBinding.Heap
