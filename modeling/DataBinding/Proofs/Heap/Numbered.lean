import DataBinding.Proofs.Heap.Tables
/-!
# Numbers of handlers

Handlers are numbered in the order they are registered, and what a switch keeps to undo is its own
handler (`Heap.Numbered`). An operation that makes no handler anew under an old number keeps what is
known about old handlers (`Heap.Grows`).

Every operation of the machine on handlers and switches preserves the first and is an instance of
the second.
-/

namespace DataBinding.Heap

variable {F C : Type}

/-! ## Definitions -/

/-- All that is or was registered with an object under this number belongs to the switch. -/
def Belongs (h : Heap F C) (o : ObjectId) (id i : Nat) : Prop :=
  (o < h.objects.size → id < h.nextHandler o) ∧
    ∀ x ∈ h.handlers o, x.id = id → ∃ g next, x.observer = .inner i g next

/-- There is nothing to undo, or a handler of the switch. -/
def Undoes (h : Heap F C) (i : Nat) : Teardown C → Prop
  | .nothing => True
  | .handler o id => h.Belongs o id i
  | _ => False

/-- Handlers of an object are in the order of their numbers, all smaller than the next one, and
switches undo what belongs to them. -/
structure Numbered (h : Heap F C) : Prop where
  sorted : ∀ o, (h.handlers o).Pairwise (·.id < ·.id)
  below : ∀ o, ∀ x ∈ h.handlers o, x.id < h.nextHandler o
  undoes : ∀ i, h.Undoes i ((h.switch i).current.getD .nothing)

/-- From the first heap to the second: the same objects, and new handlers have new numbers. -/
structure Grows (h h' : Heap F C) : Prop where
  objects : h'.objects.size = h.objects.size
  supports : ∀ o t, h'.supports o t = h.supports o t
  next : ∀ o, h.nextHandler o ≤ h'.nextHandler o
  new : ∀ o, ∀ x ∈ h'.handlers o, x ∈ h.handlers o ∨ h.nextHandler o ≤ x.id
  switches : h.switches.size ≤ h'.switches.size
  memories : h.memories.size ≤ h'.memories.size

/-- Undo what a switch keeps. -/
def undone (h : Heap F C) : Teardown C → Heap F C
  | .handler o id => h.removeHandler o id
  | _ => h

/-- A switch has begun a new generation, and what it kept is undone. -/
def restarted (h : Heap F C) (i : Nat) : Heap F C :=
  (h.setSwitch i { h.switch i with generation := (h.switch i).generation + 1, current := none }).undone
    ((h.switch i).current.getD .nothing)

/-- A subscription of this generation is kept by its switch, or undone when there is a later one. -/
def entered (h : Heap F C) (i g : Nat) (t : Teardown C) : Heap F C :=
  if (h.switch i).generation = g then h.setSwitch i { h.switch i with current := some t }
  else h.undone t

/-! ## Growing -/

namespace Grows
variable {h h' h'' : Heap F C}

theorem refl (h : Heap F C) : h.Grows h :=
  ⟨rfl, fun _ _ => rfl, fun _ => Nat.le_refl _, fun _ _ hx => .inl hx, Nat.le_refl _, Nat.le_refl _⟩

theorem trans (g : h.Grows h') (g' : h'.Grows h'') : h.Grows h'' where
  objects := g'.objects.trans g.objects
  supports o t := (g'.supports o t).trans (g.supports o t)
  next o := Nat.le_trans (g.next o) (g'.next o)
  new o x hx := by
    rcases g'.new o x hx with hx | hx
    · exact g.new o x hx
    · exact .inr (Nat.le_trans (g.next o) hx)
  switches := Nat.le_trans g.switches g'.switches
  memories := Nat.le_trans g.memories g'.memories

/-- A handler with an old number is an old handler. -/
theorem old (g : h.Grows h') {o : ObjectId} {x : Handler F C} (hx : x ∈ h'.handlers o)
    (hid : x.id < h.nextHandler o) : x ∈ h.handlers o := by
  rcases g.new o x hx with hx | hn
  · exact hx
  · exact absurd hid (Nat.not_lt_of_le hn)

theorem belongs (g : h.Grows h') {o : ObjectId} {id i : Nat} (hb : h.Belongs o id i) :
    h'.Belongs o id i := by
  refine ⟨fun ho => Nat.lt_of_lt_of_le (hb.1 (g.objects ▸ ho)) (g.next o), fun x hx hid => ?_⟩
  rcases g.new o x hx with hx | hn
  · exact hb.2 x hx hid
  · have hlt : id < h.nextHandler o := hb.1 (g.objects ▸ h'.lt_size_of_mem o hx)
    omega

theorem undoes (g : h.Grows h') {i : Nat} {t : Teardown C} (ht : h.Undoes i t) :
    h'.Undoes i t := by
  cases t with
  | nothing => trivial
  | handler o id => exact g.belongs ht
  | _ => exact ht

end Grows

/-! ## What the operations keep -/

variable {h : Heap F C} {o : ObjectId}

theorem eq_of_id (hn : h.Numbered) {x y : Handler F C} (hx : x ∈ h.handlers o)
    (hy : y ∈ h.handlers o) (hid : x.id = y.id) : x = y := by
  obtain ⟨k, hk, rfl⟩ := List.mem_iff_getElem.1 hx
  obtain ⟨m, hm, rfl⟩ := List.mem_iff_getElem.1 hy
  rcases Nat.lt_trichotomy k m with hkm | rfl | hkm
  · exact absurd hid (Nat.ne_of_lt (List.pairwise_iff_getElem.1 (hn.sorted o) k m hk hm hkm))
  · rfl
  · exact absurd hid.symm (Nat.ne_of_lt (List.pairwise_iff_getElem.1 (hn.sorted o) m k hm hk hkm))

/-- Handlers may go, as long as the switches keep to undo what they did. -/
theorem Grows.of_sublist {h' : Heap F C} (hsize : h'.objects.size = h.objects.size)
    (hsup : ∀ o t, h'.supports o t = h.supports o t)
    (hnext : ∀ o, h'.nextHandler o = h.nextHandler o)
    (hsub : ∀ o, (h'.handlers o).Sublist (h.handlers o))
    (hs : h.switches.size ≤ h'.switches.size) (hm : h.memories.size ≤ h'.memories.size) :
    h.Grows h' :=
  ⟨hsize, hsup, fun o => Nat.le_of_eq (hnext o).symm, fun o _ hx => .inl ((hsub o).subset hx), hs, hm⟩

theorem Numbered.of_sublist {h' : Heap F C} (hn : h.Numbered) (g : h.Grows h')
    (hnext : ∀ o, h'.nextHandler o = h.nextHandler o)
    (hsub : ∀ o, (h'.handlers o).Sublist (h.handlers o))
    (hs : ∀ i, h.Undoes i ((h'.switch i).current.getD .nothing)) : h'.Numbered where
  sorted o := (hn.sorted o).sublist (hsub o)
  below o x hx := hnext o ▸ hn.below o x ((hsub o).subset hx)
  undoes i := g.undoes (hs i)

section Put
variable (o) (p : String) (v : Value)

theorem grows_put : h.Grows (h.put o p v) :=
  .of_sublist (size_put ..) (fun _ _ => supports_put ..) (fun _ => nextHandler_put ..)
    (fun o' => handlers_put h o o' p v ▸ List.Sublist.refl _) (Nat.le_refl _) (Nat.le_refl _)

theorem Numbered.put (hn : h.Numbered) : (h.put o p v).Numbered :=
  hn.of_sublist (grows_put o p v) (fun _ => nextHandler_put ..)
    (fun o' => handlers_put h o o' p v ▸ List.Sublist.refl _) hn.undoes

end Put

section RemoveHandler
variable (o) (id : Nat)

theorem handlers_removeHandler_sublist (o' : ObjectId) :
    ((h.removeHandler o id).handlers o').Sublist (h.handlers o') := by
  rw [handlers_removeHandler]
  split
  · next ho => exact ho ▸ List.filter_sublist
  · exact List.Sublist.refl _

theorem grows_removeHandler : h.Grows (h.removeHandler o id) :=
  .of_sublist (size_removeHandler ..) (fun _ _ => supports_removeHandler ..)
    (fun _ => nextHandler_removeHandler ..) (handlers_removeHandler_sublist o id) (Nat.le_refl _)
    (Nat.le_refl _)

theorem Numbered.removeHandler (hn : h.Numbered) : (h.removeHandler o id).Numbered :=
  hn.of_sublist (grows_removeHandler o id) (fun _ => nextHandler_removeHandler ..)
    (handlers_removeHandler_sublist o id) hn.undoes

theorem grows_undone (t : Teardown C) : h.Grows (h.undone t) := by
  cases t with
  | handler o id => exact grows_removeHandler o id
  | _ => exact .refl h

theorem Numbered.undone (hn : h.Numbered) (t : Teardown C) : (h.undone t).Numbered := by
  cases t with
  | handler o id => exact hn.removeHandler o id
  | _ => exact hn

@[simp] theorem switch_undone (t : Teardown C) (i : Nat) :
    (h.undone t).switch i = h.switch i := by
  cases t <;> rfl

@[simp] theorem switches_undone (t : Teardown C) : (h.undone t).switches = h.switches := by
  cases t <;> rfl

@[simp] theorem memories_undone (t : Teardown C) : (h.undone t).memories = h.memories := by
  cases t <;> rfl

@[simp] theorem get_undone (t : Teardown C) (o' : ObjectId) (p : String) :
    (h.undone t).get o' p = h.get o' p := by
  cases t with
  | handler o id => exact get_removeHandler ..
  | _ => rfl

theorem mem_handlers_undone {x : Handler F C} {t : Teardown C} :
    x ∈ (h.undone t).handlers o ↔ x ∈ h.handlers o ∧ t ≠ .handler o x.id := by
  cases t with
  | handler o' id =>
    simp only [undone, mem_handlers_removeHandler, ne_eq, Teardown.handler.injEq, eq_comm]
  | _ => simp [undone]

end RemoveHandler

section SetSwitch
variable (i : Nat) (x : Switch C)

theorem grows_setSwitch : h.Grows (h.setSwitch i x) :=
  .of_sublist rfl (fun _ _ => rfl) (fun _ => rfl) (fun _ => List.Sublist.refl _)
    (Nat.le_of_eq (size_setSwitch ..).symm) (Nat.le_refl _)

/-- A switch may keep to undo what belongs to it. -/
theorem Numbered.setSwitch (hn : h.Numbered) (hx : h.Undoes i (x.current.getD .nothing)) :
    (h.setSwitch i x).Numbered := by
  refine hn.of_sublist (grows_setSwitch i x) (fun _ => rfl) (fun _ => List.Sublist.refl _) fun j => ?_
  rw [switch_setSwitch]
  split
  · next hj => exact hj.1 ▸ hx
  · exact hn.undoes j

theorem grows_restarted : h.Grows (h.restarted i) := (grows_setSwitch i _).trans (grows_undone _)

theorem switch_restarted (hi : i < h.switches.size) (j : Nat) : (h.restarted i).switch j =
    if j = i then ⟨(h.switch i).generation + 1, none, (h.switch i).stopped⟩ else h.switch j := by
  simp [restarted, switch_setSwitch, hi]

theorem mem_handlers_restarted {y : Handler F C} : y ∈ (h.restarted i).handlers o ↔
    y ∈ h.handlers o ∧ (h.switch i).current ≠ some (.handler o y.id) := by
  rw [restarted, mem_handlers_undone]
  refine and_congr Iff.rfl (not_congr ?_)
  cases (h.switch i).current <;> simp

@[simp] theorem memories_restarted : (h.restarted i).memories = h.memories := by
  simp [restarted, Heap.setSwitch]

@[simp] theorem get_restarted (o : ObjectId) (p : String) : (h.restarted i).get o p = h.get o p := by
  rw [restarted, get_undone]
  rfl

theorem Numbered.restarted (hn : h.Numbered) : (h.restarted i).Numbered :=
  (hn.setSwitch i ⟨_, none, _⟩ trivial).undone _

end SetSwitch

section Entered
variable (i g : Nat) (t : Teardown C)

theorem grows_entered : h.Grows (h.entered i g t) := by
  unfold entered
  split
  · exact grows_setSwitch i _
  · exact grows_undone t

theorem Numbered.entered (hn : h.Numbered) (ht : h.Undoes i t) : (h.entered i g t).Numbered := by
  unfold Heap.entered
  split
  · exact hn.setSwitch i _ ht
  · exact hn.undone t

@[simp] theorem get_entered (o : ObjectId) (p : String) : (h.entered i g t).get o p = h.get o p := by
  unfold entered
  split
  · rfl
  · exact get_undone ..

@[simp] theorem memories_entered : (h.entered i g t).memories = h.memories := by
  unfold entered
  split
  · rfl
  · exact memories_undone ..

theorem switch_entered_of_ne {j : Nat} (hj : j ≠ i) : (h.entered i g t).switch j = h.switch j := by
  unfold entered
  split
  · exact switch_setSwitch_of_ne _ _ _ _ hj
  · exact switch_undone ..

theorem generation_entered (j : Nat) :
    ((h.entered i g t).switch j).generation = (h.switch j).generation := by
  unfold entered
  split
  · rw [switch_setSwitch]
    split
    · next he => rw [he.1]
    · rfl
  · rw [switch_undone]

/-- Only what the switch undoes can go. -/
theorem mem_handlers_entered {x : Handler F C} : x ∈ (h.entered i g t).handlers o ↔
    x ∈ h.handlers o ∧ ((h.switch i).generation ≠ g → t ≠ .handler o x.id) := by
  unfold entered
  split
  · next hg => simp [hg, handlers, setSwitch]
  · next hg => simp [hg, mem_handlers_undone]

end Entered

section AddHandler
variable (o) (t : Timing) (p : String) (reports : Bool) (obs : Observer F C)

theorem grows_addHandler : h.Grows (h.addHandler o t p reports obs).2 := by
  refine ⟨size_addHandler .., fun _ _ => supports_addHandler .., fun o' => le_nextHandler_addHandler ..,
    fun o' x hx => ?_, Nat.le_refl _, Nat.le_refl _⟩
  obtain hx | ⟨-, rfl, rfl⟩ := (mem_handlers_addHandler ..).1 hx
  · exact .inl hx
  · exact .inr (Nat.le_refl _)

theorem Numbered.addHandler (hn : h.Numbered) : (h.addHandler o t p reports obs).2.Numbered := by
  refine ⟨fun o' => ?_, fun o' x hx => ?_, fun i => (grows_addHandler o t p reports obs).undoes (hn.undoes i)⟩
  · by_cases ho : o < h.objects.size
    · rw [handlers_addHandler _ _ _ _ _ _ _ ho]
      split
      · refine List.pairwise_append.2 ⟨hn.sorted o, List.pairwise_singleton _ _, fun x hx y hy => ?_⟩
        rw [List.mem_singleton] at hy
        exact hy ▸ hn.below o x hx
      · exact hn.sorted o'
    · rw [addHandler_of_le _ _ _ _ _ _ (Nat.le_of_not_lt ho)]
      exact hn.sorted o'
  · obtain hx | ⟨ho, rfl, rfl⟩ := (mem_handlers_addHandler ..).1 hx
    · exact Nat.lt_of_lt_of_le (hn.below o' x hx) (le_nextHandler_addHandler ..)
    · exact lt_nextHandler_addHandler _ _ _ _ _ _ ho

/-- A new handler for a switch belongs to it. -/
theorem belongs_addHandler (hn : h.Numbered) (i g : Nat) (next : Observer F C) :
    (h.addHandler o t p reports (.inner i g next)).2.Belongs o (h.nextHandler o) i := by
  refine ⟨fun ho => ?_, fun x hx hid => ?_⟩
  · rw [size_addHandler] at ho
    exact lt_nextHandler_addHandler _ _ _ _ _ _ ho
  · obtain hx | ⟨-, -, rfl⟩ := (mem_handlers_addHandler ..).1 hx
    · exact absurd hid (Nat.ne_of_lt (hn.below o x hx))
    · exact ⟨g, next, rfl⟩

end AddHandler

section Cells
variable {h' : Heap F C}

/-- Objects and switches are as before. -/
theorem Grows.of_cells (ho : h'.objects = h.objects) (hs : h'.switches = h.switches)
    (hm : h.memories.size ≤ h'.memories.size) : h.Grows h' :=
  .of_sublist (by rw [ho]) (fun o t => by simp [Heap.supports, ho])
    (fun o => by simp [nextHandler, ho]) (fun o => by simp [handlers, ho]) (Nat.le_of_eq (by rw [hs])) hm

theorem Numbered.of_cells (hn : h.Numbered) (ho : h'.objects = h.objects)
    (hs : h'.switches = h.switches) (hm : h.memories.size ≤ h'.memories.size) : h'.Numbered :=
  hn.of_sublist (.of_cells ho hs hm) (fun o => by simp [nextHandler, ho])
    (fun o => by simp [handlers, ho]) fun i => by
      have hi : h'.switch i = h.switch i := by simp only [switch, hs]
      exact hi ▸ hn.undoes i

end Cells

end DataBinding.Heap
