import DataBinding.Proofs.Heap.Numbered
import DataBinding.Proofs.Heap.Tapped
/-!
# Heaps between deliveries

What the steps between deliveries do to a heap: what is beside handlers and switches stays (`Heap.Aside`),
switches are turned and handlers come and go with them (`Heap.Turns`), and switches begin new generations
(`Heap.Onward`). What an observer at the end of a path does leaves handlers and switches as they are
(`Heap.Bypasses`).
-/

namespace DataBinding

variable {F C : Type}

namespace Heap

/-- What is beside handlers and switches is as it was. -/
structure Aside (h h' : Heap F C) : Prop extends h.Agrees h' where
  memories : h'.memories = h.memories
  joins : h'.joins = h.joins

/-- Only these switches are turned. Handlers of no switch, or of another one, stay, and new handlers are
of this kind. -/
structure Turns (I : Nat → Prop) (New : ObjectId → Handler F C → Prop) (h h' : Heap F C) : Prop
    extends h.Grows h' where
  numbered : h.Numbered → h'.Numbered
  switch : ∀ i, ¬ I i → h'.switch i = h.switch i
  kept : ∀ o, ∀ x ∈ h.handlers o, (∀ i g next, x.observer = .inner i g next → ¬ I i) →
    x ∈ h'.handlers o
  made : ∀ o, ∀ x ∈ h'.handlers o, x ∈ h.handlers o ∨ New o x

/-- These switches have only begun new generations. -/
structure Onward (A : Nat → Prop) (h h' : Heap F C) : Prop where
  le : ∀ i, A i → (h.switch i).generation ≤ (h'.switch i).generation
  still : ∀ i, A i → (h'.switch i).generation = (h.switch i).generation → h'.switch i = h.switch i

/-- Handlers and switches are as they were, and so are the properties of these objects. -/
structure Bypasses (G : ObjectId → Prop) (h h' : Heap F C) : Prop where
  size : h'.objects.size = h.objects.size
  supports : ∀ o t, h'.supports o t = h.supports o t
  handlers : ∀ o, h'.handlers o = h.handlers o
  nextHandler : ∀ o, h'.nextHandler o = h.nextHandler o
  switches : h'.switches = h.switches
  memories : h.memories.size ≤ h'.memories.size
  get : ∀ o p, G o → h'.get o p = h.get o p

variable {h h' h'' : Heap F C} {A I J : Nat → Prop} {New New' : ObjectId → Handler F C → Prop}
  {G : ObjectId → Prop}

namespace Aside

theorem refl (h : Heap F C) : h.Aside h := ⟨.refl h, rfl, rfl⟩

theorem trans (a : h.Aside h') (b : h'.Aside h'') : h.Aside h'' :=
  ⟨a.toAgrees.trans b.toAgrees, b.memories.trans a.memories, b.joins.trans a.joins⟩

theorem memory (a : h.Aside h') (m : Nat) : h'.memory m = h.memory m := by
  simp only [Heap.memory, a.memories]

theorem join (a : h.Aside h') (j : Nat) : h'.join j = h.join j := by simp only [Heap.join, a.joins]

end Aside

theorem aside_undone (h : Heap F C) (t : Teardown C) : h.Aside (h.undone t) := by
  refine ⟨⟨?_, get_undone t⟩, memories_undone t, ?_⟩
  · exact (grows_undone t).objects
  · cases t <;> rfl

theorem aside_restarted (h : Heap F C) (i : Nat) : h.Aside (h.restarted i) := by
  have hset : h.Aside (h.setSwitch i ⟨(h.switch i).generation + 1, none, (h.switch i).stopped⟩) :=
    ⟨.of_objects rfl, rfl, rfl⟩
  exact hset.trans (aside_undone ..)

theorem aside_addHandler (h : Heap F C) (o : ObjectId) (t : Timing) (p : String) (reports : Bool)
    (x : Observer F C) : h.Aside (h.addHandler o t p reports x).2 :=
  ⟨⟨size_addHandler .., fun _ _ => get_addHandler ..⟩, rfl, rfl⟩

theorem aside_entered (h : Heap F C) (i g : Nat) (t : Teardown C) : h.Aside (h.entered i g t) := by
  unfold entered
  split
  · exact ⟨.of_objects rfl, rfl, rfl⟩
  · exact aside_undone h t

namespace Turns

theorem refl (h : Heap F C) : h.Turns I New h where
  toGrows := .refl h
  numbered := id
  switch _ _ := rfl
  kept _ _ hx _ := hx
  made _ _ hx := .inl hx

theorem trans (a : h.Turns I New h') (b : h'.Turns I New h'') : h.Turns I New h'' where
  toGrows := a.toGrows.trans b.toGrows
  numbered hn := b.numbered (a.numbered hn)
  switch i hi := (b.switch i hi).trans (a.switch i hi)
  kept o x hx hi := b.kept o x (a.kept o x hx hi) hi
  made o x hx := (b.made o x hx).elim (a.made o x) .inr

theorem mono (a : h.Turns I New h') (hi : ∀ i, I i → J i) (hn : ∀ o x, New o x → New' o x) :
    h.Turns J New' h' :=
  { a with
    switch := fun i hj => a.switch i fun h => hj (hi i h)
    kept := fun o x hx hj => a.kept o x hx fun i g next he h => hj i g next he (hi i h)
    made := fun o x hx => (a.made o x hx).imp_right (hn o x) }

/-- Handlers and switches are as they were. -/
theorem of_eq (hg : h.Grows h') (hh : ∀ o, h'.handlers o = h.handlers o)
    (hn : ∀ o, h'.nextHandler o = h.nextHandler o) (hs : h'.switches = h.switches) :
    h.Turns I New h' := by
  have hi : ∀ i, h'.switch i = h.switch i := fun i => by simp only [Heap.switch, hs]
  refine ⟨hg, fun hnum => hnum.of_sublist hg hn (fun o => hh o ▸ List.Sublist.refl _) fun i => ?_,
    fun i _ => hi i, fun o x hx _ => by rwa [hh], fun o x hx => .inl (by rwa [hh] at hx)⟩
  rw [hi]
  exact hnum.undoes i

/-- An old handler that is still under its number. -/
theorem old (a : h.Turns I New h') (hn : h.Numbered) {o : ObjectId} {x y : Handler F C}
    (hx : x ∈ h.handlers o) (hy : y ∈ h'.handlers o) (hid : y.id = x.id) : y = x :=
  eq_of_id hn (a.toGrows.old hy (hid ▸ hn.below o x hx)) hx hid

end Turns

namespace Onward

theorem of_switch (hs : ∀ i, A i → h'.switch i = h.switch i) : h.Onward A h' :=
  ⟨fun i hi => Nat.le_of_eq (by rw [hs i hi]), fun i hi _ => hs i hi⟩

theorem trans (a : h.Onward A h') (b : h'.Onward A h'') : h.Onward A h'' where
  le i hi := Nat.le_trans (a.le i hi) (b.le i hi)
  still i hi hg := by
    -- the generation in between is the same too
    have hmid : (h'.switch i).generation = (h.switch i).generation :=
      Nat.le_antisymm (hg ▸ b.le i hi) (a.le i hi)
    exact (b.still i hi (hg.trans hmid.symm)).trans (a.still i hi hmid)

theorem mono (a : h.Onward I h') (hi : ∀ i, J i → I i) : h.Onward J h' :=
  ⟨fun i hj => a.le i (hi i hj), fun i hj => a.still i (hi i hj)⟩

/-- A switch that has gone on keeps a subscription. -/
theorem entered (a : h.Onward A h') {i g : Nat} {t : Teardown C}
    (hg : (h.switch i).generation < (h'.switch i).generation) : h.Onward A (h'.entered i g t) where
  le j hj := by
    rw [generation_entered]
    exact a.le j hj
  still j hj he := by
    rw [generation_entered] at he
    by_cases hji : j = i
    · subst hji
      omega
    · rw [switch_entered_of_ne _ _ _ hji]
      exact a.still j hj he

end Onward

namespace Bypasses

theorem refl (h : Heap F C) : h.Bypasses G h :=
  ⟨rfl, fun _ _ => rfl, fun _ => rfl, fun _ => rfl, rfl, Nat.le_refl _, fun _ _ _ => rfl⟩

theorem trans (a : h.Bypasses G h') (b : h'.Bypasses G h'') : h.Bypasses G h'' where
  size := b.size.trans a.size
  supports o t := (b.supports o t).trans (a.supports o t)
  handlers o := (b.handlers o).trans (a.handlers o)
  nextHandler o := (b.nextHandler o).trans (a.nextHandler o)
  switches := b.switches.trans a.switches
  memories := Nat.le_trans a.memories b.memories
  get o p ho := (b.get o p ho).trans (a.get o p ho)

theorem of_objects (ho : h'.objects = h.objects) (hs : h'.switches = h.switches)
    (hm : h.memories.size ≤ h'.memories.size) : h.Bypasses G h' :=
  ⟨by rw [ho], fun o t => by simp only [Heap.supports, ho], fun o => by simp only [Heap.handlers, ho],
    fun o => by simp only [Heap.nextHandler, ho], hs, hm, fun o p _ => by simp only [Heap.get, ho]⟩

/-- A property of another object is put. -/
theorem put {o : ObjectId} (ho : o < h.objects.size) (hG : ¬ G o) (p : String) (v : Value) :
    h.Bypasses G (h.put o p v) := by
  refine ⟨size_put .., fun _ _ => supports_put .., fun _ => handlers_put .., fun _ => nextHandler_put .., rfl,
    Nat.le_refl _, fun a q ha => ?_⟩
  rw [get_put _ _ _ _ _ _ ho, if_neg]
  rintro ⟨rfl, -⟩
  exact hG ha

theorem turns (b : h.Bypasses G h') : h.Turns I New h' :=
  .of_eq (.of_sublist b.size b.supports b.nextHandler (fun o => b.handlers o ▸ List.Sublist.refl _)
    (Nat.le_of_eq (by rw [b.switches])) b.memories) b.handlers b.nextHandler b.switches

theorem onward (b : h.Bypasses G h') : h.Onward A h' :=
  .of_switch fun i _ => by simp only [Heap.switch, b.switches]

end Bypasses

/-! ### Steps -/

section Steps
variable {o : ObjectId} (i g : Nat) {t : Teardown C}

/-- A switch that does not exist does not begin anew. -/
theorem restarted_of_le (hi : h.switches.size ≤ i) : h.restarted i = h := by
  have hset : ∀ x, h.setSwitch i x = h := fun x => by
    simp [Heap.setSwitch, Array.setIfInBounds, Nat.not_lt_of_le hi]
  have hnone : h.switch i = ⟨0, none, true⟩ := by simp [Heap.switch, Array.getElem?_eq_none hi]
  rw [restarted, hset, hnone]
  rfl

theorem switch_restarted_of_ne {j : Nat} (hj : j ≠ i) : (h.restarted i).switch j = h.switch j := by
  obtain hi | hi := Nat.lt_or_ge i h.switches.size
  · rw [switch_restarted _ hi, if_neg hj]
  · rw [restarted_of_le i hi]

/-- A switch begins a new generation. -/
theorem turns_restarted (hn : h.Numbered) : h.Turns (· = i) New (h.restarted i) where
  toGrows := grows_restarted _
  numbered hn := hn.restarted _
  switch j hj := switch_restarted_of_ne i hj
  kept o x hx hne := by
    refine (mem_handlers_restarted _).2 ⟨hx, fun hc => ?_⟩
    have hu := hn.undoes i
    rw [hc] at hu
    obtain ⟨g, next, he⟩ := hu.2 x hx rfl
    exact hne _ g next he rfl
  made o x hx := .inl ((mem_handlers_restarted _).1 hx).1

theorem onward_restarted (hi : i < h.switches.size) : h.Onward A (h.restarted i) where
  le j _ := by
    rw [switch_restarted _ hi]
    split
    · next he => exact he ▸ Nat.le_succ _
    · exact Nat.le_refl _
  still j _ hg := by
    rw [switch_restarted _ hi] at hg ⊢
    split at hg
    · next he => exact absurd hg (he ▸ Nat.succ_ne_self _)
    · next he => rw [if_neg he]

/-- A subscription is kept by its switch, or undone. -/
theorem turns_entered (hu : h.Undoes i t) : h.Turns (· = i) New (h.entered i g t) where
  toGrows := grows_entered ..
  numbered hn := hn.entered _ _ _ hu
  switch j hj := switch_entered_of_ne _ _ _ hj
  kept o x hx hne := by
    refine (mem_handlers_entered ..).2 ⟨hx, ?_⟩
    rintro - rfl
    obtain ⟨g', next, he⟩ := hu.2 x hx rfl
    exact hne _ g' next he rfl
  made o x hx := .inl ((mem_handlers_entered ..).1 hx).1

theorem turns_addHandler (t : Timing) (p : String) (reports : Bool) (x : Observer F C)
    (hx : New o ⟨h.nextHandler o, t, p, reports, x⟩) : h.Turns I New (h.addHandler o t p reports x).2 := by
  refine ⟨grows_addHandler .., fun hn => hn.addHandler .., fun _ _ => rfl,
    fun a y hy _ => (mem_handlers_addHandler ..).2 (.inl hy),
    fun a y hy => ((mem_handlers_addHandler ..).1 hy).imp_right ?_⟩
  rintro ⟨-, rfl, rfl⟩
  exact hx

end Steps

end Heap

end DataBinding
