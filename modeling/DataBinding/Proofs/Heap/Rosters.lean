import DataBinding.Live.Client
import DataBinding.Proofs.Heap.Tables
/-!
# Rosters

Objects and subjects keep rosters: observers in the order they were registered, each under an id that
is given once (`Heap.roster`, `Heap.nextId`). What the machine does to rosters, switches and gates comes
in few kinds: nothing (`Heap.Alike`), one observer more (`Heap.Enrolls`), one id less (`Heap.Strikes`),
one switch or gate changed or made.

From one heap to a later one (`Heap.Later`) ids are not given again, stopped switches stay stopped and
shut gates stay shut; what is new is given with the relation.
-/

namespace DataBinding

variable {F C : Type}

namespace Heap

section Definitions
variable (h : Heap F C)

/-- Who is registered where, with their ids; streams keep no roster. -/
def roster : Node → List (Nat × Observer F C)
  | .object o => (h.handlers o).map fun x => (x.id, x.observer)
  | .subject s => (h.subjects[s]?.map Subject.observers).getD []
  | .stream _ => []

/-- The id that the next observer gets. -/
def nextId : Node → Nat
  | .object o => h.nextHandler o
  | .subject s => (h.subjects[s]?.map Subject.nextObserver).getD 0
  | .stream _ => 0

theorem observers_eq_map_roster (j : SubjectId) : h.observers j = (h.roster (.subject j)).map Prod.snd := by
  simp only [observers, roster]
  cases h.subjects[j]? <;> rfl

variable {h}

theorem mem_roster_handlers {o : ObjectId} {x : Handler F C} (hx : x ∈ h.handlers o) :
    (x.id, x.observer) ∈ h.roster (.object o) :=
  List.mem_map_of_mem (f := fun x => (x.id, x.observer)) hx

theorem exists_mem_roster {s : SubjectId} {y : Observer F C} (hy : y ∈ h.observers s) :
    ∃ id, (id, y) ∈ h.roster (.subject s) := by
  simp only [observers] at hy
  cases hs : h.subjects[s]? with
  | none => simp [hs] at hy
  | some x =>
    obtain ⟨e, he, rfl⟩ : ∃ e ∈ x.observers, e.2 = y := by simpa [hs] using hy
    exact ⟨e.1, by simpa [roster, hs] using he⟩

end Definitions

/-- Handles are not filled again. -/
structure Retains (h h' : Heap F C) : Prop where
  size : h.handles.size ≤ h'.handles.size
  teardown : ∀ n < h.handles.size, h'.teardown n = h.teardown n ∨ h'.teardown n = .nothing

/-- The same rosters, switches and gates. -/
structure Alike (h h' : Heap F C) : Prop where
  roster : ∀ n, h'.roster n = h.roster n
  nextId : ∀ n, h'.nextId n = h.nextId n
  switches : h'.switches = h.switches
  gates : h'.gates = h.gates
  retains : h.Retains h'

/-- One observer more on a roster, under the next id. -/
structure Enrolls (h : Heap F C) (n : Node) (y : Observer F C) (h' : Heap F C) : Prop where
  roster : ∀ m, h'.roster m = if m = n then h.roster n ++ [(h.nextId n, y)] else h.roster m
  nextId : ∀ m, h'.nextId m = if m = n then h.nextId n + 1 else h.nextId m
  switches : h'.switches = h.switches
  gates : h'.gates = h.gates
  handles : h'.handles = h.handles

/-- An id is taken off a roster. -/
structure Strikes (h : Heap F C) (n : Node) (id : Nat) (h' : Heap F C) : Prop where
  roster : ∀ m, h'.roster m = if m = n then (h.roster n).filter (·.1 ≠ id) else h.roster m
  nextId : ∀ m, h'.nextId m = h.nextId m
  switches : h'.switches = h.switches
  gates : h'.gates = h.gates
  handles : h'.handles = h.handles

section Entries

variable {h h' : Heap F C} {n m : Node} {y : Observer F C} {id : Nat} {e : Nat × Observer F C}

/-- What is on a roster was there before, or is the new entry. -/
theorem Enrolls.mem_roster (a : h.Enrolls n y h') (he : e ∈ h'.roster m) :
    e ∈ h.roster m ∨ m = n ∧ e = (h.nextId n, y) := by
  rw [a.roster] at he
  split at he
  · next hm =>
    subst hm
    exact (List.mem_append.1 he).imp_right fun he => ⟨rfl, List.mem_singleton.1 he⟩
  · exact .inl he

theorem Enrolls.roster_subset (a : h.Enrolls n y h') (m : Node) : h.roster m ⊆ h'.roster m := by
  intro e he
  rw [a.roster]
  split
  · next hm => exact List.mem_append_left _ (hm ▸ he)
  · exact he

theorem Enrolls.mem_new (a : h.Enrolls n y h') : (h.nextId n, y) ∈ h'.roster n := by
  rw [a.roster, if_pos rfl]
  exact List.mem_append_right _ (List.mem_singleton_self _)

/-- No id is on a roster twice, since the next one is greater than those that are. -/
theorem Enrolls.nodup (a : h.Enrolls n y h') (hb : ∀ e ∈ h.roster m, e.1 < h.nextId m)
    (hn : ((h.roster m).map Prod.fst).Nodup) : ((h'.roster m).map Prod.fst).Nodup := by
  rw [a.roster]
  split
  · next hm =>
    subst hm
    rw [List.map_append, List.nodup_append]
    refine ⟨hn, List.pairwise_singleton _ _, fun id hid id' hid' => ?_⟩
    obtain ⟨e, he, rfl⟩ := List.mem_map.1 hid
    rw [List.map_singleton, List.mem_singleton] at hid'
    exact hid' ▸ Nat.ne_of_lt (hb e he)
  · exact hn

theorem Enrolls.le_nextId (a : h.Enrolls n y h') (m : Node) : h.nextId m ≤ h'.nextId m := by
  rw [a.nextId]
  split
  · next he => exact he ▸ Nat.le_succ _
  · exact Nat.le_refl _

theorem Enrolls.lt_nextId (a : h.Enrolls n y h') : h.nextId n < h'.nextId n := by
  rw [a.nextId, if_pos rfl]
  exact Nat.lt_succ_self _

/-- Ids stay below the one that is given next. -/
theorem Enrolls.below (a : h.Enrolls n y h') (hb : ∀ e ∈ h.roster m, e.1 < h.nextId m) (he : e ∈ h'.roster m) :
    e.1 < h'.nextId m := by
  obtain he | ⟨rfl, rfl⟩ := a.mem_roster he
  · exact Nat.lt_of_lt_of_le (hb e he) (a.le_nextId m)
  · exact a.lt_nextId

theorem Strikes.mem_roster (a : h.Strikes n id h') :
    e ∈ h'.roster m ↔ e ∈ h.roster m ∧ (m = n → e.1 ≠ id) := by
  rw [a.roster]
  split
  · next hm =>
    subst hm
    simp
  · next hm => simp [hm]

end Entries

/-! ## The operations -/

section Operations
variable (h : Heap F C)

theorem teardown_clearHandle (m n : Nat) :
    (h.clearHandle m).teardown n = if n = m then .nothing else h.teardown n := by
  simp only [teardown, clearHandle, Array.getElem?_setIfInBounds]
  by_cases hm : m = n
  · subst hm
    by_cases hs : m < h.handles.size <;> simp [hs]
  · simp [hm, Ne.symm hm]

theorem teardown_newHandle (t : Teardown C) {n : Nat} (hn : n < h.handles.size) :
    (h.newHandle t).2.teardown n = h.teardown n := by
  simp only [teardown, newHandle, Array.getElem?_push]
  rw [if_neg (Nat.ne_of_lt hn)]

theorem Retains.of_eq {h h' : Heap F C} (hh : h'.handles = h.handles) : h.Retains h' :=
  ⟨Nat.le_of_eq (by rw [hh]), fun n _ => .inl (by simp only [Heap.teardown, hh])⟩

theorem Retains.trans {h h' h'' : Heap F C} (a : h.Retains h') (b : h'.Retains h'') : h.Retains h'' where
  size := Nat.le_trans a.size b.size
  teardown n hn := by
    rcases b.teardown n (Nat.lt_of_lt_of_le hn a.size) with hb | hb
    · exact hb ▸ a.teardown n hn
    · exact .inr hb

/-- Only tables with neither observers nor switches nor gates have changed. -/
theorem Alike.of_tables {h h' : Heap F C} (ho : h'.objects = h.objects) (hs : h'.subjects = h.subjects)
    (hw : h'.switches = h.switches) (hg : h'.gates = h.gates) (hh : h.Retains h') : h.Alike h' where
  roster n := by cases n <;> simp only [Heap.roster, handlers, ho, hs]
  nextId n := by cases n <;> simp only [Heap.nextId, nextHandler, ho, hs]
  switches := hw
  gates := hg
  retains := hh

theorem alike_put (o : ObjectId) (p : String) (v : Value) : h.Alike (h.put o p v) where
  roster n := by
    cases n with
    | object o' => simp only [roster, handlers_put]
    | _ => rfl
  nextId n := by
    cases n with
    | object o' => exact nextHandler_put ..
    | _ => rfl
  switches := rfl
  gates := rfl
  retains := .of_eq rfl

theorem alike_newObject (typeName : String) (capability : Capability) :
    h.Alike (h.newObject typeName capability).2 where
  roster n := by
    cases n with
    | object o => simp only [roster, handlers, newObject, Array.getElem?_push]; split <;> simp_all
    | _ => rfl
  nextId n := by
    cases n with
    | object o => simp only [nextId, nextHandler, newObject, Array.getElem?_push]; split <;> simp_all
    | _ => rfl
  switches := rfl
  gates := rfl
  retains := .of_eq rfl

theorem alike_newSubject : h.Alike h.newSubject.2 where
  roster n := by
    cases n with
    | subject s => simp only [roster, newSubject, Array.getElem?_push]; split <;> simp_all
    | _ => rfl
  nextId n := by
    cases n with
    | subject s => simp only [nextId, newSubject, Array.getElem?_push]; split <;> simp_all
    | _ => rfl
  switches := rfl
  gates := rfl
  retains := .of_eq rfl

section Cells
variable (i n : Nat) (v : Value) (l : List (Option Value)) (x : Composite C)

theorem alike_newStream (y : Stream F) : h.Alike (h.newStream y).2 :=
  .of_tables rfl rfl rfl rfl (.of_eq rfl)

theorem alike_newCounter : h.Alike (h.newCounter n).2 :=
  .of_tables rfl rfl rfl rfl (.of_eq rfl)

theorem alike_setCounter : h.Alike (h.setCounter i n) :=
  .of_tables rfl rfl rfl rfl (.of_eq rfl)

theorem alike_newMemory : h.Alike h.newMemory.2 :=
  .of_tables rfl rfl rfl rfl (.of_eq rfl)

theorem alike_setMemory : h.Alike (h.setMemory i v) :=
  .of_tables rfl rfl rfl rfl (.of_eq rfl)

theorem alike_newJoin : h.Alike (h.newJoin n).2 :=
  .of_tables rfl rfl rfl rfl (.of_eq rfl)

theorem alike_setJoin : h.Alike (h.setJoin i l) :=
  .of_tables rfl rfl rfl rfl (.of_eq rfl)

theorem alike_setComposite : h.Alike (h.setComposite i x) :=
  .of_tables rfl rfl rfl rfl (.of_eq rfl)

theorem alike_newComposite : h.Alike h.newComposite.2 :=
  .of_tables rfl rfl rfl rfl (.of_eq rfl)

theorem alike_newScheduler (y : Scheduler F C) : h.Alike (h.newScheduler y).2 :=
  .of_tables rfl rfl rfl rfl (.of_eq rfl)

theorem alike_newHandle (t : Teardown C) : h.Alike (h.newHandle t).2 :=
  .of_tables rfl rfl rfl rfl ⟨by simp [newHandle], fun _ hn => .inl (h.teardown_newHandle t hn)⟩

theorem alike_clearHandle : h.Alike (h.clearHandle i) :=
  .of_tables rfl rfl rfl rfl ⟨by simp [clearHandle], fun n _ => by
    rw [h.teardown_clearHandle i n]
    split
    · exact .inr rfl
    · exact .inl rfl⟩

theorem alike_setTasks (l : List (Task F C)) : h.Alike (h.setTasks i l) :=
  .of_tables rfl rfl rfl rfl (.of_eq rfl)

end Cells

theorem enrolls_addHandler {o : ObjectId} (ho : o < h.objects.size) (t : Timing) (p : String)
    (reports : Bool) (y : Observer F C) :
    h.Enrolls (.object o) y (h.addHandler o t p reports y).2 where
  roster m := by
    cases m with
    | object o' =>
      simp only [roster, handlers_addHandler _ _ _ _ _ _ _ ho, Node.object.injEq, nextId]
      split <;> simp
    | _ => rfl
  nextId m := by
    cases m with
    | object o' => simp only [nextId, nextHandler_addHandler _ _ _ _ _ _ _ ho, Node.object.injEq]
    | _ => rfl
  switches := rfl
  gates := rfl
  handles := rfl

theorem enrolls_addObserver {s : SubjectId} (hs : s < h.subjects.size) (y : Observer F C) :
    h.Enrolls (.subject s) y (h.addObserver s y).2 where
  roster m := by
    cases m with
    | subject s' =>
      simp only [roster, nextId, addObserver, Array.getElem?_modify, Node.subject.injEq]
      by_cases he : s = s'
      · subst he
        simp [hs]
      · simp [he, Ne.symm he]
    | _ => rfl
  nextId m := by
    cases m with
    | subject s' =>
      simp only [nextId, addObserver, Array.getElem?_modify, Node.subject.injEq]
      by_cases he : s = s'
      · subst he
        simp [hs]
      · simp [he, Ne.symm he]
    | _ => rfl
  switches := rfl
  gates := rfl
  handles := rfl

/-- Registering with a subject that does not exist does nothing. -/
theorem addObserver_of_le {s : SubjectId} (hs : h.subjects.size ≤ s) (y : Observer F C) :
    (h.addObserver s y).2 = h := by
  simp only [addObserver, modify_of_size_le hs]

theorem strikes_removeHandler (o : ObjectId) (id : Nat) :
    h.Strikes (.object o) id (h.removeHandler o id) where
  roster m := by
    cases m with
    | object o' =>
      simp only [roster, handlers_removeHandler, Node.object.injEq]
      split <;> simp [List.filter_map, Function.comp_def]
    | _ => rfl
  nextId m := by
    cases m with
    | object o' => exact nextHandler_removeHandler ..
    | _ => rfl
  switches := rfl
  gates := rfl
  handles := rfl

theorem strikes_removeObserver (s : SubjectId) (id : Nat) :
    h.Strikes (.subject s) id (h.removeObserver s id) where
  roster m := by
    cases m with
    | subject s' =>
      simp only [roster, removeObserver, Array.getElem?_modify, Node.subject.injEq]
      by_cases he : s = s'
      · subst he
        cases h.subjects[s]? <;> simp
      · simp [he, Ne.symm he]
    | _ => rfl
  nextId m := by
    cases m with
    | subject s' =>
      simp only [nextId, removeObserver, Array.getElem?_modify]
      split
      · cases h.subjects[s']? <;> rfl
      · rfl
    | _ => rfl
  switches := rfl
  gates := rfl
  handles := rfl

theorem gateOpen_newGate (g : Nat) :
    h.newGate.2.gateOpen g = if g = h.gates.size then true else h.gateOpen g := by
  simp only [gateOpen, newGate, Array.getElem?_push]
  split <;> simp_all

theorem gateOpen_shutGate (i g : Nat) :
    (h.shutGate i).gateOpen g = if g = i then false else h.gateOpen g := by
  simp only [gateOpen, shutGate, Array.getElem?_setIfInBounds]
  by_cases hg : i = g
  · subst hg
    by_cases hi : i < h.gates.size <;> simp [hi]
  · simp [hg, Ne.symm hg]

/-- A switch that does not exist counts as stopped. -/
theorem lt_size_of_not_stopped {i : Nat} (hs : (h.switch i).stopped = false) : i < h.switches.size := by
  refine Nat.lt_of_not_le fun hi => ?_
  simp [switch, Array.getElem?_eq_none hi] at hs

/-- Nor does it have an inner subscription. -/
theorem lt_size_of_current {i : Nat} {c : Teardown C} (hc : (h.switch i).current = some c) :
    i < h.switches.size := by
  refine Nat.lt_of_not_le fun hi => ?_
  simp [switch, Array.getElem?_eq_none hi] at hc

end Operations

/-- What there is in the one heap and not in an earlier one. -/
structure Arrivals (F C : Type) where
  observer : Observer F C → Prop
  switch : Nat → Prop
  gate : Nat → Prop

/-- Whatever there may be. -/
def Arrivals.any : Arrivals F C := ⟨fun _ => True, fun _ => True, fun _ => True⟩

def Arrivals.none : Arrivals F C := ⟨fun _ => False, fun _ => False, fun _ => False⟩

/-- From an earlier heap to a later one: the same rosters but for who has left and who has arrived under
new ids, and nothing that has been stopped or shut runs again. -/
structure Later (N : Arrivals F C) (h h' : Heap F C) : Prop where
  nextId : ∀ n, h.nextId n ≤ h'.nextId n
  entries : ∀ n, ∀ e ∈ h'.roster n, e ∈ h.roster n ∨ h.nextId n ≤ e.1 ∧ N.observer e.2
  switches : h.switches.size ≤ h'.switches.size
  running : ∀ i, (h'.switch i).stopped = false →
    (h.switch i).stopped = false ∨ h.switches.size ≤ i ∧ N.switch i
  gates : h.gates.size ≤ h'.gates.size
  openGates : ∀ g, h'.gateOpen g = true → h.gateOpen g = true ∨ h.gates.size ≤ g ∧ N.gate g
  retains : h.Retains h'

namespace Later
variable {N : Arrivals F C} {h h' h'' : Heap F C}

theorem refl (N : Arrivals F C) (h : Heap F C) : Later N h h :=
  ⟨fun _ => Nat.le_refl _, fun _ _ he => .inl he, Nat.le_refl _, fun _ hs => .inl hs, Nat.le_refl _,
    fun _ hg => .inl hg, .of_eq rfl⟩

theorem trans (a : Later N h h') (b : Later N h' h'') : Later N h h'' where
  nextId n := Nat.le_trans (a.nextId n) (b.nextId n)
  entries n e he := by
    rcases b.entries n e he with he | ⟨hn, ho⟩
    · exact a.entries n e he
    · exact .inr ⟨Nat.le_trans (a.nextId n) hn, ho⟩
  switches := Nat.le_trans a.switches b.switches
  running i hs := (b.running i hs).elim (a.running i) fun ⟨hi, hN⟩ =>
    .inr ⟨Nat.le_trans a.switches hi, hN⟩
  gates := Nat.le_trans a.gates b.gates
  openGates g hg := (b.openGates g hg).elim (a.openGates g) fun ⟨hi, hN⟩ =>
    .inr ⟨Nat.le_trans a.gates hi, hN⟩
  retains := a.retains.trans b.retains

theorem mono {N' : Arrivals F C} (a : Later N h h') (ho : ∀ y, N.observer y → N'.observer y)
    (hs : ∀ i, N.switch i → N'.switch i) (hg : ∀ g, N.gate g → N'.gate g) : Later N' h h' :=
  ⟨a.nextId, fun n e he => (a.entries n e he).imp_right fun ⟨hn, hy⟩ => ⟨hn, ho _ hy⟩, a.switches,
    fun i hi => (a.running i hi).imp_right fun ⟨hn, hN⟩ => ⟨hn, hs i hN⟩, a.gates,
    fun g hi => (a.openGates g hi).imp_right fun ⟨hn, hN⟩ => ⟨hn, hg g hN⟩, a.retains⟩

/-- Who is on a roster of the later heap under an old id was there already. -/
theorem old (a : Later N h h') {n : Node} {e : Nat × Observer F C} (he : e ∈ h'.roster n)
    (hid : e.1 < h.nextId n) : e ∈ h.roster n := by
  rcases a.entries n e he with he | ⟨hn, -⟩
  · exact he
  · exact absurd hid (Nat.not_lt_of_le hn)

/-- Only the rosters and what handles hold have changed. -/
theorem of_rosters (hn : ∀ n, h.nextId n ≤ h'.nextId n)
    (he : ∀ n, ∀ e ∈ h'.roster n, e ∈ h.roster n ∨ h.nextId n ≤ e.1 ∧ N.observer e.2)
    (hs : h'.switches = h.switches) (hg : h'.gates = h.gates) (hr : h.Retains h') : Later N h h' where
  nextId := hn
  entries := he
  switches := Nat.le_of_eq (by rw [hs])
  running i hi := .inl (by rwa [switch, hs] at hi)
  gates := Nat.le_of_eq (by rw [hg])
  openGates g hi := .inl (by rwa [gateOpen, hg] at hi)
  retains := hr

theorem of_alike (a : h.Alike h') : Later N h h' :=
  .of_rosters (fun n => Nat.le_of_eq (a.nextId n).symm) (fun n _ he => .inl (a.roster n ▸ he)) a.switches a.gates
    a.retains

theorem of_enrolls {n : Node} {y : Observer F C} (a : h.Enrolls n y h') (hy : N.observer y) :
    Later N h h' := by
  refine .of_rosters a.le_nextId (fun m e he => ?_) a.switches a.gates (.of_eq a.handles)
  obtain he | ⟨rfl, rfl⟩ := a.mem_roster he
  · exact .inl he
  · exact .inr ⟨Nat.le_refl _, hy⟩

theorem addHandler (h : Heap F C) (o : ObjectId) (t : Timing) (p : String) (reports : Bool)
    {y : Observer F C} (hy : N.observer y) : Later N h (h.addHandler o t p reports y).2 := by
  by_cases ho : o < h.objects.size
  · exact of_enrolls (h.enrolls_addHandler ho t p reports y) hy
  · rw [h.addHandler_of_le _ _ _ _ _ (Nat.le_of_not_lt ho)]
    exact .refl N h

theorem addObserver (h : Heap F C) (s : SubjectId) {y : Observer F C} (hy : N.observer y) :
    Later N h (h.addObserver s y).2 := by
  by_cases hs : s < h.subjects.size
  · exact of_enrolls (h.enrolls_addObserver hs y) hy
  · rw [h.addObserver_of_le (Nat.le_of_not_lt hs)]
    exact .refl N h

theorem of_strikes {n : Node} {id : Nat} (a : h.Strikes n id h') : Later N h h' :=
  .of_rosters (fun m => Nat.le_of_eq (a.nextId m).symm) (fun _ _ he => .inl (a.mem_roster.1 he).1) a.switches a.gates
    (.of_eq a.handles)

/-- A cell of a switch may change, but not so that it runs again. -/
theorem setSwitch (N : Arrivals F C) (h : Heap F C) (i : Nat) {x : Switch C}
    (hx : (h.switch i).stopped = true → x.stopped = true) : Later N h (h.setSwitch i x) where
  nextId _ := Nat.le_refl _
  entries _ _ he := .inl he
  switches := Nat.le_of_eq (size_setSwitch ..).symm
  running j hs := by
    rw [switch_setSwitch] at hs
    split at hs
    · next hj =>
      rw [hj.1]
      exact .inl (by cases hi : (h.switch i).stopped <;> simp_all)
    · exact .inl hs
  gates := Nat.le_refl _
  openGates _ hg := .inl hg
  retains := .of_eq rfl

theorem newSwitch (h : Heap F C) (hN : N.switch h.switches.size) : Later N h h.newSwitch.2 where
  nextId _ := Nat.le_refl _
  entries _ _ he := .inl he
  switches := by simp [Heap.newSwitch]
  running j hs := by
    rw [switch_newSwitch] at hs
    split at hs
    · next hj => exact .inr ⟨Nat.le_of_eq hj.symm, hj ▸ hN⟩
    · exact .inl hs
  gates := Nat.le_refl _
  openGates _ hg := .inl hg
  retains := .of_eq rfl

theorem newGate (h : Heap F C) (hN : N.gate h.gates.size) : Later N h h.newGate.2 where
  nextId _ := Nat.le_refl _
  entries _ _ he := .inl he
  switches := Nat.le_refl _
  running _ hs := .inl hs
  gates := by simp [Heap.newGate]
  openGates g hg := by
    rw [gateOpen_newGate] at hg
    split at hg
    · next hj => exact .inr ⟨Nat.le_of_eq hj.symm, hj ▸ hN⟩
    · exact .inl hg
  retains := .of_eq rfl

theorem shutGate (N : Arrivals F C) (h : Heap F C) (i : Nat) : Later N h (h.shutGate i) where
  nextId _ := Nat.le_refl _
  entries _ _ he := .inl he
  switches := Nat.le_refl _
  running _ hs := .inl hs
  gates := Nat.le_of_eq (by simp [Heap.shutGate])
  openGates g hg := by
    rw [gateOpen_shutGate] at hg
    split at hg
    · cases hg
    · exact .inl hg
  retains := .of_eq rfl

end Later

end Heap

end DataBinding
