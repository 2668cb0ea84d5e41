import DataBinding.Proofs.Machine.Alive
import DataBinding.Proofs.Heap.Tables
import DataBinding.Proofs.Value.Equality
/-!
# What reading and subscribing leave as it is

Two heaps agree if the same is read from them (`Heap.Agrees`). From a heap to one in which somebody has
subscribed to given properties, only handlers for these are added, and all old cells stay as they were
(`Heap.Tapped`). An assignment changes one property and nothing else (`Heap.Assigned`).
-/

namespace DataBinding

/-- The object with some handlers more. -/
def Object.enlisting {F C : Type} (x : Object F C) (new : List (Handler F C)) : Object F C :=
  { x with handlers := x.handlers ++ new, nextHandler := x.nextHandler + new.length }

end DataBinding

namespace DataBinding.Heap

variable {F C : Type}

/-! ## Definitions -/

/-- The properties that are read along segments from a value. -/
def readsFrom (h : Heap F C) (v : Value) : List Segment → List (ObjectId × String)
  | [] => []
  | s :: rest =>
    match v with
    | .object o => (o, s.property) :: h.readsFrom (h.read o s.property) rest
    | _ => []

/-- There are the same objects, and their properties hold the same. -/
structure Agrees (h h' : Heap F C) : Prop where
  size : h'.objects.size = h.objects.size
  get : ∀ o p, h'.get o p = h.get o p

/-- Somebody may have subscribed to these properties, with new cells. -/
structure Tapped (taps : List (ObjectId × String)) (h h' : Heap F C) : Prop where
  objects : ∀ o, ∃ new : List (Handler F C), (∀ x ∈ new, (o, x.property) ∈ taps) ∧
    h'.objects[o]? = h.objects[o]?.map (·.enlisting new)
  subjects : h'.subjects = h.subjects
  schedulers : h'.schedulers = h.schedulers
  streams : h'.streams = h.streams
  counters : h'.counters = h.counters
  joins : h'.joins = h.joins
  gates : h'.gates = h.gates
  switches : h.switches.size ≤ h'.switches.size
  switch : ∀ i < h.switches.size, h'.switch i = h.switch i
  memories : h.memories.size ≤ h'.memories.size
  memory : ∀ i < h.memories.size, h'.memory i = h.memory i

/-- The property, if there is one, has been assigned this value: no other one has changed, and it has
been stored once, or not at all. -/
structure Assigned (h : Heap F C) (v : Value) (e : Option (ObjectId × String))
    (log : List (ObjectId × String)) (h' : Heap F C) : Prop where
  size : h'.objects.size = h.objects.size
  stored : log = [] ∨ ∃ x, e = some x ∧ log = [x]
  others : ∀ o p, e ≠ some (o, p) → h'.get o p = h.get o p
  get : ∀ o p, h'.get o p = h.get o p ∨ h'.get o p = v
  equal : ∀ o p, e = some (o, p) → v.eqv v = true → (h'.get o p).eqv v = true

variable {h h' h'' : Heap F C} {taps taps' : List (ObjectId × String)} {o : ObjectId} {p : String}
  {v : Value}

/-! ## Agreement -/

namespace Agrees

theorem refl (h : Heap F C) : h.Agrees h := ⟨rfl, fun _ _ => rfl⟩

theorem trans (ha : h.Agrees h') (ha' : h'.Agrees h'') : h.Agrees h'' :=
  ⟨ha'.size.trans ha.size, fun o p => (ha'.get o p).trans (ha.get o p)⟩

theorem of_objects (ho : h'.objects = h.objects) : h.Agrees h' :=
  ⟨by rw [ho], fun _ _ => by simp only [Heap.get, ho]⟩

theorem closed (ha : h.Agrees h') (hc : h.Closed) : h'.Closed := hc.congr ha.size ha.get

theorem follow (ha : h.Agrees h') (o : ObjectId) (l : List Segment) : h'.follow o l = h.follow o l := by
  induction l generalizing o with
  | nil => rfl
  | cons s rest ih =>
    simp only [Heap.follow, ha.get]
    split
    · exact ih _
    · rfl

theorem target? (ha : h.Agrees h') (root : ObjectId) (path : Path) :
    h'.target? root path = h.target? root path := by
  simp only [Heap.target?, ha.follow]

end Agrees

/-! ## Subscribing -/

namespace Tapped

theorem of_objects (ho : h'.objects = h.objects) (o : ObjectId) : ∃ new : List (Handler F C),
    (∀ x ∈ new, (o, x.property) ∈ taps) ∧ h'.objects[o]? = h.objects[o]?.map (·.enlisting new) := by
  refine ⟨[], nofun, ?_⟩
  rw [ho]
  cases h.objects[o]? <;> simp [Object.enlisting]

theorem refl (h : Heap F C) : h.Tapped [] h where
  objects := of_objects rfl
  subjects := rfl
  schedulers := rfl
  streams := rfl
  counters := rfl
  joins := rfl
  gates := rfl
  switches := Nat.le_refl _
  switch _ _ := rfl
  memories := Nat.le_refl _
  memory _ _ := rfl

theorem trans (ht : h.Tapped taps h') (ht' : h'.Tapped taps' h'') : h.Tapped (taps ++ taps') h'' where
  objects o := by
    obtain ⟨new, hnew, he⟩ := ht.objects o
    obtain ⟨new', hnew', he'⟩ := ht'.objects o
    refine ⟨new ++ new', List.forall_mem_append.2 ⟨fun x hx => List.mem_append_left _ (hnew x hx), fun x hx =>
      List.mem_append_right _ (hnew' x hx)⟩, ?_⟩
    rw [he', he]
    cases h.objects[o]? <;> simp [Object.enlisting, Nat.add_assoc]
  subjects := ht'.subjects.trans ht.subjects
  schedulers := ht'.schedulers.trans ht.schedulers
  streams := ht'.streams.trans ht.streams
  counters := ht'.counters.trans ht.counters
  joins := ht'.joins.trans ht.joins
  gates := ht'.gates.trans ht.gates
  switches := Nat.le_trans ht.switches ht'.switches
  switch i hi := (ht'.switch i (Nat.lt_of_lt_of_le hi ht.switches)).trans (ht.switch i hi)
  memories := Nat.le_trans ht.memories ht'.memories
  memory i hi := (ht'.memory i (Nat.lt_of_lt_of_le hi ht.memories)).trans (ht.memory i hi)

theorem mono (ht : h.Tapped taps h') (hs : taps ⊆ taps') : h.Tapped taps' h' :=
  { ht with
    objects := fun o => (ht.objects o).imp fun _ hnew => ⟨fun x hx => hs (hnew.1 x hx), hnew.2⟩ }

theorem agrees (ht : h.Tapped taps h') : h.Agrees h' where
  size := by
    have hle : ∀ o, h'.objects.size ≤ o ↔ h.objects.size ≤ o := fun o => by
      obtain ⟨new, -, he⟩ := ht.objects o
      rw [← Array.getElem?_eq_none_iff, ← Array.getElem?_eq_none_iff, he, Option.map_eq_none_iff]
    exact Nat.le_antisymm ((hle _).2 (Nat.le_refl _)) ((hle _).1 (Nat.le_refl _))
  get o p := by
    obtain ⟨new, -, he⟩ := ht.objects o
    rw [get, get, he]
    cases h.objects[o]? <;> rfl

/-- Handlers are added behind those there are. -/
theorem exists_handlers (ht : h.Tapped taps h') (o : ObjectId) : ∃ new : List (Handler F C),
    (∀ x ∈ new, (o, x.property) ∈ taps) ∧ h'.handlers o = h.handlers o ++ new := by
  obtain ⟨new, hnew, he⟩ := ht.objects o
  rw [handlers, handlers, he]
  cases h.objects[o]? with
  | none => exact ⟨[], List.forall_mem_nil _, rfl⟩
  | some x => exact ⟨new, hnew, rfl⟩

/-- Nobody registers with an object of which no property is subscribed to. -/
theorem handlers_of_not_mem (ht : h.Tapped taps h') (ho : ∀ p, (o, p) ∉ taps) : h'.handlers o = h.handlers o := by
  obtain ⟨new, hnew, he⟩ := ht.exists_handlers o
  obtain rfl : new = [] := List.eq_nil_iff_forall_not_mem.2 fun x hx => ho _ (hnew x hx)
  rwa [List.append_nil] at he

/-- Of a property that is not subscribed to the same hear as before. -/
theorem heard (ht : h.Tapped taps h') (hnames : ∀ x ∈ taps, x.2 ≠ "") (t : Timing) (hp : (o, p) ∉ taps) :
    h'.handlersFor o t p = h.handlersFor o t p := by
  have hsupports : h'.supports o t = h.supports o t := by
    obtain ⟨new, -, he⟩ := ht.objects o
    rw [supports, supports, he]
    cases h.objects[o]? <;> rfl
  obtain ⟨new, hnew, he⟩ := ht.exists_handlers o
  have hother : new.filter (fun x => x.timing == t && (x.property.isEmpty || x.property == p)) = [] := by
    refine List.filter_eq_nil_iff.2 fun x hx => ?_
    have hname : x.property ≠ "" := hnames _ (hnew x hx)
    have hne : x.property ≠ p := fun hxp => hp (hxp ▸ hnew x hx)
    simp [hname, hne]
  rw [handlersFor_eq, handlersFor_eq, hsupports, he, List.filter_append, hother, List.append_nil]

/-- A new switch is taken, and later set. -/
theorem setSwitch (ht : h.Tapped taps h') {i : Nat} (hi : h.switches.size ≤ i) (x : Switch C) :
    h.Tapped taps (h'.setSwitch i x) :=
  { ht with
    switches := by simpa using ht.switches
    switch := fun j hj => by
      rw [switch_setSwitch_of_ne _ _ _ _ (by omega)]
      exact ht.switch j hj }

/-- A new memory is taken, and later filled. -/
theorem setMemory (ht : h.Tapped taps h') {i : Nat} (hi : h.memories.size ≤ i) (v : Value) :
    h.Tapped taps (h'.setMemory i v) :=
  { ht with
    memories := by simpa [Heap.setMemory] using ht.memories
    memory := fun j hj => by
      rw [← ht.memory j hj]
      simp only [Heap.memory, Heap.setMemory, Array.getElem?_setIfInBounds_ne (by omega : i ≠ j)] }

end Tapped

theorem tapped_newSwitch (h : Heap F C) : h.Tapped [] h.newSwitch.2 :=
  { Tapped.refl h with
    switches := by simp [newSwitch]
    switch := fun i hi => by rw [switch_newSwitch, if_neg (by omega)] }

theorem tapped_newMemory (h : Heap F C) : h.Tapped [] h.newMemory.2 :=
  { Tapped.refl h with
    memories := by simp [newMemory]
    memory := fun i hi => by simp [memory, newMemory, Array.getElem?_push_lt hi, hi] }

/-- Somebody registers for a property. -/
theorem tapped_addHandler (h : Heap F C) (o : ObjectId) (t : Timing) (p : String) (reports : Bool)
    (x : Observer F C) : h.Tapped [(o, p)] (h.addHandler o t p reports x).2 := by
  refine { (Tapped.refl h).mono (List.nil_subset [(o, p)]) with objects := fun a => ?_ }
  by_cases ha : a = o
  · subst ha
    refine ⟨[⟨h.nextHandler a, t, p, reports, x⟩], by simp, ?_⟩
    simp only [addHandler, nextHandler, Array.getElem?_modify, if_true]
    cases h.objects[a]? <;> rfl
  · refine ⟨[], List.forall_mem_nil _, ?_⟩
    simp only [addHandler, Array.getElem?_modify, Ne.symm ha, if_false]
    cases h.objects[a]? <;> simp [Object.enlisting]

/-! ## Assigning -/

/-- A heap is closed if all that is listed for its objects exists. -/
theorem closed_of_forall (ho : ∀ x ∈ h.objects.toList, ∀ q ∈ x.properties,
    ∀ b ∈ q.2.object?, b < h.objects.size) : h.Closed := by
  intro a p b hb
  obtain ⟨x, hx, hm⟩ := h.listed_of_get hb
  exact ho x (Array.mem_toList_iff.2 (Array.mem_of_getElem? hx)) _ hm b rfl

/-- In a closed heap properties lead to objects that exist. -/
theorem Closed.follow_lt (hc : h.Closed) {l : List Segment} {b : ObjectId} (ho : o < h.objects.size)
    (hl : h.follow o l = some b) : b < h.objects.size := by
  induction l generalizing o with
  | nil => exact Option.some.inj hl ▸ ho
  | cons s rest ih =>
    simp only [follow] at hl
    split at hl
    · next next he => exact ih (hc _ _ _ he) hl
    · cases hl

theorem Closed.target?_lt (hc : h.Closed) {root : ObjectId} {path : Path} (hr : root < h.objects.size)
    (he : h.target? root path = some (o, p)) : o < h.objects.size := by
  unfold target? at he
  split at he
  · cases he
  · obtain ⟨b, hb, heq⟩ := Option.map_eq_some_iff.1 he
    cases heq
    exact hc.follow_lt hr hb

/-- There is nothing to assign. -/
theorem assigned_none (h : Heap F C) (v : Value) : h.Assigned v none [] h :=
  ⟨rfl, .inl rfl, fun _ _ _ => rfl, fun _ _ => .inl rfl, nofun⟩

/-- An equal value is there already. -/
theorem assigned_same (he : (h.get o p).eqv v = true) : h.Assigned v (some (o, p)) [] h := by
  refine ⟨rfl, .inl rfl, fun _ _ _ => rfl, fun _ _ => .inl rfl, ?_⟩
  rintro _ _ ⟨⟩ -
  exact he

theorem assigned_put (ho : o < h.objects.size) :
    h.Assigned v (some (o, p)) [(o, p)] (h.put o p v) := by
  refine ⟨size_put .., .inr ⟨_, rfl, rfl⟩, fun a q hn => ?_, fun a q => ?_, ?_⟩
  · rw [get_put _ _ _ _ _ _ ho, if_neg fun he => hn (by rw [he.1, he.2])]
  · rw [get_put _ _ _ _ _ _ ho]
    split
    · exact .inr rfl
    · exact .inl rfl
  · rintro _ _ ⟨⟩ hv
    rw [get_put _ _ _ _ _ _ ho, if_pos ⟨rfl, rfl⟩]
    exact hv

namespace Assigned

variable {e : Option (ObjectId × String)} {log : List (ObjectId × String)}

theorem congr {h₁ h₂ : Heap F C} (ha : h₁.Assigned v e log h₂) (hb : h.Agrees h₁) (hc : h₂.Agrees h') :
    h.Assigned v e log h' where
  size := hc.size.trans (ha.size.trans hb.size)
  stored := ha.stored
  others o p hn := (hc.get o p).trans ((ha.others o p hn).trans (hb.get o p))
  get o p := by
    rw [hc.get, ← hb.get]
    exact ha.get o p
  equal o p he hv := by
    rw [hc.get]
    exact ha.equal o p he hv

theorem closed (ha : h.Assigned v e log h') (hc : h.Closed)
    (hv : ∀ b, v = .object b → b < h.objects.size) : h'.Closed := by
  intro a q b hb
  rw [ha.size]
  obtain he | he := ha.get a q
  · exact hc a q b (he.symm.trans hb)
  · exact hv b (he.symm.trans hb)

end Assigned

/-! ## What is read along a path -/

theorem readFrom_cons (h : Heap F C) (v : Value) (s : Segment) (l : List Segment) :
    h.readFrom v (s :: l) = h.readFrom (h.readFrom v [s]) l := by
  cases v with
  | object => rfl
  | _ => cases l <;> rfl

theorem readsFrom_cons (h : Heap F C) (v : Value) (s : Segment) (l : List Segment) :
    h.readsFrom v (s :: l) = h.readsFrom v [s] ++ h.readsFrom (h.readFrom v [s]) l := by
  cases v with
  | object => rfl
  | _ => cases l <;> rfl

theorem Agrees.readFrom (ha : h.Agrees h') (v : Value) (l : List Segment) :
    h'.readFrom v l = h.readFrom v l := readFrom_congr ha.get v l

theorem Agrees.readsFrom (ha : h.Agrees h') (v : Value) (l : List Segment) :
    h'.readsFrom v l = h.readsFrom v l := by
  induction l generalizing v with
  | nil => rfl
  | cons s rest ih =>
    cases v with
    | object o =>
      have hr : h'.read o s.property = h.read o s.property := by simp only [read, ha.get]
      simp only [Heap.readsFrom, hr, ih]
    | _ => rfl

/-- The properties that are read are named by the segments. -/
theorem name_of_mem_readsFrom {l : List Segment} (hl : ∀ s ∈ l, s.property ≠ "") {e : ObjectId × String}
    (he : e ∈ h.readsFrom v l) : e.2 ≠ "" := by
  induction l generalizing v with
  | nil => cases he
  | cons s rest ih =>
    obtain ⟨hs, hrest⟩ := List.forall_mem_cons.1 hl
    cases v with
    | object o =>
      rcases List.mem_cons.1 he with rfl | he
      · exact hs
      · exact ih hrest he
    | _ => cases he

/-- Where the properties read hold the same, the same is read. -/
theorem readFrom_of_readsFrom (l : List Segment) (hl : ∀ s ∈ l, s.property ≠ "")
    (hg : ∀ x ∈ h.readsFrom v l, h'.get x.1 x.2 = h.get x.1 x.2) : h'.readFrom v l = h.readFrom v l := by
  induction l generalizing v with
  | nil => rfl
  | cons s rest ih =>
    obtain ⟨hs, hrest⟩ := List.forall_mem_cons.1 hl
    cases v with
    | object o =>
      obtain ⟨ho, hg⟩ := List.forall_mem_cons.1 hg
      have hr : h'.read o s.property = h.read o s.property := by simpa [read, hs] using ho
      simp only [readFrom, hr, ih hrest hg]
    | _ => rfl

end DataBinding.Heap
