import DataBinding.Proofs.Wrapped.Relation
/-!
# Operations on both heaps

Where both runs do the same to their heaps, the second heap still is the first one with wrapped values
(`Heap.Wraps.addHandler` and the like). The join of the paths is written in step (`Heap.Wraps.fill`).
-/

namespace DataBinding.Heap

variable {F C S : Type} {g : Wrapping F C S} {h h' h₁ h₁' : Heap F C}

theorem WrapsJoins.of_joins (hj : h.WrapsJoins g h') (he : h₁.joins = h.joins) (he' : h₁'.joins = h'.joins) :
    h₁.WrapsJoins g h₁' := by
  have hjoin : ∀ j, h₁.join j = h.join j := fun j => by simp only [join, he]
  have hjoin' : ∀ j, h₁'.join j = h'.join j := fun j => by simp only [join, he']
  constructor
  · rw [he, he', hj.size]
  · intro j hne
    rw [hjoin, hjoin', hj.others j hne]
  · intro j hin
    rw [he]
    exact hj.below j hin
  · intro j hin
    rw [hjoin, hj.length j hin]
  · intro j hin
    rw [hjoin, hjoin', hj.wrapped j hin]

namespace Wraps

variable (hw : h.Wraps g h')
include hw

/-- Only cells have changed. -/
theorem of_cells (ho : h.OnlyCells h₁) (ho' : h'.OnlyCells h₁') (hc : h₁.SameCells h₁') (hj : h₁.WrapsJoins g h₁') :
    h₁.Wraps g h₁' where
  objects o := by
    rw [ho.objects, ho'.objects]
    exact hw.objects o
  subjects j := by
    rw [ho.subjects, ho'.subjects]
    exact hw.subjects j
  schedulers i := by
    rw [ho.schedulers, ho'.schedulers]
    exact hw.schedulers i
  cells := hc
  joins := hj

/-- Only cells other than joins have changed. -/
theorem of_tables (ho : h.OnlyCells h₁) (he : h₁.joins = h.joins) (ho' : h'.OnlyCells h₁') (he' : h₁'.joins = h'.joins)
    (hc : h₁.SameCells h₁') : h₁.Wraps g h₁' :=
  hw.of_cells ho ho' hc (hw.joins.of_joins he he')

/-! ## Objects -/

theorem put (o : ObjectId) (p : String) (v : Value) : (h.put o p v).Wraps g (h'.put o p v) where
  objects := rel_modify hw.objects o fun x y hr =>
    ⟨hr.typeName, hr.capability, by simp only [Object.put, hr.properties], hr.handlers, hr.nextHandler⟩
  subjects := hw.subjects
  schedulers := hw.schedulers
  cells := { hw.cells with }
  joins := hw.joins.of_joins rfl rfl

theorem fst_addHandler (o : ObjectId) (t : Timing) (p : String) (r : Bool) (x y : Observer F C) :
    (h'.addHandler o t p r y).1 = (h.addHandler o t p r x).1 := by
  simp only [Heap.addHandler, hw.nextHandler]

theorem addHandler (o : ObjectId) (t : Timing) (p : String) (r : Bool) {x y : Observer F C} (hx : x.Wraps g y) :
    (h.addHandler o t p r x).2.Wraps g (h'.addHandler o t p r y).2 where
  objects := by
    simp only [Heap.addHandler, hw.nextHandler]
    exact rel_modify hw.objects o fun _ _ hr => ⟨hr.typeName, hr.capability, hr.properties,
      List.rel_append hr.handlers (.cons ⟨rfl, rfl, rfl, rfl, hx⟩ .nil), rfl⟩
  subjects := hw.subjects
  schedulers := hw.schedulers
  cells := { hw.cells with }
  joins := hw.joins.of_joins rfl rfl

theorem removeHandler (o : ObjectId) (id : Nat) : (h.removeHandler o id).Wraps g (h'.removeHandler o id) where
  objects := rel_modify hw.objects o fun _ _ hr => ⟨hr.typeName, hr.capability, hr.properties,
    List.rel_filter (fun _ _ hxy => by simp only [hxy.id]) hr.handlers, hr.nextHandler⟩
  subjects := hw.subjects
  schedulers := hw.schedulers
  cells := { hw.cells with }
  joins := hw.joins.of_joins rfl rfl

/-! ## Subjects and schedulers -/

theorem fst_addObserver (j : SubjectId) (x y : Observer F C) : (h'.addObserver j y).1 = (h.addObserver j x).1 := by
  simp only [Heap.addObserver, hw.nextObserver]

theorem addObserver (j : SubjectId) {x y : Observer F C} (hx : x.Wraps g y) :
    (h.addObserver j x).2.Wraps g (h'.addObserver j y).2 where
  objects := hw.objects
  subjects := by
    simp only [Heap.addObserver, hw.nextObserver]
    exact rel_modify hw.subjects j fun _ _ hr => ⟨List.rel_append hr.observers (.cons ⟨rfl, hx⟩ .nil), rfl⟩
  schedulers := hw.schedulers
  cells := { hw.cells with }
  joins := hw.joins.of_joins rfl rfl

theorem removeObserver (j : SubjectId) (id : Nat) : (h.removeObserver j id).Wraps g (h'.removeObserver j id) where
  objects := hw.objects
  subjects := rel_modify hw.subjects j fun _ _ hr =>
    ⟨List.rel_filter (fun _ _ hxy => by simp only [hxy.id]) hr.observers, hr.nextObserver⟩
  schedulers := hw.schedulers
  cells := { hw.cells with }
  joins := hw.joins.of_joins rfl rfl

theorem setTasks (i : SchedulerId) {l l' : List (Task F C)} (hl : List.Forall₂ (Task.Wraps g) l l') :
    (h.setTasks i l).Wraps g (h'.setTasks i l') where
  objects := hw.objects
  subjects := hw.subjects
  schedulers := rel_setIfInBounds hw.schedulers i (.queue hl)
  cells := { hw.cells with }
  joins := hw.joins.of_joins rfl rfl

/-! ## Cells -/

theorem setComposite (i : Nat) (x : Composite C) : (h.setComposite i x).Wraps g (h'.setComposite i x) :=
  hw.of_tables ⟨rfl, rfl, rfl⟩ rfl ⟨rfl, rfl, rfl⟩ rfl
    { hw.cells with composites := by simp only [Heap.setComposite, hw.cells.composites] }

theorem newCounter (n : Nat) : (h.newCounter n).2.Wraps g (h'.newCounter n).2 :=
  hw.of_tables ⟨rfl, rfl, rfl⟩ rfl ⟨rfl, rfl, rfl⟩ rfl
    { hw.cells with counters := by simp only [Heap.newCounter, hw.cells.counters] }

theorem setCounter (i n : Nat) : (h.setCounter i n).Wraps g (h'.setCounter i n) :=
  hw.of_tables ⟨rfl, rfl, rfl⟩ rfl ⟨rfl, rfl, rfl⟩ rfl
    { hw.cells with counters := by simp only [Heap.setCounter, hw.cells.counters] }

theorem newMemory : h.newMemory.2.Wraps g h'.newMemory.2 :=
  hw.of_tables ⟨rfl, rfl, rfl⟩ rfl ⟨rfl, rfl, rfl⟩ rfl
    { hw.cells with memories := by simp only [Heap.newMemory, hw.cells.memories] }

theorem setMemory (i : Nat) (v : Value) : (h.setMemory i v).Wraps g (h'.setMemory i v) :=
  hw.of_tables ⟨rfl, rfl, rfl⟩ rfl ⟨rfl, rfl, rfl⟩ rfl
    { hw.cells with memories := by simp only [Heap.setMemory, hw.cells.memories] }

theorem newSwitch : h.newSwitch.2.Wraps g h'.newSwitch.2 :=
  hw.of_tables ⟨rfl, rfl, rfl⟩ rfl ⟨rfl, rfl, rfl⟩ rfl
    { hw.cells with switches := by simp only [Heap.newSwitch, hw.cells.switches] }

theorem setSwitch (i : Nat) (x : Switch C) : (h.setSwitch i x).Wraps g (h'.setSwitch i x) :=
  hw.of_tables ⟨rfl, rfl, rfl⟩ rfl ⟨rfl, rfl, rfl⟩ rfl
    { hw.cells with switches := by simp only [Heap.setSwitch, hw.cells.switches] }

theorem newGate : h.newGate.2.Wraps g h'.newGate.2 :=
  hw.of_tables ⟨rfl, rfl, rfl⟩ rfl ⟨rfl, rfl, rfl⟩ rfl
    { hw.cells with gates := by simp only [Heap.newGate, hw.cells.gates] }

theorem shutGate (i : Nat) : (h.shutGate i).Wraps g (h'.shutGate i) :=
  hw.of_tables ⟨rfl, rfl, rfl⟩ rfl ⟨rfl, rfl, rfl⟩ rfl
    { hw.cells with gates := by simp only [Heap.shutGate, hw.cells.gates] }

theorem grown (xs : List (Stream F)) : (h.grown xs).Wraps g (h'.grown xs) :=
  hw.of_tables ⟨rfl, rfl, rfl⟩ rfl ⟨rfl, rfl, rfl⟩ rfl
    { hw.cells with streams := by simp only [Heap.grown, hw.cells.streams] }

theorem newStream (x : Stream F) : (h.newStream x).2.Wraps g (h'.newStream x).2 :=
  hw.of_tables ⟨rfl, rfl, rfl⟩ rfl ⟨rfl, rfl, rfl⟩ rfl
    { hw.cells with streams := by simp only [Heap.newStream, hw.cells.streams] }

/-! ## Joins -/

theorem newJoin (n : Nat) : (h.newJoin n).2.Wraps g (h'.newJoin n).2 := by
  have hj := hw.joins
  have hne : ∀ j, g.join = some j → j ≠ h.joins.size := fun j hin => Nat.ne_of_lt (hj.below j hin)
  refine hw.of_cells ⟨rfl, rfl, rfl⟩ ⟨rfl, rfl, rfl⟩ { hw.cells with } ⟨?_, fun j hout => ?_, fun j hin => ?_,
    fun j hin => ?_, fun j hin => ?_⟩
  · simp only [Heap.newJoin, Array.size_push, hj.size]
  · rw [join_newJoin, join_newJoin, hj.size, hj.others j hout]
  · simp only [Heap.newJoin, Array.size_push]
    exact Nat.lt_succ_of_lt (hj.below j hin)
  · rw [join_newJoin, if_neg (hne j hin), hj.length j hin]
  · rw [join_newJoin, join_newJoin, hj.size, if_neg (hne j hin), if_neg (hne j hin), hj.wrapped j hin]

/-- Another join is written. -/
theorem setJoin {i : Nat} (hi : g.join ≠ some i) (l : List (Option Value)) :
    (h.setJoin i l).Wraps g (h'.setJoin i l) := by
  have hj := hw.joins
  have hne : ∀ j, g.join = some j → ¬ (j = i ∧ i < h.joins.size) := fun j hin he => hi (he.1 ▸ hin)
  refine hw.of_cells ⟨rfl, rfl, rfl⟩ ⟨rfl, rfl, rfl⟩ { hw.cells with } ⟨?_, fun j hout => ?_, fun j hin => ?_,
    fun j hin => ?_, fun j hin => ?_⟩
  · simp only [Heap.setJoin, Array.size_setIfInBounds, hj.size]
  · rw [join_setJoin, join_setJoin, hj.size, hj.others j hout]
  · simpa only [Heap.setJoin, Array.size_setIfInBounds] using hj.below j hin
  · rw [join_setJoin, if_neg (hne j hin), hj.length j hin]
  · rw [join_setJoin, join_setJoin, hj.size, if_neg (hne j hin), if_neg (hne j hin), hj.wrapped j hin]

/-- A slot of the join of the paths is filled, in the second heap with the wrapped value. -/
theorem fill {i k : Nat} {p : Option String} (hi : g.join = some i) (hk : g.names[k]? = some p) (v : Value) :
    (h.setJoin i ((h.join i).set k (some v))).Wraps g
      (h'.setJoin i ((h'.join i).set k (some (.change g.root p v)))) := by
  have hj := hw.joins
  have hlt := hj.below i hi
  refine hw.of_cells ⟨rfl, rfl, rfl⟩ ⟨rfl, rfl, rfl⟩ { hw.cells with } ⟨?_, fun j hout => ?_, fun j hin => ?_,
    fun j hin => ?_, fun j hin => ?_⟩
  · simp only [Heap.setJoin, Array.size_setIfInBounds, hj.size]
  · have hji : j ≠ i := fun he => hout (he ▸ hi)
    rw [join_setJoin, join_setJoin, if_neg fun he => hji he.1, if_neg fun he => hji he.1, hj.others j hout]
  · simpa only [Heap.setJoin, Array.size_setIfInBounds] using hj.below j hin
  · obtain rfl : i = j := Option.some.inj (hi.symm.trans hin)
    rw [join_setJoin, if_pos ⟨rfl, hlt⟩, List.length_set, hj.length i hi]
  · obtain rfl : i = j := Option.some.inj (hi.symm.trans hin)
    rw [join_setJoin, join_setJoin, if_pos ⟨rfl, Nat.lt_of_lt_of_eq hlt hj.size.symm⟩, if_pos ⟨rfl, hlt⟩, g.wrapped_set hk,
      hj.wrapped i hi]

end Wraps

end DataBinding.Heap
