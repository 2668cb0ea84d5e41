import DataBinding.Proofs.Beside.Cells
/-!
# Registrations beside others

Where both runs register the same observer, or take the same one off, the one heap still mirrors the other; and
so it does where the second run registers an alien one or takes one off. The same holds of queues, and of
properties that both runs assign.
-/

namespace DataBinding.Heap

variable {F C S : Type} {q : Setting F C S} {ρ ρ' : Ties} {h h' h₁ h₁' : Heap F C} {o : ObjectId} {s : SubjectId}
  {i j : Nat} {t : Timing} {p : String} {reports : Bool} {x y : Observer F C}

/-- Cells, properties and queues are as before. -/
structure OnlyRosters (h h' : Heap F C) : Prop where
  cell : ∀ k i, h'.cell k i = h.cell k i
  objects : h'.objects.size = h.objects.size
  subjects : h'.subjects.size = h.subjects.size
  get : ∀ o p, h'.get o p = h.get o p
  supports : ∀ o t, h'.supports o t = h.supports o t
  schedulers : h'.schedulers = h.schedulers

namespace OnlyRosters

theorem refl (h : Heap F C) : h.OnlyRosters h := ⟨fun _ _ => rfl, rfl, rfl, fun _ _ => rfl, fun _ _ => rfl, rfl⟩

variable (h) (o) (t) (p) (reports) (x) (s) (i)

theorem addHandler : h.OnlyRosters (h.addHandler o t p reports x).2 :=
  ⟨fun k _ => by cases k <;> rfl, size_addHandler .., rfl, fun _ _ => get_addHandler .., fun _ _ => supports_addHandler ..,
    rfl⟩

theorem removeHandler : h.OnlyRosters (h.removeHandler o i) :=
  ⟨fun k _ => by cases k <;> rfl, size_removeHandler .., rfl, fun _ _ => get_removeHandler ..,
    fun _ _ => supports_removeHandler .., rfl⟩

theorem addObserver : h.OnlyRosters (h.addObserver s x).2 :=
  ⟨fun k _ => by cases k <;> rfl, rfl, by simp [Heap.addObserver], fun _ _ => rfl, fun _ _ => rfl, rfl⟩

theorem removeObserver : h.OnlyRosters (h.removeObserver s i) :=
  ⟨fun k _ => by cases k <;> rfl, rfl, by simp [Heap.removeObserver], fun _ _ => rfl, fun _ _ => rfl, rfl⟩

end OnlyRosters

section Counts
variable (h)

theorem count_addHandler (ho : o < h.objects.size) (k : Kind) :
    (h.addHandler o t p reports x).2.count k = h.count k + if k = .handler o then 1 else 0 := by
  cases k <;> try rfl
  case handler o' =>
    simp only [count, nextId, nextHandler_addHandler _ _ _ _ _ _ _ ho, Kind.handler.injEq]
    split
    · next he => rw [he]
    · rfl

theorem count_removeHandler (k : Kind) : (h.removeHandler o i).count k = h.count k := by
  cases k <;> try rfl
  case handler o' => exact nextHandler_removeHandler ..

theorem count_addObserver (hs : s < h.subjects.size) (k : Kind) :
    (h.addObserver s x).2.count k = h.count k + if k = .observer s then 1 else 0 := by
  cases k <;> try rfl
  case observer s' =>
    simp only [count, (h.enrolls_addObserver hs x).nextId, Node.subject.injEq, Kind.observer.injEq]
    split
    · next he => rw [he]
    · rfl

theorem count_removeObserver (k : Kind) : (h.removeObserver s i).count k = h.count k := by
  cases k <;> try rfl
  case observer s' => exact (h.strikes_removeObserver s i).nextId (.subject s')

end Counts

/-- The one heap mirrors the other if only rosters have changed, and these still do. -/
theorem Mirrors.of_rosters (hm : h.Mirrors q ρ h') (hρ : ρ ≤ ρ') (hk : ∀ k, k.IsCell → ρ' k = ρ k)
    (ho : h.OnlyRosters h₁) (ho' : h'.OnlyRosters h₁') (sound : ∀ k, (ρ' k).Sound (h₁.count k) (h₁'.count k))
    (handlers : ∀ o, Sifted (Handler.Alike q ρ' o) (Handler.Alien q ρ' o) (h₁.handlers o) (h₁'.handlers o))
    (listeners : ∀ j, Sifted (Listener.Alike q ρ' j) (Listener.Alien q ρ' j) (h₁.roster (.subject j))
      (h₁'.roster (.subject j))) : h₁.Mirrors q ρ' h₁' where
  sound := sound
  cells k a b hab := by
    rw [ho.cell, ho'.cell]
    by_cases hcell : k.IsCell
    · exact (hm.cells k a b (hk k hcell ▸ hab)).mono hρ
    · cases k <;> first | trivial | exact absurd trivial hcell
  aliens k b hb := by
    rw [ho'.cell]
    by_cases hcell : k.IsCell
    · exact (hm.aliens k b (hk k hcell ▸ hb)).mono hρ
    · cases k <;> first | trivial | exact absurd trivial hcell
  streams a := by
    change (h₁'.cell .stream a).Harmless q
    rw [ho'.cell]
    exact hm.streams a
  objects := by rw [ho.objects, hm.objects]
  objects' := by rw [ho'.objects, hm.objects']
  subjects := by rw [ho.subjects, hm.subjects]
  subjects' := by rw [ho'.subjects, hm.subjects']
  get a b := by
    rw [ho.get, ho'.get]
    exact q.alike_mono hρ (hm.get a b)
  supports a b := by rw [ho.supports, ho'.supports, hm.supports]
  handlers := handlers
  listeners := listeners
  schedulers := by rw [ho.schedulers, ho'.schedulers, hm.schedulers]
  tasks a := by
    simp only [Heap.tasks?, ho.schedulers, ho'.schedulers]
    exact rel_imp (fun _ _ hs => hs.mono (fun _ _ => Task.Alike.mono hρ) fun _ => Task.Alien.mono hρ) (hm.tasks a)

section Mono

variable (hm : h.Mirrors q ρ h') (hρ : ρ ≤ ρ')
include hm hρ

theorem Mirrors.handlers_mono (o : ObjectId) :
    Sifted (Handler.Alike q ρ' o) (Handler.Alien q ρ' o) (h.handlers o) (h'.handlers o) :=
  (hm.handlers o).mono (fun _ _ => Handler.Alike.mono hρ) fun _ => Handler.Alien.mono hρ

theorem Mirrors.listeners_mono (j : SubjectId) :
    Sifted (Listener.Alike q ρ' j) (Listener.Alien q ρ' j) (h.roster (.subject j)) (h'.roster (.subject j)) :=
  (hm.listeners j).mono (fun _ _ => Listener.Alike.mono hρ) fun _ => Listener.Alien.mono hρ

end Mono

variable (hm : h.Mirrors q ρ h')
include hm

/-! ## Handlers -/

/-- Both runs register an observer for changes of an object. -/
theorem Mirrors.addHandler (t : Timing) (p : String) (reports : Bool) (ho : o < q.objects) (hx : x.Alike q ρ y) :
    (h.addHandler o t p reports x).2.Mirrors q (ρ.tie (.handler o) (h.nextHandler o) (h'.nextHandler o) 1)
      (h'.addHandler o t p reports y).2 := by
  have hρ := ρ.le_tie (.handler o) (h.nextHandler o) (h'.nextHandler o) 1
  have hh : o < h.objects.size := hm.objects ▸ ho
  have hh' : o < h'.objects.size := hm.objects' ▸ ho
  refine hm.of_rosters hρ (fun k hk => ?_) (.addHandler h o t p reports x) (.addHandler h' o t p reports y)
    (fun k => ?_) (fun o' => ?_) (hm.listeners_mono hρ)
  · cases k <;> first | exact hk.elim | simp [Ties.tie]
  · rw [h.count_addHandler hh, h'.count_addHandler hh']
    exact (hm.sound k).tie (by rintro rfl; exact ⟨rfl, rfl⟩)
  · rw [handlers_addHandler _ _ _ _ _ _ _ hh, handlers_addHandler _ _ _ _ _ _ _ hh']
    split
    · next he =>
      subst he
      exact (hm.handlers_mono hρ o').append
        (.keep ⟨ρ.pair_tie .., rfl, rfl, rfl, hx.mono hρ⟩ .nil)
    · exact hm.handlers_mono hρ o'

/-- Only the second run registers an observer for changes of an object. -/
theorem Mirrors.addHandlerAlien (o : ObjectId) (t : Timing) (p : String) (reports : Bool) (hy : y.Alien q ρ) :
    ∃ ρ', ρ ≤ ρ' ∧ h.Mirrors q ρ' (h'.addHandler o t p reports y).2 ∧
      (Teardown.handler o (h'.nextHandler o) : Teardown C).Alien q ρ' := by
  by_cases hh' : o < h'.objects.size
  · have hρ := ρ.le_spare (.handler o) (h'.nextHandler o)
    refine ⟨_, hρ, hm.of_rosters hρ (fun k hk => ?_) (.refl h) (.addHandler h' o t p reports y)
      (fun k => ?_) (fun o' => ?_) (hm.listeners_mono hρ), fun _ => ρ.alien_spare ..⟩
    · cases k <;> first | exact hk.elim | simp [Ties.spare]
    · rw [h'.count_addHandler hh']
      exact (hm.sound k).spare (by rintro rfl; rfl)
    · rw [handlers_addHandler _ _ _ _ _ _ _ hh']
      split
      · next he =>
        subst he
        rw [← List.append_nil (h.handlers o')]
        exact (hm.handlers_mono hρ o').append (.drop ⟨ρ.alien_spare .., hy.mono hρ⟩ .nil)
      · exact hm.handlers_mono hρ o'
  · rw [h'.addHandler_of_le _ _ _ _ _ (Nat.le_of_not_lt hh')]
    exact ⟨ρ, Ties.le_refl ρ, hm, fun ho => absurd (hm.objects' ▸ ho) hh'⟩

/-- Both runs take the same handler off. -/
theorem Mirrors.removeHandler (hij : (ρ (.handler o)).pair i j) :
    (h.removeHandler o i).Mirrors q ρ (h'.removeHandler o j) := by
  have hs := hm.sound (.handler o)
  refine hm.of_rosters (Ties.le_refl ρ) (fun _ _ => rfl) (.removeHandler h o i) (.removeHandler h' o j) (fun k => ?_)
    (fun o' => ?_) hm.listeners
  · rw [count_removeHandler, count_removeHandler]
    exact hm.sound k
  · rw [handlers_removeHandler, handlers_removeHandler]
    split
    · next he =>
      subst he
      refine (hm.handlers o').filter fun a b hab => ?_
      have hiff : a.id = i ↔ b.id = j := ⟨fun he => hs.left (he ▸ hab.id) hij, fun he => hs.right hab.id (he ▸ hij)⟩
      simp only [ne_eq, hiff]
    · exact hm.handlers o'

/-- Only the second run takes a handler off. -/
theorem Mirrors.removeHandlerAlien (hj : o < q.objects → (ρ (.handler o)).alien j) :
    h.Mirrors q ρ (h'.removeHandler o j) := by
  refine hm.of_rosters (Ties.le_refl ρ) (fun _ _ => rfl) (.refl h) (.removeHandler h' o j) (fun k => ?_)
    (fun o' => ?_) hm.listeners
  · rw [count_removeHandler]
    exact hm.sound k
  · rw [handlers_removeHandler]
    split
    · next he =>
      subst he
      by_cases ho : o' < q.objects
      · refine (hm.handlers o').filter_right fun a b hab => ?_
        have hb : b.id ≠ j := fun he => (hm.sound _).apart hab.id (he ▸ hj ho)
        simp [hb]
      · have hnil : h'.handlers o' = [] := List.eq_nil_iff_forall_not_mem.2 fun b hb =>
          ho (hm.objects' ▸ h'.lt_size_of_mem o' hb)
        have hs := hm.handlers o'
        rwa [hnil] at hs ⊢
    · exact hm.handlers o'

/-! ## Observers of subjects -/

/-- Both runs register an observer of a subject. -/
theorem Mirrors.addObserver (hs : s < q.subjects) (hx : x.Alike q ρ y) :
    (h.addObserver s x).2.Mirrors q (ρ.tie (.observer s) (h.nextId (.subject s)) (h'.nextId (.subject s)) 1)
      (h'.addObserver s y).2 := by
  have hρ := ρ.le_tie (.observer s) (h.nextId (.subject s)) (h'.nextId (.subject s)) 1
  have hh : s < h.subjects.size := hm.subjects ▸ hs
  have hh' : s < h'.subjects.size := hm.subjects' ▸ hs
  refine hm.of_rosters hρ (fun k hk => ?_) (.addObserver h s x) (.addObserver h' s y)
    (fun k => ?_) (hm.handlers_mono hρ) fun s' => ?_
  · cases k <;> first | exact hk.elim | simp [Ties.tie]
  · rw [h.count_addObserver hh, h'.count_addObserver hh']
    exact (hm.sound k).tie (by rintro rfl; exact ⟨rfl, rfl⟩)
  · rw [(h.enrolls_addObserver hh x).roster, (h'.enrolls_addObserver hh' y).roster]
    simp only [Node.subject.injEq]
    split
    · next he =>
      subst he
      exact (hm.listeners_mono hρ s').append (.keep ⟨ρ.pair_tie .., hx.mono hρ⟩ .nil)
    · exact hm.listeners_mono hρ s'

/-- Only the second run registers an observer of a subject. -/
theorem Mirrors.addObserverAlien (s : SubjectId) (hy : y.Alien q ρ) :
    ∃ ρ', ρ ≤ ρ' ∧ h.Mirrors q ρ' (h'.addObserver s y).2 ∧
      (Teardown.observer s (h'.nextId (.subject s)) : Teardown C).Alien q ρ' := by
  by_cases hh' : s < h'.subjects.size
  · have hρ := ρ.le_spare (.observer s) (h'.nextId (.subject s))
    refine ⟨_, hρ, hm.of_rosters hρ (fun k hk => ?_) (.refl h) (.addObserver h' s y)
      (fun k => ?_) (hm.handlers_mono hρ) (fun s' => ?_), fun _ => ρ.alien_spare ..⟩
    · cases k <;> first | exact hk.elim | simp [Ties.spare]
    · rw [h'.count_addObserver hh']
      exact (hm.sound k).spare (by rintro rfl; rfl)
    · rw [(h'.enrolls_addObserver hh' y).roster]
      simp only [Node.subject.injEq]
      split
      · next he =>
        subst he
        rw [← List.append_nil (h.roster (.subject s'))]
        exact (hm.listeners_mono hρ s').append (.drop ⟨ρ.alien_spare .., hy.mono hρ⟩ .nil)
      · exact hm.listeners_mono hρ s'
  · rw [h'.addObserver_of_le (Nat.le_of_not_lt hh')]
    exact ⟨ρ, Ties.le_refl ρ, hm, fun hs => absurd (hm.subjects' ▸ hs) hh'⟩

/-- Both runs take the same observer off. -/
theorem Mirrors.removeObserver (hij : (ρ (.observer s)).pair i j) :
    (h.removeObserver s i).Mirrors q ρ (h'.removeObserver s j) := by
  have hs := hm.sound (.observer s)
  refine hm.of_rosters (Ties.le_refl ρ) (fun _ _ => rfl) (.removeObserver h s i) (.removeObserver h' s j)
    (fun k => ?_) hm.handlers fun s' => ?_
  · rw [count_removeObserver, count_removeObserver]
    exact hm.sound k
  · rw [(h.strikes_removeObserver s i).roster, (h'.strikes_removeObserver s j).roster]
    simp only [Node.subject.injEq]
    split
    · next he =>
      subst he
      refine (hm.listeners s').filter fun a b hab => ?_
      have hiff : a.1 = i ↔ b.1 = j := ⟨fun he => hs.left (he ▸ hab.id) hij, fun he => hs.right hab.id (he ▸ hij)⟩
      simp only [ne_eq, hiff]
    · exact hm.listeners s'

/-- Only the second run takes an observer off. -/
theorem Mirrors.removeObserverAlien (hj : s < q.subjects → (ρ (.observer s)).alien j) :
    h.Mirrors q ρ (h'.removeObserver s j) := by
  refine hm.of_rosters (Ties.le_refl ρ) (fun _ _ => rfl) (.refl h) (.removeObserver h' s j) (fun k => ?_)
    hm.handlers fun s' => ?_
  · rw [count_removeObserver]
    exact hm.sound k
  · rw [(h'.strikes_removeObserver s j).roster]
    simp only [Node.subject.injEq]
    split
    · next he =>
      subst he
      by_cases hs : s' < q.subjects
      · refine (hm.listeners s').filter_right fun a b hab => ?_
        have hb : b.1 ≠ j := fun he => (hm.sound _).apart hab.id (he ▸ hj hs)
        simp [hb]
      · have hnil : h'.roster (.subject s') = [] := by
          simp [roster, Array.getElem?_eq_none (Nat.le_of_not_lt (hm.subjects' ▸ hs))]
        have hl := hm.listeners s'
        rwa [hnil] at hl ⊢
    · exact hm.listeners s'

/-! ## Queues and properties -/

/-- Both runs keep the same tasks, and the second run others in between. -/
theorem Mirrors.setTasks {l l' : List (Task F C)} (hl : Sifted (Task.Alike q ρ) (Task.Alien q ρ) l l') :
    (h.setTasks i l).Mirrors q ρ (h'.setTasks i l') where
  sound k := by cases k <;> exact hm.sound _
  cells k a b hab := by cases k <;> exact hm.cells _ a b hab
  aliens k b hb := by cases k <;> exact hm.aliens _ b hb
  streams := hm.streams
  objects := hm.objects
  objects' := hm.objects'
  subjects := hm.subjects
  subjects' := hm.subjects'
  get := hm.get
  supports := hm.supports
  handlers := hm.handlers
  listeners := hm.listeners
  schedulers := by simp [Heap.setTasks, hm.schedulers]
  tasks a := by
    rw [tasks?_setTasks, tasks?_setTasks, hm.schedulers]
    split
    · exact .some hl
    · exact hm.tasks a

/-- Only the second run keeps other tasks. -/
theorem Mirrors.setTasksAlien {l l' : List (Task F C)} (hi : h.tasks? i = some l)
    (hl : Sifted (Task.Alike q ρ) (Task.Alien q ρ) l l') : h.Mirrors q ρ (h'.setTasks i l') := by
  have hs := hm.setTasks (i := i) hl
  refine { hs with schedulers := ?_, tasks := fun a => ?_ }
  · rw [hs.schedulers]
    simp [Heap.setTasks]
  · have ha := hs.tasks a
    rw [tasks?_setTasks] at ha
    split at ha
    · next he =>
      rw [he.1] at ha ⊢
      rwa [hi]
    · exact ha

/-- Both runs assign a property. -/
theorem Mirrors.put {v v' : Value} (ho : o < q.objects) (hv : q.alike ρ v v') :
    (h.put o p v).Mirrors q ρ (h'.put o p v') where
  sound k := by
    have hcount : ∀ (h : Heap F C) v, (h.put o p v).count k = h.count k := fun h v => by
      cases k <;> try rfl
      exact nextHandler_put ..
    rw [hcount, hcount]
    exact hm.sound k
  cells k a b hab := by cases k <;> exact hm.cells _ a b hab
  aliens k b hb := by cases k <;> exact hm.aliens _ b hb
  streams := hm.streams
  objects := (size_put ..).trans hm.objects
  objects' := (size_put ..).trans hm.objects'
  subjects := hm.subjects
  subjects' := hm.subjects'
  get a b := by
    rw [get_put _ _ _ _ _ _ (hm.objects ▸ ho), get_put _ _ _ _ _ _ (hm.objects' ▸ ho)]
    split
    · exact hv
    · exact hm.get a b
  supports a b := by rw [supports_put, supports_put, hm.supports]
  handlers a := by
    rw [handlers_put, handlers_put]
    exact hm.handlers a
  listeners := hm.listeners
  schedulers := hm.schedulers
  tasks := hm.tasks

end DataBinding.Heap
