import DataBinding.Proofs.Chain.Others
import DataBinding.Proofs.Chain.Places
/-!
# One link further

A chain that is given a value begins a new generation of its next switch and watches the next link on
the object that the value is, if it is one (`Chain.leads_link`). The first value of the link is then
delivered, and much can happen meanwhile. When the subscription is over the switch keeps it, or undoes
it if there is a later one: either way the chain is live as before (`Chain.Advanced.live_entered`).
-/

namespace DataBinding

variable {F C S : Type}

namespace Chain

variable (c : Chain C)

/-! ## Going on -/

/-- From the first heap to the second, generations only go up, and where one stays the same its
handlers are still registered. -/
structure Onward (h h' : Heap F C) : Prop extends h.Grows h' where
  later : ∀ l ∈ c.links, h.generation l ≤ h'.generation l
  still : ∀ l rest, l :: rest <:+ c.links → h'.generation l = h.generation l →
    h'.switch l.switch = h.switch l.switch ∧
      ∀ o id, c.linkHandler id (h.generation l) l rest ∈ h.handlers o →
        c.linkHandler id (h.generation l) l rest ∈ h'.handlers o

/-- The switch of a link has begun a new generation and watches the link on its parent, if there is
one; `t` undoes that, and `u` is the value to go on from. -/
structure Advanced (Other : Observer F C → Prop) (l : Link) (todo : List Link) (v : Value)
    (pending : List (ObjectId × Nat)) (regs : List (Registration F C)) (h : Heap F C)
    (t : Teardown C) (u : Value) (pending' : List (ObjectId × Nat))
    (new : List (Registration F C)) (h' : Heap F C) : Prop where
  live : c.Live pending' h' todo (new ++ regs) u
  tidy : c.Tidy Other h'
  grows : h.Grows h'
  get : ∀ o p, h'.get o p = h.get o p
  cells : ∀ i, h'.switch i = (h.restarted l.switch).switch i
  memories : h'.memories = h.memories
  handlers : ∀ o, ∀ x ∈ (h.restarted l.switch).handlers o, x ∈ h'.handlers o
  undoes : h'.Undoes l.switch t
  parent : (v.object? = none ∧ t = .nothing ∧ u = .null ∧ new = [] ∧ pending' = pending) ∨
    ∃ o n, v = .object o ∧ t = .handler o n ∧ u = h.get o l.segment.property ∧
      new = [⟨o, c.linkHandler n (h'.generation l) l todo, u⟩] ∧ pending' = (o, n) :: pending

variable {c} {Other : Observer F C → Prop} {h h' h'' : Heap F C}

namespace Onward

theorem refl (h : Heap F C) : c.Onward h h :=
  ⟨.refl h, fun _ _ => Nat.le_refl _, fun _ _ _ _ => ⟨rfl, fun _ _ hx => hx⟩⟩

theorem trans (g : c.Onward h h') (g' : c.Onward h' h'') : c.Onward h h'' := by
  refine ⟨g.toGrows.trans g'.toGrows, fun l hl => Nat.le_trans (g.later l hl) (g'.later l hl),
    fun l rest hs he => ?_⟩
  -- the generation in between is the same too
  have hl := mem_links_of_suffix hs
  have he' : h'.generation l = h.generation l :=
    Nat.le_antisymm (he ▸ g'.later l hl) (g.later l hl)
  obtain ⟨hc, hx⟩ := g.still l rest hs he'
  obtain ⟨hc', hx'⟩ := g'.still l rest hs (he.trans he'.symm)
  refine ⟨hc'.trans hc, fun o id hm => ?_⟩
  rw [he'] at hx'
  exact hx' o id (hx o id hm)

theorem of_leaves (hl : c.Leaves h h') : c.Onward h h' where
  toGrows := hl.toGrows
  later _ hm := Nat.le_of_eq (hl.generation hm).symm
  still _ _ hs _ := ⟨hl.cells _ (List.mem_map_of_mem (mem_links_of_suffix hs)),
    fun o _ hx => (hl.handlers o _ code?_linkHandler).2 hx⟩

/-- Objects and switches are as before. -/
theorem of_cells (ho : h'.objects = h.objects) (hs : h'.switches = h.switches)
    (hm : h.memories.size ≤ h'.memories.size) : c.Onward h h' := by
  have hi : ∀ i, h'.switch i = h.switch i := fun i => by simp only [Heap.switch, hs]
  refine ⟨.of_cells ho hs hm, fun l _ => ?_, fun l rest _ _ => ⟨hi _, fun o id hx => ?_⟩⟩
  · simp only [Heap.generation, hi, Nat.le_refl]
  · simpa only [Heap.handlers, ho] using hx

end Onward

/-! ## The heap once a link is watched -/

namespace Advanced

variable {l : Link} {todo : List Link} {v u v' : Value} {pending pending' : List (ObjectId × Nat)}
  {regs new regs' : List (Registration F C)} {t : Teardown C}
  (ha : c.Advanced Other l todo v pending regs h t u pending' new h')
include ha

theorem generation (hl : c.Live pending h (l :: todo) regs v) :
    h'.generation l = h.generation l + 1 := by
  have hi := (hl.running l (mem_links_of_suffix hl.follows.suffix)).1
  rw [Heap.generation, ha.cells, Heap.switch_restarted _ hi, if_pos rfl]
  rfl

theorem current (hl : c.Live pending h (l :: todo) regs v) : (h'.switch l.switch).current = none := by
  have hi := (hl.running l (mem_links_of_suffix hl.follows.suffix)).1
  rw [ha.cells, Heap.switch_restarted _ hi, if_pos rfl]

theorem switch_of_ne (hl : c.Live pending h (l :: todo) regs v) {i : Nat} (hi : i ≠ l.switch) :
    h'.switch i = h.switch i := by
  have hm := (hl.running l (mem_links_of_suffix hl.follows.suffix)).1
  rw [ha.cells, Heap.switch_restarted _ hm, if_neg hi]

theorem le_generation (hl : c.Live pending h (l :: todo) regs v) (e : Link) :
    h.generation e ≤ h'.generation e := by
  by_cases hsw : e.switch = l.switch
  · have hgen := ha.generation hl
    simp only [Heap.generation, hsw] at hgen ⊢
    omega
  · simp only [Heap.generation, ha.switch_of_ne hl hsw, Nat.le_refl]

/-- The path is read on from the first value of the link. -/
theorem readFrom (hp : l.segment.property ≠ "") :
    h.readFrom v ((l :: todo).map Link.segment) = h'.readFrom u (todo.map Link.segment) := by
  rw [Heap.readFrom_congr ha.get, List.map_cons]
  obtain ⟨hv, -, rfl, -⟩ | ⟨o, n, rfl, -, rfl, -⟩ := ha.parent
  · rw [Heap.readFrom_of_none hv, Heap.readFrom_null]
  · simp [Heap.readFrom, Heap.read, hp]

/-- Whatever happens before the subscription is over, in the end the chain has gone on. -/
theorem onward_entered (hl : c.Live pending h (l :: todo) regs v) (hn : h.Numbered)
    (ho : c.Onward h' h'') : c.Onward h (h''.entered l.switch (h'.generation l) t) := by
  have hkeep : ∀ e, (h''.entered l.switch (h'.generation l) t).generation e = h''.generation e :=
    fun e => Heap.generation_entered ..
  have hgen := ha.generation hl
  refine ⟨(ha.grows.trans ho.toGrows).trans (Heap.grows_entered ..), fun e he => ?_,
    fun e rest hs heq => ?_⟩
  · rw [hkeep]
    exact Nat.le_trans (ha.le_generation hl e) (ho.later e he)
  -- a generation that is the same in the end was never left
  have hle := ho.later e (mem_links_of_suffix hs)
  rw [hkeep] at heq
  have hsw : e.switch ≠ l.switch := by
    intro hsw
    simp only [Heap.generation, hsw] at hle heq hgen
    omega
  have hcell := ha.switch_of_ne hl hsw
  have hg : h'.generation e = h.generation e := congrArg Switch.generation hcell
  obtain ⟨hc, hx⟩ := ho.still e rest hs (heq.trans hg.symm)
  refine ⟨(Heap.switch_entered_of_ne _ _ _ hsw).trans (hc.trans hcell), fun o id hm => ?_⟩
  have hm' : c.linkHandler id (h.generation e) e rest ∈ h''.handlers o := by
    rw [hg] at hx
    refine hx o id (ha.handlers o _ ((Heap.mem_handlers_restarted _).2 ⟨hm, fun hcur => ?_⟩))
    have hu := hn.undoes l.switch
    rw [hcur] at hu
    obtain ⟨_, _, he⟩ := hu.2 _ hm rfl
    rw [linkHandler, Observer.inner.injEq] at he
    exact hsw he.1
  refine (Heap.mem_handlers_entered _ _ _).2 ⟨hm', fun _ ht => ?_⟩
  have hu := ho.undoes ha.undoes
  rw [ht] at hu
  obtain ⟨_, _, he⟩ := hu.2 _ hm' rfl
  rw [linkHandler, Observer.inner.injEq] at he
  exact hsw he.1

/-- When the subscription is over, the chain is live without it being under way. -/
theorem live_entered (hl : c.Live pending h (l :: todo) regs v) (ho : c.Onward h' h'')
    (hn : h''.Numbered) (hl' : c.Live pending' h'' [] regs' v') :
    c.Live pending (h''.entered l.switch (h'.generation l) t) [] regs' v' := by
  have hs := hl.follows.suffix
  have hle := ho.later l (mem_links_of_suffix hs)
  obtain ⟨-, rfl, -, -, rfl⟩ | ⟨o, n, -, rfl, -, rfl, rfl⟩ := ha.parent
  · unfold Heap.entered
    split
    · next hg =>
      refine hl'.vacate ?_
      rw [(ho.still l todo hs hg).1]
      exact ha.current hl
    · exact hl'
  · have hx : c.linkHandler n (h'.generation l) l todo ∈ h'.handlers o :=
      ha.live.follows.mem_handlers _ List.mem_cons_self
    unfold Heap.entered
    split
    · next hg =>
      refine hl'.settle hn hs (Nat.zero_le _) ?_
      have hg' : h''.generation l = h'.generation l := hg
      rw [hg']
      exact (ho.still l todo hs hg).2 o n hx
    · next hg =>
      refine hl'.discard hs (Nat.lt_of_le_of_ne hle fun he => hg he.symm) fun y hy hid => ?_
      have hlt := ha.tidy.numbered.below o _ hx
      refine Heap.eq_of_id ha.tidy.numbered (ho.old hy ?_) hx hid
      rw [hid]
      exact hlt

theorem tidy_entered (hl : c.Live pending h (l :: todo) regs v) (ho : c.Onward h' h'')
    (ht : c.Tidy Other h'') (hl' : c.Live pending' h'' [] regs' v') :
    c.Tidy Other (h''.entered l.switch (h'.generation l) t) :=
  ht.of_live (ha.live_entered hl ho ht.numbered hl') (ht.numbered.entered _ _ _ (ho.undoes ha.undoes))
    (Heap.grows_entered ..).objects (fun _ _ => Heap.get_entered ..)
    fun _ _ hx _ => ((Heap.mem_handlers_entered ..).1 hx).1

end Advanced

/-! ## The way to the first value of a link -/

section Leads
open State

variable {K : Client F C S} {l : Link} {todo : List Link} {v : Value}
  {pending : List (ObjectId × Nat)} {regs : List (Registration F C)} {k : S}
  {base : List (Frame F C)}

theorem Live.tidy_restart (hl : c.Live pending h (l :: todo) regs v) (ht : c.Tidy Other h) :
    c.Tidy Other (h.restarted l.switch) :=
  ht.of_live (hl.restart ht.numbered) (ht.numbered.restarted _) (Heap.grows_restarted _).objects
    (fun _ _ => Heap.get_restarted ..) fun _ _ hx _ => ((Heap.mem_handlers_restarted _).1 hx).1

/-- Without a parent the link yields null. -/
theorem Live.advanced_absent (hl : c.Live pending h (l :: todo) regs v) (ht : c.Tidy Other h)
    (hv : v.object? = none) :
    c.Advanced Other l todo v pending regs h .nothing .null pending [] (h.restarted l.switch) where
  live := hl.absent ht.numbered hv
  tidy := hl.tidy_restart ht
  grows := Heap.grows_restarted _
  get _ _ := Heap.get_restarted ..
  cells _ := rfl
  memories := Heap.memories_restarted _
  handlers _ _ hx := hx
  undoes := trivial
  parent := .inl ⟨hv, rfl, rfl, rfl, rfl⟩

/-- On its parent the link is watched. -/
theorem Live.advanced_watch {o : ObjectId} (hl : c.Live pending h (l :: todo) regs (.object o))
    (ht : c.Tidy Other h) (hsize : o < h.objects.size) :
    c.Advanced Other l todo (.object o) pending regs h
      (.handler o ((h.restarted l.switch).nextHandler o)) (h.get o l.segment.property)
      ((o, (h.restarted l.switch).nextHandler o) :: pending)
      [⟨o, c.linkHandler ((h.restarted l.switch).nextHandler o) ((h.restarted l.switch).generation l)
        l todo, h.get o l.segment.property⟩]
      ((h.restarted l.switch).addHandler o c.timing l.segment.property false
        (.inner l.switch ((h.restarted l.switch).generation l) (c.observer todo))).2 := by
  have htr := hl.tidy_restart ht
  have hwatch := hl.watch ht.numbered hsize _ _ rfl rfl (h.get o l.segment.property)
  refine ⟨hwatch, ?_, (Heap.grows_restarted _).trans (Heap.grows_addHandler ..), fun o' p => ?_,
    fun _ => rfl, Heap.memories_restarted _, fun o' x hx => ?_,
    Heap.belongs_addHandler _ _ _ _ htr.numbered _ _ _, .inr ⟨o, _, rfl, rfl, rfl, rfl, rfl⟩⟩
  · refine htr.of_live hwatch (htr.numbered.addHandler ..) (Heap.grows_addHandler ..).objects
      (fun _ _ => Heap.get_addHandler ..) fun o' x hx hc => ?_
    refine ((Heap.mem_handlers_addHandler ..).1 hx).resolve_right ?_
    rintro ⟨-, -, rfl⟩
    exact hc (code?_observer todo)
  · rw [Heap.get_addHandler, Heap.get_restarted]
  · exact (Heap.mem_handlers_addHandler ..).2 (.inl hx)

/-- From a value that the chain is given to the first value of the next link. -/
theorem leads_link (hp : l.segment.property ≠ "") (hl : c.Live pending h (l :: todo) regs v)
    (ht : c.Tidy Other h) (hk : ∀ o, v = .object o → KeptObject K base k h o) :
    ∃ L inner t u pending' new h',
      Leads K base ⟨.run (.deliver (c.observer (l :: todo)) v), base, h, k⟩
        (⟨.run (.deliver (c.observer (l :: todo)) v), base, h, k⟩ :: L)
        ⟨.run (.deliver (.inner l.switch (h'.generation l) (c.observer todo)) u),
          .subscribed (.inner l.switch (h'.generation l) (c.observer todo)) t ::
            .entering l.switch (h'.generation l) inner :: base, h', k⟩ ∧
      (∀ s ∈ L, ¬ s.Delivers) ∧ c.Advanced Other l todo v pending regs h t u pending' new h' ∧
      ∀ o, u = .object o → KeptObject K base k h' o := by
  have hrun := hl.running l (mem_links_of_suffix hl.follows.suffix)
  have hg : (h.restarted l.switch).generation l = (h.switch l.switch).generation + 1 := by
    rw [Heap.generation, Heap.switch_restarted _ hrun.1, if_pos rfl]
  obtain ⟨L, hL, hd⟩ := leads_outer K base k ht.numbered l.switch
    (.link l.segment.property c.timing) (c.observer todo) v
  rw [switched, if_neg (by simp [hrun.2]), ← hg] at hL
  cases hv : v.object? with
  | none =>
    have hin : Selection.inner h v (.link l.segment.property c.timing) = .just .null := by
      cases v <;> simp_all [Value.object?, Selection.inner]
    rw [hin] at hL
    have hlast := hL.trans (.one id rfl)
    rw [List.cons_append] at hlast
    exact ⟨_, _, _, _, _, _, h.restarted l.switch, hlast, List.forall_mem_append.2
      ⟨hd, List.forall_mem_singleton.2 not_delivers_subscribe⟩, hl.advanced_absent ht hv, by simp⟩
  | some o =>
    obtain rfl := Value.object?_eq_some.1 hv
    have hkeep := hk o rfl
    have ha := hl.advanced_watch ht (hkeep.lt_size ht.closed)
    have halive := alive_of_reaches K (c := .run (.subscribe (.watch o l.segment.property c.timing)
      (.inner l.switch ((h.restarted l.switch).generation l) (c.observer todo))))
      (hl.tidy_restart ht).closed (fun _ hm => hm)
      (hkeep.congr (List.subset_cons_self (.entering l.switch
        ((h.restarted l.switch).generation l) (.watch o l.segment.property c.timing)) _)
        (Heap.grows_restarted l.switch).objects fun _ _ => Heap.get_restarted ..)
    have hstep := step_watch halive
    rw [show l.segment.property.isEmpty = false by simp [hp]] at hstep
    have hread : ∀ h' : Heap F C, h'.read o l.segment.property = h'.get o l.segment.property :=
      fun h' => by simp [Heap.read, hp]
    rw [hread, ha.get] at hstep
    have hlast := hL.trans (.one id hstep)
    rw [List.cons_append] at hlast
    exact ⟨_, _, _, _, _, _, ((h.restarted l.switch).addHandler o c.timing l.segment.property false
      (.inner l.switch ((h.restarted l.switch).generation l) (c.observer todo))).2, hlast,
      List.forall_mem_append.2 ⟨hd, List.forall_mem_singleton.2 not_delivers_subscribe⟩, ha, fun o' ho' =>
      (hkeep.get ho').congr (fun _ hm => hm) ha.grows.objects ha.get⟩

end Leads

end Chain

end DataBinding
