import DataBinding.Proofs.Chain.Basic
import DataBinding.Proofs.Heap.Numbered
import DataBinding.Proofs.Value.Equality
/-!
# Registrations of a chain

`Chain.Follows` says which registrations of a chain follow from each other: the root is watched, and
each next segment on the object that the registration before it was told last. `Chain.Live` adds that
these are all the registrations of the present generations, and that nothing else of the chain is left
behind but what is still under way.

The lemmas tell what keeps a chain live: operations that leave it alone (`Chain.Live.leaves`), a
registration that is told a new value (`Chain.Live.retell`), the next link that is watched
(`Chain.Live.watch`) or has no parent (`Chain.Live.absent`), and the end of a subscription that was
under way (`Chain.Live.settle`, `Chain.Live.discard`).
-/

namespace DataBinding

variable {F C : Type}

/-- The generation of the switch of a link. -/
def Heap.generation (h : Heap F C) (l : Link) : Nat := (h.switch l.switch).generation

/-- A handler for a segment, the object it is on, and the value it was told last. -/
structure Registration (F C : Type) where
  owner : ObjectId
  handler : Handler F C
  told : Value

namespace Chain

variable (c : Chain C)

/-! ## Definitions -/

/-- Registrations that follow from each other, the latest first, the links that remain to be
followed, and the value to follow them from. -/
inductive Follows (h : Heap F C) : List Link → List (Registration F C) → Value → Prop
  | root (v : Value) : c.rootHandler ∈ h.handlers c.root →
      Follows h c.links [⟨c.root, c.rootHandler, v⟩] v
  | link {l todo regs o id} (v : Value) : Follows h (l :: todo) regs (.object o) →
      c.linkHandler id (h.generation l) l todo ∈ h.handlers o →
      Follows h todo (⟨o, c.linkHandler id (h.generation l) l todo, v⟩ :: regs) v
  | absent {l todo regs v} : Follows h (l :: todo) regs v → v.object? = none →
      Follows h todo regs .null

/-- A handler of the chain is the one on the root, or one that its switch keeps to undo, or one
whose subscription is still under way. -/
def Owned (pending : List (ObjectId × Nat)) (h : Heap F C) (o : ObjectId) (x : Handler F C) : Prop :=
  (o = c.root ∧ x = c.rootHandler) ∨
    ∃ id g l rest, l :: rest <:+ c.links ∧ x = c.linkHandler id g l rest ∧ g ≤ h.generation l ∧
      ((o, id) ∈ pending ∨
        (g = h.generation l ∧ (h.switch l.switch).current = some (.handler o id)))

/-- The chain is registered with these registrations; the links to do remain to be followed from the
value. Subscriptions of the chain that are under way are pending. -/
structure Live (pending : List (ObjectId × Nat)) (h : Heap F C) (todo : List Link)
    (regs : List (Registration F C)) (v : Value) : Prop where
  follows : c.Follows h todo regs v
  complete : ∀ o id l rest, l :: rest <:+ c.links → todo.length ≤ rest.length →
    c.linkHandler id (h.generation l) l rest ∈ h.handlers o →
    ∃ u, ⟨o, c.linkHandler id (h.generation l) l rest, u⟩ ∈ regs
  owned : ∀ o, ∀ x ∈ h.handlers o, x.observer.code? = some c.code → c.Owned pending h o x
  ordered : regs.Pairwise fun r r' => r.owner = r'.owner → r'.handler.id < r.handler.id
  distinct : (c.links.map Link.switch).Nodup
  running : ∀ l ∈ c.links, l.switch < h.switches.size ∧ (h.switch l.switch).stopped = false
  memory : ∀ m, c.memory = some m → m < h.memories.size

/-- The value delivered last, where it is remembered. -/
def remembered (h : Heap F C) : Option Value := c.memory.bind h.memory

/-- From the first heap to the second, nothing of the chain has changed. -/
structure Leaves (h h' : Heap F C) : Prop extends h.Grows h' where
  handlers : ∀ o x, x.observer.code? = some c.code → (x ∈ h'.handlers o ↔ x ∈ h.handlers o)
  cells : ∀ i ∈ c.links.map Link.switch, h'.switch i = h.switch i
  memory : ∀ m, c.memory = some m → h'.memory m = h.memory m

variable {c} {h h' h'' : Heap F C} {pending : List (ObjectId × Nat)} {todo : List Link}
  {regs : List (Registration F C)} {v : Value}

namespace Leaves

theorem refl (h : Heap F C) : c.Leaves h h :=
  ⟨.refl h, fun _ _ _ => Iff.rfl, fun _ _ => rfl, fun _ _ => rfl⟩

theorem trans (l : c.Leaves h h') (l' : c.Leaves h' h'') : c.Leaves h h'' :=
  ⟨l.toGrows.trans l'.toGrows, fun o x hx => (l'.handlers o x hx).trans (l.handlers o x hx),
    fun i hi => (l'.cells i hi).trans (l.cells i hi),
    fun m hm => (l'.memory m hm).trans (l.memory m hm)⟩

theorem generation (hl : c.Leaves h h') {l : Link} (hm : l ∈ c.links) :
    h'.generation l = h.generation l :=
  congrArg Switch.generation (hl.cells _ (List.mem_map_of_mem hm))

theorem remembered (hl : c.Leaves h h') : c.remembered h' = c.remembered h := by
  unfold Chain.remembered
  cases hm : c.memory with
  | none => rfl
  | some m => exact hl.memory m hm

end Leaves

/-! ## What registrations follow -/

theorem mem_links_of_suffix {l : Link} {rest : List Link} (hs : l :: rest <:+ c.links) :
    l ∈ c.links := hs.subset List.mem_cons_self

namespace Follows

theorem suffix (hf : c.Follows h todo regs v) : todo <:+ c.links := by
  induction hf with
  | root => exact List.suffix_refl _
  | link _ _ _ ih => exact (List.suffix_cons _ _).trans ih
  | absent _ _ ih => exact (List.suffix_cons _ _).trans ih

theorem depth (hf : c.Follows h todo regs v) : ∀ r ∈ regs, todo.length ≤ r.handler.observer.depth := by
  induction hf with
  | root => simp
  | link _ _ _ ih =>
    intro r hr
    rcases List.mem_cons.1 hr with rfl | hr
    · simp
    · exact Nat.le_of_succ_le (ih r hr)
  | absent _ _ ih => exact fun r hr => Nat.le_of_succ_le (ih r hr)

/-- The further from the root, the fewer links remain. -/
theorem pairwise_depth (hf : c.Follows h todo regs v) :
    regs.Pairwise fun r r' => r.handler.observer.depth < r'.handler.observer.depth := by
  induction hf with
  | root => exact List.pairwise_singleton _ _
  | link _ hf _ ih =>
    refine List.pairwise_cons.2 ⟨fun r hr => ?_, ih⟩
    rw [depth_linkHandler]
    exact hf.depth r hr
  | absent _ _ ih => exact ih

theorem eq_of_depth (hf : c.Follows h todo regs v) {r r' : Registration F C} (hr : r ∈ regs)
    (hr' : r' ∈ regs) (hd : r.handler.observer.depth = r'.handler.observer.depth) : r = r' := by
  obtain ⟨k, hk, rfl⟩ := List.mem_iff_getElem.1 hr
  obtain ⟨m, hm, rfl⟩ := List.mem_iff_getElem.1 hr'
  have hp := List.pairwise_iff_getElem.1 hf.pairwise_depth
  rcases Nat.lt_trichotomy k m with hkm | rfl | hkm
  · exact absurd hd (Nat.ne_of_lt (hp k m hk hm hkm))
  · rfl
  · exact absurd hd.symm (Nat.ne_of_lt (hp m k hm hk hkm))

theorem mem_handlers (hf : c.Follows h todo regs v) :
    ∀ r ∈ regs, r.handler ∈ h.handlers r.owner := by
  induction hf with
  | root _ hx => simpa using hx
  | link _ _ hx ih => exact List.forall_mem_cons.2 ⟨hx, ih⟩
  | absent _ _ ih => exact ih

/-- Each registration is the one on the root or one of a link that is done. -/
theorem cases_mem (hf : c.Follows h todo regs v) : ∀ r ∈ regs,
    (r.owner = c.root ∧ r.handler = c.rootHandler) ∨
      ∃ id l rest, l :: rest <:+ c.links ∧ todo.length ≤ rest.length ∧
        r.handler = c.linkHandler id (h.generation l) l rest := by
  induction hf with
  | root => simp
  | @link l todo regs o id v hf hx ih =>
    intro r hr
    rcases List.mem_cons.1 hr with rfl | hr
    · exact .inr ⟨id, l, todo, hf.suffix, Nat.le_refl _, rfl⟩
    · obtain hr | ⟨id, l', rest, hs, hle, hr⟩ := ih r hr
      · exact .inl hr
      · exact .inr ⟨id, l', rest, hs, Nat.le_of_succ_le hle, hr⟩
  | absent _ _ ih =>
    intro r hr
    obtain hr | ⟨id, l', rest, hs, hle, hr⟩ := ih r hr
    · exact .inl hr
    · exact .inr ⟨id, l', rest, hs, Nat.le_of_succ_le hle, hr⟩

theorem code? (hf : c.Follows h todo regs v) :
    ∀ r ∈ regs, r.handler.observer.code? = some c.code := by
  intro r hr
  obtain ⟨-, hr⟩ | ⟨id, l, rest, -, -, hr⟩ := hf.cases_mem r hr <;> rw [hr]
  · exact code?_rootHandler
  · exact code?_linkHandler

/-- The root is registered. -/
theorem root_mem (hf : c.Follows h todo regs v) : ∃ u, ⟨c.root, c.rootHandler, u⟩ ∈ regs := by
  induction hf with
  | root v => exact ⟨v, List.mem_singleton_self _⟩
  | link _ _ _ ih => exact ih.imp fun _ => List.mem_cons_of_mem _
  | absent _ _ ih => exact ih

/-- The registrations are still there and the links done are in the same generations. -/
theorem congr (hf : c.Follows h todo regs v) (hr : ∀ r ∈ regs, r.handler ∈ h'.handlers r.owner)
    (hg : ∀ l rest, l :: rest <:+ c.links → todo.length ≤ rest.length →
      h'.generation l = h.generation l) : c.Follows h' todo regs v := by
  induction hf with
  | root v => exact .root v (hr _ (List.mem_singleton_self _))
  | @link l todo regs o id v hf hx ih =>
    have hl := hg l todo hf.suffix (Nat.le_refl _)
    have hx' := hr _ List.mem_cons_self
    rw [← hl] at hx' ⊢
    exact .link v (ih (fun r hr' => hr r (List.mem_cons_of_mem _ hr'))
      fun l rest hs hle => hg l rest hs (Nat.le_of_succ_le hle)) hx'
  | absent _ hv ih =>
    exact .absent (ih hr fun l rest hs hle => hg l rest hs (Nat.le_of_succ_le hle)) hv

/-- From a registration that is told a value on, the links after it remain to be followed. -/
theorem truncate {r : Registration F C} {pre post : List (Registration F C)}
    (hf : c.Follows h todo (pre ++ r :: post) v) :
    ∃ todo', todo.length ≤ todo'.length ∧
      ((r.owner = c.root ∧ r.handler = c.rootHandler ∧ todo' = c.links) ∨
        ∃ id l, l :: todo' <:+ c.links ∧
          r.handler = c.linkHandler id (h.generation l) l todo') ∧
      ∀ u, c.Follows h todo' (⟨r.owner, r.handler, u⟩ :: post) u := by
  generalize hregs : pre ++ r :: post = regs at hf
  induction hf generalizing pre with
  | root v hx =>
    obtain ⟨rfl, rfl, rfl⟩ : pre = [] ∧ r = ⟨c.root, c.rootHandler, v⟩ ∧ post = [] := by
      cases pre <;> simp_all
    exact ⟨c.links, Nat.le_refl _, .inl ⟨rfl, rfl, rfl⟩, fun u => .root u hx⟩
  | @link l todo regs o id v hf hx ih =>
    cases pre with
    | nil =>
      obtain ⟨rfl, rfl⟩ := List.cons.inj hregs
      exact ⟨todo, Nat.le_refl _, .inr ⟨id, l, hf.suffix, rfl⟩, fun u => .link u hf hx⟩
    | cons r' pre =>
      obtain ⟨todo', hle, ht⟩ := ih (List.cons.inj hregs).2
      exact ⟨todo', Nat.le_of_succ_le hle, ht⟩
  | absent _ _ ih =>
    obtain ⟨todo', hle, ht⟩ := ih hregs
    exact ⟨todo', Nat.le_of_succ_le hle, ht⟩

end Follows

/-! ## Staying live -/

theorem eq_of_length {l l' : Link} {rest rest' : List Link} (hs : l :: rest <:+ c.links)
    (hs' : l' :: rest' <:+ c.links) (hlen : rest.length = rest'.length) : l = l' ∧ rest = rest' := by
  have hsub := List.suffix_of_suffix_length_le hs hs' (by simp [hlen])
  simpa using hsub.eq_of_length (by simp [hlen])

theorem linkHandler_inj {id id' g g' : Nat} {l l' : Link} {rest rest' : List Link}
    (he : (c.linkHandler id g l rest : Handler F C) = c.linkHandler id' g' l' rest') :
    id = id' ∧ g = g' ∧ l.switch = l'.switch := by
  simp only [linkHandler, Handler.mk.injEq, Observer.inner.injEq] at he
  exact ⟨he.1, he.2.2.2.2.2.1, he.2.2.2.2.1⟩

namespace Live

/-- A link of the chain is known by its switch. -/
theorem link_ext (hl : c.Live pending h todo regs v) {l l' : Link} {rest rest' : List Link}
    (hs : l :: rest <:+ c.links) (hs' : l' :: rest' <:+ c.links) (he : l.switch = l'.switch) :
    l = l' ∧ rest = rest' := by
  rcases Nat.lt_trichotomy rest.length rest'.length with hlt | heq | hlt
  · exact absurd he (switch_ne hl.distinct hs' hs hlt).symm
  · exact eq_of_length hs hs' heq
  · exact absurd he (switch_ne hl.distinct hs hs' hlt)
where
  switch_ne (hn : (c.links.map Link.switch).Nodup) {l l' : Link} {rest rest' : List Link}
      (hs : l :: rest <:+ c.links) (hs' : l' :: rest' <:+ c.links)
      (hlt : rest'.length < rest.length) : l.switch ≠ l'.switch := by
    have hmem : l' ∈ rest := by
      have hsub := List.suffix_of_suffix_length_le hs' ((List.suffix_cons _ _).trans hs) hlt
      exact hsub.subset List.mem_cons_self
    obtain ⟨pre, hpre⟩ := hs
    rw [← hpre, List.map_append, List.map_cons, List.nodup_append] at hn
    have hl := (List.nodup_cons.1 hn.2.1).1
    exact fun he => hl (he ▸ List.mem_map_of_mem hmem)

theorem leaves (hl : c.Live pending h todo regs v) (hh : c.Leaves h h') :
    c.Live pending h' todo regs v where
  follows := hl.follows.congr
    (fun r hr => (hh.handlers _ _ (hl.follows.code? r hr)).2 (hl.follows.mem_handlers r hr))
    fun _ _ hs _ => hh.generation (mem_links_of_suffix hs)
  complete o id l rest hs hle hx := by
    rw [hh.generation (mem_links_of_suffix hs)] at hx ⊢
    exact hl.complete o id l rest hs hle ((hh.handlers _ _ code?_linkHandler).1 hx)
  owned o x hx hc := by
    obtain hx | ⟨id, g, l, rest, hs, rfl, hg, hk⟩ := hl.owned o x ((hh.handlers o x hc).1 hx) hc
    · exact .inl hx
    · have hi := hh.cells _ (List.mem_map_of_mem (mem_links_of_suffix hs))
      rw [← hh.generation (mem_links_of_suffix hs)] at hg hk
      rw [← hi] at hk
      exact .inr ⟨id, g, l, rest, hs, rfl, hg, hk⟩
  ordered := hl.ordered
  distinct := hl.distinct
  running l hm := by
    rw [hh.cells _ (List.mem_map_of_mem hm)]
    exact ⟨Nat.lt_of_lt_of_le (hl.running l hm).1 hh.switches, (hl.running l hm).2⟩
  memory m hm := Nat.lt_of_lt_of_le (hl.memory m hm) hh.memories

/-- Objects and switches are as before. -/
theorem of_cells (hl : c.Live pending h todo regs v) (ho : h'.objects = h.objects)
    (hs : h'.switches = h.switches) (hm : h.memories.size ≤ h'.memories.size) :
    c.Live pending h' todo regs v := by
  have hh : ∀ o, h'.handlers o = h.handlers o := fun o => by simp [Heap.handlers, ho]
  have hi : ∀ i, h'.switch i = h.switch i := fun i => by simp only [Heap.switch, hs]
  have hg : ∀ l, h'.generation l = h.generation l := fun l => congrArg Switch.generation (hi _)
  refine ⟨hl.follows.congr (fun r hr => hh _ ▸ hl.follows.mem_handlers r hr) fun l _ _ _ => hg l,
    fun o id l rest hsuf hle hx => ?_, fun o x hx hc => ?_, hl.ordered, hl.distinct, fun l hl' => ?_,
    fun m hm' => Nat.lt_of_lt_of_le (hl.memory m hm') hm⟩
  · rw [hh, hg] at hx
    rw [hg]
    exact hl.complete o id l rest hsuf hle hx
  · obtain hx | ⟨id, g, l, rest, hsuf, rfl, hk⟩ := hl.owned o x (hh o ▸ hx) hc
    · exact .inl hx
    · exact .inr ⟨id, g, l, rest, hsuf, rfl, by rw [hg, hi]; exact hk⟩
  · rw [hi, hs]
    exact hl.running l hl'

/-- A registration is told a value: the links after it remain to be followed. -/
theorem retell {r : Registration F C} {pre post : List (Registration F C)}
    (hl : c.Live pending h todo (pre ++ r :: post) v) :
    ∃ todo', todo.length ≤ todo'.length ∧ r.handler.observer.depth = todo'.length ∧
      ((r.owner = c.root ∧ r.handler = c.rootHandler ∧ todo' = c.links) ∨
        ∃ id l, l :: todo' <:+ c.links ∧
          r.handler = c.linkHandler id (h.generation l) l todo') ∧
      ∀ u, c.Live pending h todo' (⟨r.owner, r.handler, u⟩ :: post) u := by
  obtain ⟨todo', hle, hcases, ht⟩ := hl.follows.truncate
  have hd : r.handler.observer.depth = todo'.length := by
    obtain ⟨-, hx, ht⟩ | ⟨_, _, _, hx⟩ := hcases
    · simp [hx, ht]
    · simp [hx]
  refine ⟨todo', hle, hd, hcases, fun u => ⟨ht u, ?_, hl.owned, ?_, hl.distinct, hl.running,
    hl.memory⟩⟩
  · intro o id l rest hs hle' hx
    obtain ⟨w, hw⟩ := hl.complete o id l rest hs (Nat.le_trans hle hle') hx
    rcases List.mem_append.1 hw with hw | hw
    · have := (List.pairwise_append.1 hl.follows.pairwise_depth).2.2 _ hw r List.mem_cons_self
      simp only [depth_linkHandler, hd] at this
      exact absurd hle' (Nat.not_le_of_lt this)
    · rcases List.mem_cons.1 hw with hw | hw
      · exact ⟨u, List.mem_cons.2 (.inl (by rw [← hw]))⟩
      · exact ⟨w, List.mem_cons_of_mem _ hw⟩
  · exact List.pairwise_cons.2 (List.pairwise_cons.1 (List.pairwise_append.1 hl.ordered).2.1)

/-- All that is registered with the code of the chain is one of its registrations. -/
theorem registered (hl : c.Live [] h [] regs v) {o : ObjectId} {x : Handler F C}
    (hx : x ∈ h.handlers o) (hc : x.observer.code? = some c.code) : ∃ u, ⟨o, x, u⟩ ∈ regs := by
  obtain ⟨rfl, rfl⟩ | ⟨id, g, l, rest, hs, rfl, -, hk⟩ := hl.owned o x hx hc
  · exact hl.follows.root_mem
  · obtain ⟨rfl, -⟩ := hk.resolve_left (by simp)
    exact hl.complete o id l rest hs (Nat.zero_le _) hx

/-! ## The next link -/

/-- The switch of the next link begins a new generation. -/
theorem restart {l : Link} (hn : h.Numbered) (hl : c.Live pending h (l :: todo) regs v) :
    c.Live pending (h.restarted l.switch) (l :: todo) regs v := by
  have hi : l.switch < h.switches.size := (hl.running l (mem_links_of_suffix hl.follows.suffix)).1
  have hdone : ∀ l' rest, l' :: rest <:+ c.links → (l :: todo).length ≤ rest.length →
      l'.switch ≠ l.switch := fun l' rest hs hle he => by
    obtain ⟨-, rfl⟩ := hl.link_ext hs hl.follows.suffix he
    exact absurd hle (Nat.not_succ_le_self _)
  have hgen : ∀ l' rest, l' :: rest <:+ c.links → (l :: todo).length ≤ rest.length →
      (h.restarted l.switch).generation l' = h.generation l' := fun l' rest hs hle => by
    rw [Heap.generation, Heap.switch_restarted _ hi, if_neg (hdone l' rest hs hle), Heap.generation]
  refine ⟨hl.follows.congr (fun r hr => ?_) hgen, fun o id l' rest hs hle hx => ?_,
    fun o x hx hc => ?_, hl.ordered, hl.distinct, fun l' hm => ?_, fun m hm => ?_⟩
  · refine (Heap.mem_handlers_restarted _).2 ⟨hl.follows.mem_handlers r hr, fun hcur => ?_⟩
    have hb := hn.undoes l.switch
    rw [hcur] at hb
    obtain ⟨g, next, hx⟩ := hb.2 _ (hl.follows.mem_handlers r hr) rfl
    obtain ⟨-, hr⟩ | ⟨id, l', rest, hs, hle, hr⟩ := hl.follows.cases_mem r hr
    · exact observer_ne_inner _ _ _ _ (hr ▸ hx)
    · rw [hr, linkHandler, Observer.inner.injEq] at hx
      exact hdone l' rest hs hle hx.1
  · rw [hgen l' rest hs hle] at hx ⊢
    exact hl.complete o id l' rest hs hle ((Heap.mem_handlers_restarted _).1 hx).1
  · obtain ⟨hx, hcur⟩ := (Heap.mem_handlers_restarted _).1 hx
    obtain hx | ⟨id, g, l', rest, hs, rfl, hg, hk⟩ := hl.owned o x hx hc
    · exact .inl hx
    · refine .inr ⟨id, g, l', rest, hs, rfl, ?_⟩
      rw [Heap.generation, Heap.switch_restarted _ hi]
      split
      · next he =>
        obtain ⟨rfl, -⟩ := hl.link_ext hs hl.follows.suffix he
        exact ⟨Nat.le_succ_of_le hg, .inl (hk.resolve_right fun hk => hcur hk.2)⟩
      · exact ⟨hg, hk⟩
  · rw [Heap.switch_restarted _ hi]
    refine ⟨by simpa [Heap.restarted] using (hl.running l' hm).1, ?_⟩
    split
    · next he => exact he ▸ (hl.running l' hm).2
    · exact (hl.running l' hm).2
  · simpa using hl.memory m hm

/-- No handler is of the generation that a switch has just begun. -/
theorem generation_restarted {l : Link} (hl : c.Live pending h (l :: todo) regs v) {o : ObjectId}
    {id g : Nat} (hx : c.linkHandler id g l todo ∈ (h.restarted l.switch).handlers o) :
    g < (h.restarted l.switch).generation l := by
  have hi : l.switch < h.switches.size := (hl.running l (mem_links_of_suffix hl.follows.suffix)).1
  rw [Heap.generation, Heap.switch_restarted _ hi, if_pos rfl]
  obtain ⟨-, hx⟩ | ⟨id', g', l', rest, hs, hx, hg, -⟩ :=
    hl.owned o _ ((Heap.mem_handlers_restarted _).1 hx).1 code?_linkHandler
  · exact absurd hx.symm rootHandler_ne_linkHandler
  · obtain ⟨rfl, rfl, he⟩ := linkHandler_inj hx
    obtain ⟨rfl, -⟩ := hl.link_ext hl.follows.suffix hs he
    exact Nat.lt_succ_of_le hg

/-- There is no object to watch the next link on. -/
theorem absent {l : Link} (hn : h.Numbered) (hl : c.Live pending h (l :: todo) regs v)
    (hv : v.object? = none) : c.Live pending (h.restarted l.switch) todo regs .null := by
  have hr := hl.restart hn
  refine ⟨.absent hr.follows hv, fun o id l' rest hs hle hx => ?_, hr.owned, hr.ordered, hr.distinct,
    hr.running, hr.memory⟩
  rcases Nat.lt_or_eq_of_le hle with hlt | heq
  · exact hr.complete o id l' rest hs hlt hx
  · obtain ⟨rfl, rfl⟩ := eq_of_length hs hl.follows.suffix heq.symm
    exact absurd (hl.generation_restarted hx) (Nat.lt_irrefl _)

/-- The next link is watched on its parent. -/
theorem watch {l : Link} {o : ObjectId} (hn : h.Numbered)
    (hl : c.Live pending h (l :: todo) regs (.object o)) (ho : o < h.objects.size) (id g : Nat)
    (hid : id = (h.restarted l.switch).nextHandler o) (hg : g = (h.restarted l.switch).generation l)
    (u : Value) :
    c.Live ((o, id) :: pending) ((h.restarted l.switch).addHandler o c.timing l.segment.property
      false (.inner l.switch g (c.observer todo))).2 todo
      (⟨o, c.linkHandler id g l todo, u⟩ :: regs) u := by
  subst hid hg
  have hr := hl.restart hn
  have ho' : o < (h.restarted l.switch).objects.size := by
    rw [(Heap.grows_restarted (h := h) l.switch).objects]
    exact ho
  have hmem : ∀ o' x, x ∈ ((h.restarted l.switch).addHandler o c.timing l.segment.property false
      (.inner l.switch ((h.restarted l.switch).generation l) (c.observer todo))).2.handlers o' ↔
      x ∈ (h.restarted l.switch).handlers o' ∨ (o' = o ∧ x = c.linkHandler
        ((h.restarted l.switch).nextHandler o) ((h.restarted l.switch).generation l) l todo) := by
    intro o' x
    rw [Heap.mem_handlers_addHandler, linkHandler, and_iff_right ho']
  refine ⟨.link u (hr.follows.congr (fun r hm => (hmem _ _).2 (.inl (hr.follows.mem_handlers r hm)))
    fun _ _ _ _ => rfl) ((hmem _ _).2 (.inr ⟨rfl, rfl⟩)), fun o' id l' rest hs hle hx => ?_,
    fun o' x hx hc => ?_, List.pairwise_cons.2 ⟨fun r hm he => ?_, hr.ordered⟩, hr.distinct,
    hr.running, hr.memory⟩
  · rcases Nat.lt_or_eq_of_le hle with hlt | heq
    · rcases (hmem _ _).1 hx with hx | ⟨rfl, hx⟩
      · exact (hr.complete o' id l' rest hs hlt hx).imp fun _ => List.mem_cons_of_mem _
      · have hd := congrArg (Observer.depth ∘ Handler.observer) hx
        simp only [Function.comp, depth_linkHandler] at hd
        exact absurd hd.symm (Nat.ne_of_lt hlt)
    -- of this generation of the link only the new handler is registered
    · obtain ⟨rfl, rfl⟩ := eq_of_length hs hl.follows.suffix heq.symm
      rcases (hmem _ _).1 hx with hx | ⟨rfl, hx⟩
      · exact absurd (hl.generation_restarted hx) (Nat.lt_irrefl _)
      · exact ⟨u, List.mem_cons.2 (.inl (by rw [← hx]))⟩
  · rcases (hmem _ _).1 hx with hx | ⟨rfl, rfl⟩
    · obtain hx | ⟨id, g, l', rest, hs, rfl, hg, hk⟩ := hr.owned o' x hx hc
      · exact .inl hx
      · exact .inr ⟨id, g, l', rest, hs, rfl, hg, hk.imp_left (List.mem_cons_of_mem _)⟩
    · exact .inr ⟨_, _, l, todo, hl.follows.suffix, rfl, Nat.le_refl _, .inl List.mem_cons_self⟩
  · have hlt := (hn.restarted l.switch).below _ _ (hr.follows.mem_handlers r hm)
    rw [← he] at hlt
    exact hlt

/-! ## The end of what is under way -/

/-- A subscription of the present generation is kept by its switch. -/
theorem settle {o : ObjectId} {id : Nat} {l : Link} {rest : List Link} (hn : h.Numbered)
    (hl : c.Live ((o, id) :: pending) h todo regs v) (hs : l :: rest <:+ c.links)
    (hle : todo.length ≤ rest.length)
    (hx : c.linkHandler id (h.generation l) l rest ∈ h.handlers o) :
    c.Live pending (h.setSwitch l.switch { h.switch l.switch with current := some (.handler o id) })
      todo regs v := by
  have hi := (hl.running l (mem_links_of_suffix hs)).1
  have hgen : ∀ l', (h.setSwitch l.switch { h.switch l.switch with
      current := some (.handler o id) }).generation l' = h.generation l' := fun l' => by
    rw [Heap.generation, Heap.switch_setSwitch, Heap.generation]
    split
    · next he => rw [he.1]
    · rfl
  refine ⟨hl.follows.congr (fun r hr => hl.follows.mem_handlers r hr) fun l' _ _ _ => hgen l',
    fun o' id' l' rest' hs' hle' hx' => ?_, fun o' x hx' hc => ?_, hl.ordered, hl.distinct,
    fun l' hm => ?_, hl.memory⟩
  · rw [hgen] at hx' ⊢
    exact hl.complete o' id' l' rest' hs' hle' hx'
  · obtain hx' | ⟨id', g, l', rest', hs', rfl, hg, hk⟩ := hl.owned o' x hx' hc
    · exact .inl hx'
    · refine .inr ⟨id', g, l', rest', hs', rfl, (hgen l').symm ▸ hg, ?_⟩
      rw [hgen, Heap.switch_setSwitch]
      -- what was pending is kept by the switch now, and the rest is still pending
      rcases hk with hk | ⟨rfl, hk⟩
      · rcases List.mem_cons.1 hk with hk | hk
        · obtain ⟨rfl, rfl⟩ := Prod.mk.inj hk
          obtain ⟨-, rfl, he⟩ := linkHandler_inj (Heap.eq_of_id hn hx' hx rfl)
          obtain ⟨rfl, -⟩ := hl.link_ext hs' hs he
          exact .inr ⟨rfl, by rw [if_pos ⟨rfl, hi⟩]⟩
        · exact .inl hk
      · refine .inr ⟨rfl, ?_⟩
        split
        · next he =>
          obtain ⟨rfl, rfl⟩ := hl.link_ext hs' hs he.1
          obtain ⟨w, hw⟩ := hl.complete o id l' rest' hs hle hx
          obtain ⟨w', hw'⟩ := hl.complete o' id' l' rest' hs hle hx'
          have := hl.follows.eq_of_depth hw hw' (by simp)
          obtain ⟨rfl, hh, -⟩ := Registration.mk.inj this
          obtain ⟨rfl, -⟩ := linkHandler_inj hh
          rfl
        · exact hk
  · rw [Heap.switch_setSwitch, Heap.size_setSwitch]
    refine ⟨(hl.running l' hm).1, ?_⟩
    split
    · next he => exact he.1 ▸ (hl.running l' hm).2
    · exact (hl.running l' hm).2

/-- With nothing registered for a link there is nothing to keep. -/
theorem vacate {l : Link} (hl : c.Live pending h todo regs v)
    (hc : (h.switch l.switch).current = none) :
    c.Live pending (h.setSwitch l.switch { h.switch l.switch with current := some .nothing })
      todo regs v := by
  have hcell : ∀ i, ((h.setSwitch l.switch { h.switch l.switch with
      current := some .nothing }).switch i).generation = (h.switch i).generation ∧
      ((h.setSwitch l.switch { h.switch l.switch with
      current := some .nothing }).switch i).stopped = (h.switch i).stopped := fun i => by
    rw [Heap.switch_setSwitch]
    split
    · next he => rw [he.1]; exact ⟨rfl, rfl⟩
    · exact ⟨rfl, rfl⟩
  refine ⟨hl.follows.congr (fun r hr => hl.follows.mem_handlers r hr) fun l' _ _ _ => (hcell _).1,
    fun o' id' l' rest' hs' hle' hx' => ?_, fun o' x hx' hx'' => ?_, hl.ordered, hl.distinct,
    fun l' hm => ⟨by simpa using (hl.running l' hm).1, (hcell _).2.trans (hl.running l' hm).2⟩,
    hl.memory⟩
  · rw [Heap.generation, (hcell _).1] at hx' ⊢
    exact hl.complete o' id' l' rest' hs' hle' hx'
  · obtain hx' | ⟨id', g, l', rest', hs', rfl, hg, hk⟩ := hl.owned o' x hx' hx''
    · exact .inl hx'
    · refine .inr ⟨id', g, l', rest', hs', rfl, le_of_le_of_eq hg (hcell _).1.symm,
        hk.imp_right fun hk => ?_⟩
      refine ⟨hk.1.trans (hcell _).1.symm, ?_⟩
      rw [Heap.switch_setSwitch, if_neg fun he => ?_]
      · exact hk.2
      · rw [he.1, hc] at hk
        cases hk.2

/-- A subscription of an older generation is undone. -/
theorem discard {o : ObjectId} {id g : Nat} {l : Link} {rest : List Link}
    (hl : c.Live ((o, id) :: pending) h todo regs v) (hs : l :: rest <:+ c.links)
    (hg : g < h.generation l)
    (hx : ∀ y ∈ h.handlers o, y.id = id → y = c.linkHandler id g l rest) :
    c.Live pending (h.removeHandler o id) todo regs v := by
  have hkeep : ∀ o' y, y ∈ h.handlers o' → (∀ g' l' rest', l' :: rest' <:+ c.links →
      y = c.linkHandler id g' l' rest' → g' = h.generation l') → y ∈ (h.removeHandler o id).handlers o' := by
    refine fun o' y hy hg' => (Heap.mem_handlers_removeHandler _ _ _ _).2 ⟨hy, fun ⟨ho, hid⟩ => ?_⟩
    subst ho
    exact absurd (hg' g l rest hs (hx y hy hid)) (Nat.ne_of_lt hg)
  refine ⟨hl.follows.congr (fun r hr => ?_) fun _ _ _ _ => rfl, fun o' id' l' rest' hs' hle hx' => ?_,
    fun o' x hx' hc => ?_, hl.ordered, hl.distinct, hl.running, hl.memory⟩
  · refine hkeep _ _ (hl.follows.mem_handlers r hr) fun g' l' rest' hs' he => ?_
    obtain ⟨-, hr⟩ | ⟨id', l'', rest'', hs'', -, hr⟩ := hl.follows.cases_mem r hr
    · exact absurd (hr.symm.trans he) rootHandler_ne_linkHandler
    · obtain ⟨-, rfl, hsw⟩ := linkHandler_inj (hr.symm.trans he)
      obtain ⟨rfl, -⟩ := hl.link_ext hs' hs'' hsw.symm
      rfl
  · exact hl.complete o' id' l' rest' hs' hle ((Heap.mem_handlers_removeHandler _ _ _ _).1 hx').1
  · obtain ⟨hx', hne⟩ := (Heap.mem_handlers_removeHandler _ _ _ _).1 hx'
    obtain hx' | ⟨id', g', l', rest', hs', rfl, hg', hk⟩ := hl.owned o' x hx' hc
    · exact .inl hx'
    · refine .inr ⟨id', g', l', rest', hs', rfl, hg', hk.imp_left fun hk => ?_⟩
      rcases List.mem_cons.1 hk with hk | hk
      · obtain ⟨rfl, rfl⟩ := Prod.mk.inj hk
        exact absurd ⟨rfl, rfl⟩ hne
      · exact hk

end Live

end Chain

end DataBinding
