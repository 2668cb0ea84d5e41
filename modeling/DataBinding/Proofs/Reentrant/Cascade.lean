import DataBinding.Proofs.Reentrant.Others
/-!
# A chain follows a value while others make changes

A value that the chain is given is followed link by link as ever. But the observer at the end may
change anything, and so the links that were just watched may be watched elsewhere when their
subscription is over. In the end the chain is attached (`Chain.Following.deliver`).
-/

namespace DataBinding.Chain

variable {F C S : Type} {c : Chain C} {K : Client F C S} {seen : S → List Value}
  {past : List (State F C S)} {n m : Nat} {pending pending' : List (ObjectId × Nat)}
  {w w' : World F C S} {todo : List Link} {regs new regs' : List (Registration F C)} {u v v' : Value}
  {base : List (Frame F C)}

open State

/-! ## The last operator -/

/-- No handler of a chain that leaves out repeated values leads straight to its code. -/
theorem Follows.ne_client {h : Heap F C} (hf : c.Follows h todo regs v) {k : Nat}
    (hm : c.memory = some k) : ∀ r ∈ regs, ∀ code, r.handler.observer ≠ .client code := by
  intro r hr code
  obtain ⟨-, hr⟩ | ⟨_, _, _, -, -, hr⟩ := hf.cases_mem r hr <;> rw [hr]
  · unfold rootHandler
    cases hl : c.links with
    | nil => simp [observer, last, hm]
    | cons => simp [observer]
  · simp [linkHandler]

section Noted
variable (hK : K.Assigns seen c.code) (hl : c.Live pending w.heap [] regs v)
  (ht : c.Tidy c.Spares w.heap) (htold : ∀ r ∈ regs, LastTold past r.owner r.handler r.told)
  (hr : ∀ k, c.memory = some k → w.heap.memory k = some v)
include hK hl ht htold hr

/-- Code has been given the value at the end of the chain, and it is remembered. -/
theorem attached_of_noted :
    c.Attached seen past pending ⟨w.heap, (K.resume c.code (.value v) w).1.client⟩ regs v where
  live := hl
  tidy := ht
  told := htold
  remembered := by
    intro u hu
    have hlast : (seen (K.resume c.code (.value v) w).1.client).getLast? = some v := by
      simp [hK.notes]
    cases hm : c.memory with
    | none => simp [Chain.remembered, hm] at hu
    | some k =>
      simp only [Chain.remembered, hm, Option.bind_some, hr k hm] at hu
      rw [hlast, hu]
  caught := ⟨v, by simp [hK.notes], .inl rfl⟩

/-- The code of the chain is given the value, and may then make changes itself. -/
theorem resume_noted (ih : ∀ m < n, c.Endures K seen m) :
    Keeps K State.Valid n base past ⟨.resume c.code (.value v), base, w⟩
      (c.Done seen pending w.heap) := by
  have hh := hK.heap c.code (.value v) w
  have hsilent : (⟨.resume c.code (.value v), base, w⟩ : State F C S).Silent c.code :=
    silent_of_control fun _ _ (hc : Control.resume _ _ = _) => by cases hc
  refine .go id fun _ m hm => ?_
  have ha := ((attached_of_noted hK hl ht htold hr).one hsilent).move ih hm
    (hK.moves c.code (.value v) w) (.resume c.code (.value v)) base
  have hw : (K.resume c.code (.value v) w).1 =
      ⟨w.heap, (K.resume c.code (.value v) w).1.client⟩ := by rw [← hh]
  rw [← hw] at ha
  rw [← hh]
  exact ha

end Noted

/-- The last operator is given a value. -/
theorem Following.deliver_last (hK : K.Assigns seen c.code) (ih : ∀ m < n, c.Endures K seen m)
    (hf : c.Following seen (past ++ [⟨.run (.deliver c.last v), base, w⟩]) pending w [] regs v) :
    Keeps K State.Valid n base past ⟨.run (.deliver c.last v), base, w⟩
      (c.Done seen pending w.heap) := by
  refine .go id fun _ m hm => ?_
  have ih' : ∀ k < m, c.Endures K seen k := fun k hk => ih k (Nat.lt_trans hk hm)
  cases hmem : c.memory with
  | none =>
    have hlast : (c.last : Observer F C) = .client c.code := by simp [last, hmem]
    rw [hlast] at hf ⊢
    exact resume_noted hK hf.live hf.tidy hf.told (fun k hk => by rw [hmem] at hk; cases hk) ih'
  | some k =>
    have hlast : (c.last : Observer F C) = .distinct k (.client c.code) := by simp [last, hmem]
    rw [hlast] at hf ⊢
    simp only [State.step, stepCommand, stepDeliver]
    split
    · next hany =>
      -- the value equals the one that was noted last
      cases hu : w.heap.memory k with
      | none => simp [hu] at hany
      | some u =>
        have hrem := hf.remembered u (by simp [Chain.remembered, hmem, hu])
        exact .pass ⟨by simp, ⟨regs, v, hf, u, hrem, .inr (by simpa [hu] using hany)⟩, .refl _⟩
    · have hm := hf.live.memory k hmem
      have hsize : w.heap.memories.size ≤ (w.heap.setMemory k v).memories.size := by
        simp [Heap.setMemory]
      have ho : c.Onward w.heap (w.heap.setMemory k v) := .of_cells rfl rfl hsize
      refine .go id fun _ j hj => ?_
      refine (resume_noted (w := ⟨w.heap.setMemory k v, w.client⟩) hK
        (hf.live.of_cells rfl rfl hsize) (hf.tidy.of_cells rfl rfl hsize)
        (fun r hr => (hf.told r hr).append fun s hs u htell => ?_) (fun k' hk' => ?_)
        (fun i hi => ih' i (Nat.lt_trans hi hj))).mono fun _ _ _ hd => hd.after ho
      · obtain rfl := List.mem_singleton.1 hs
        have he : Control.run (.deliver (.client c.code) v) = .run (.deliver r.handler.observer u) :=
          htell.1
        simp only [Control.run.injEq, Command.deliver.injEq] at he
        exact hf.live.follows.ne_client hmem r hr _ he.1.symm
      · rw [hmem] at hk'
        obtain rfl := Option.some.inj hk'
        simp [Heap.memory, Heap.setMemory, hm]

/-! ## Link by link -/

/-- What is delivered further down the chain tells its registrations nothing. -/
theorem Follows.not_tells {h : Heap F C} (hf : c.Follows h todo regs v) {s : State F C S}
    {x : Observer F C} (hs : s.control = .run (.deliver x u)) (hx : x.depth < todo.length) :
    ∀ r ∈ regs, ∀ u, ¬ s.Tells r.owner r.handler u := by
  intro r hr u' htell
  have he := hs.symm.trans htell.1
  simp only [Control.run.injEq, Command.deliver.injEq] at he
  have hd := hf.depth r hr
  rw [← he.1] at hd
  omega

/-- The next link is told its first value, and passes it on. -/
theorem Advanced.following {l : Link} {h : Heap F C} {t : Teardown C} {s s₁ s₂ : State F C S}
    {L : List (State F C S)} {below : List (Frame F C)}
    (ha : c.Advanced c.Spares l todo v pending regs w.heap t u pending' new h)
    (hf : c.Following seen (past ++ [s]) pending w (l :: todo) regs v)
    (hL : ∀ s ∈ L, ¬ s.Delivers)
    (h₁ : s₁ = ⟨.run (.deliver (.inner l.switch (h.generation l) (c.observer todo)) u),
      .subscribed (.inner l.switch (h.generation l) (c.observer todo)) t :: below, h, w.client⟩)
    (h₂ : s₂.control = .run (.deliver (c.observer todo) u)) :
    c.Following seen (past ++ [s] ++ L ++ [s₁] ++ [s₂]) pending' ⟨h, w.client⟩ todo (new ++ regs)
      u := by
  refine ⟨ha.live, ha.tidy, fun r hr => ?_, fun u hu => hf.remembered u ?_⟩
  · rcases List.mem_append.1 hr with hr | hr
    -- a new registration is told by the first of the two states
    · obtain ⟨-, -, -, rfl, -⟩ | ⟨o, k, -, rfl, -, rfl, -⟩ := ha.parent
      · cases hr
      obtain rfl := List.mem_singleton.1 hr
      refine LastTold.append (.here ?_) fun s' hs' u' htell => ?_
      · rw [h₁]
        exact .subscribed (x := c.linkHandler k (h.generation l) l todo)
      · obtain rfl := List.mem_singleton.1 hs'
        have he := h₂.symm.trans htell.1
        simp only [Control.run.injEq, Command.deliver.injEq] at he
        exact observer_ne_inner _ _ _ _ he.1
    · have hd := hf.told r hr
      rw [List.append_assoc, List.append_assoc]
      refine hd.append fun s' hs' u' => ?_
      simp only [List.mem_append, List.mem_singleton] at hs'
      obtain hs' | rfl | rfl := hs'
      · exact fun htell => hL s' hs' ⟨_, _, htell.1⟩
      · exact hf.live.follows.not_tells (by rw [h₁]) (by simp [Observer.depth]) r hr u'
      · exact hf.live.follows.not_tells h₂ (by simp) r hr u'
  · rw [← hu]
    unfold Chain.remembered
    congr 1
    funext m
    simp [Heap.memory, ha.memories]

/-- The subscription to a link is over. -/
theorem Advanced.attached {l : Link} {h h' : Heap F C} {t : Teardown C}
    (ha : c.Advanced c.Spares l todo v pending regs h t u pending' new h')
    (hl : c.Live pending h (l :: todo) regs v) (ho : c.Onward h' w'.heap)
    (hw : c.Attached seen past pending' w' regs' v') :
    c.Attached seen past pending ⟨w'.heap.entered l.switch (h'.generation l) t, w'.client⟩
      regs' v' where
  live := ha.live_entered hl ho hw.tidy.numbered hw.live
  tidy := ha.tidy_entered hl ho hw.tidy hw.live
  told := hw.told
  remembered := by
    intro u hu
    refine hw.remembered u ?_
    rw [← hu]
    unfold Chain.remembered
    congr 1
    funext m
    simp [Heap.memory]
  caught := hw.caught

/-- A value that the chain is given is followed to the end, and then the chain is attached. -/
theorem Following.deliver (hK : K.Assigns seen c.code) (hp : ∀ s ∈ c.segments, s.property ≠ "")
    (todo : List Link) : ∀ n past pending regs v base (w : World F C S),
    (∀ m < n, c.Endures K seen m) →
    c.Following seen (past ++ [⟨.run (.deliver (c.observer todo) v), base, w⟩]) pending w todo regs v →
    (∀ o, v = .object o → KeptObject K base w.client w.heap o) →
    Keeps K State.Valid n base past ⟨.run (.deliver (c.observer todo) v), base, w⟩
      (c.Done seen pending w.heap) := by
  induction todo with
  | nil => exact fun n past pending regs v base w ih hf _ => hf.deliver_last hK ih
  | cons l todo ihtodo =>
    intro n past pending regs v base w ih hf hk
    have hm := mem_links_of_suffix hf.live.follows.suffix
    have hp' : l.segment.property ≠ "" := hp _ (List.mem_cons_of_mem _ (List.mem_map_of_mem hm))
    obtain ⟨L, inner, t, u, pending', new, h, hL, hd, ha, hk'⟩ :=
      leads_link (K := K) hp' hf.live hf.tidy hk
    refine .leads_lt hL fun m hm' => ?_
    refine .call (f := .entering l.switch (h.generation l) inner) (R := fun past' signal w' =>
      signal = .subscription t ∧ c.Done seen pending' h past' signal w') (List.suffix_cons _ _) ?_ ?_
    -- during the subscription the first value is followed
    · refine .call (f := .subscribed _ t) (R := c.Done seen pending' h) (List.suffix_refl _) ?_ ?_
      · refine .leads_lt (.one id (step_inner (ha.live.running l hm).2 rfl u)) fun j hj => ?_
        refine ihtodo j _ pending' (new ++ regs) u _ ⟨h, w.client⟩
          (fun i hi => ih i (Nat.lt_trans hi (Nat.lt_trans hj hm'))) ?_ fun o ho => ?_
        · rw [List.append_cons past]
          exact ha.following hf hd rfl rfl
        · exact (hk' o ho).congr
            (fun _ hm => List.mem_cons_of_mem _ (List.mem_cons_of_mem _ hm)) rfl fun _ _ => rfl
      · rintro past' signal w' ⟨-, ⟨regs', v', hw⟩, ho⟩
        exact .back fun _ _ => .pass ⟨rfl, by simp, ⟨regs', v', hw.one (silent_pass signal)⟩, ho⟩
    -- and then it is kept or undone
    · rintro past' _ w' ⟨rfl, -, ⟨regs', v', hw⟩, ho⟩
      obtain ⟨L', hL', hd'⟩ := leads_entering K base w'.client (.subscription t)
        (ho.undoes ha.undoes) (h.generation l) inner
      refine .leads hL' (.pass ⟨by simp, ⟨regs', v', ?_⟩, ha.onward_entered hf.live hf.tidy.numbered ho⟩)
      exact (ha.attached hf.live ho hw).more L' (silent_of_not_delivers hd')

end DataBinding.Chain
