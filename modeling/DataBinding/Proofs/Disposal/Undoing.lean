import DataBinding.Proofs.Disposal.Runs
/-!
# Undoing a subscription

What was made for a subscription is undone in one go: no client code is called on the way, nothing is
delivered, and no panic comes of it (`Scope.leads_undo`). What it leaves is given by `Scope.Undone`: of
what was live, its own parts no longer are, and if they all lead to the code, nobody else is taken off a
roster (`Heap.OthersStay`).

Undoing a switch goes on with its inner subscription, which is no part of the teardown but was made after
the switch. So this ends: there are only so many switches.
-/

namespace DataBinding

variable {F C S : Type} {K : Client F C S} {code : C} {base fs : List (Frame F C)} {k : S}

/-! ## Who stays -/

namespace Heap

variable [DecidableEq C] {h h' h'' : Heap F C}

/-- Whoever does not lead to the code is registered as before, under the same ids and in the same order. -/
structure OthersStay (code : C) (h h' : Heap F C) : Prop where
  handlers : ∀ o, (h'.handlers o).filter (·.observer.code? ≠ some code) =
    (h.handlers o).filter (·.observer.code? ≠ some code)
  observers : ∀ i, (h'.roster (.subject i)).filter (·.2.code? ≠ some code) =
    (h.roster (.subject i)).filter (·.2.code? ≠ some code)

namespace OthersStay

theorem of_tables (ho : h'.objects = h.objects) (hs : h'.subjects = h.subjects) : h.OthersStay code h' where
  handlers o := by simp only [Heap.handlers, ho]
  observers i := by simp only [Heap.roster, hs]

theorem trans (a : h.OthersStay code h') (b : h'.OthersStay code h'') : h.OthersStay code h'' :=
  ⟨fun o => (b.handlers o).trans (a.handlers o), fun i => (b.observers i).trans (a.observers i)⟩

theorem removeHandler {o : ObjectId} {id : Nat}
    (hid : ∀ y, (id, y) ∈ h.roster (.object o) → y.code? = some code) :
    h.OthersStay code (h.removeHandler o id) where
  handlers o' := by
    rw [handlers_removeHandler]
    split
    · next he =>
      subst he
      rw [List.filter_filter]
      refine List.filter_congr fun x hx => ?_
      have hcode : x.id = id → x.observer.code? = some code := fun he =>
        hid _ (he ▸ mem_roster_handlers hx)
      by_cases he : x.id = id <;> simp [he, hcode]
    · rfl
  observers _ := rfl

theorem removeObserver {i : SubjectId} {id : Nat}
    (hid : ∀ y, (id, y) ∈ h.roster (.subject i) → y.code? = some code) :
    h.OthersStay code (h.removeObserver i id) where
  handlers _ := rfl
  observers i' := by
    rw [(h.strikes_removeObserver i id).roster]
    split
    · next he =>
      rw [he, List.filter_filter]
      refine List.filter_congr fun e hm => ?_
      have hcode : e.1 = id → e.2.code? = some code := fun he => hid _ (he ▸ hm)
      by_cases he : e.1 = id <;> simp [he, hcode]
    · rfl

/-- If nobody is left who leads to the code, the others are all there is. -/
theorem handlers_eq (a : h.OthersStay code h') (hn : ∀ o, ∀ x ∈ h'.handlers o, x.observer.code? ≠ some code)
    (o : ObjectId) : h'.handlers o = (h.handlers o).filter (·.observer.code? ≠ some code) :=
  (List.filter_eq_self.2 fun x hx => decide_eq_true (hn o x hx)).symm.trans (a.handlers o)

theorem observers_eq (a : h.OthersStay code h')
    (hn : ∀ i, ∀ e ∈ h'.roster (.subject i), e.2.code? ≠ some code) (i : SubjectId) :
    h'.roster (.subject i) = (h.roster (.subject i)).filter (·.2.code? ≠ some code) :=
  (List.filter_eq_self.2 fun e he => decide_eq_true (hn i e he)).symm.trans (a.observers i)

end OthersStay

end Heap

/-! ## What is left -/

namespace Scope

variable [DecidableEq C] {q : Scope C} {own own' : Prop} {n : Nat} {h h' h'' : Heap F C}
  {ps ps' : List Part}

/-- From a heap to the one in which these parts, of a subscription that is in the scope if `own` holds,
have been undone. -/
structure Undone (q : Scope C) (own : Prop) (ps : List Part) (h h' : Heap F C) : Prop where
  later : Heap.Later .none h h'
  size : h'.switches.size = h.switches.size
  keeps : q.KeepsOwn h'
  accounted : ∀ ps', q.Accounted h (ps ++ ps') → q.Accounted h' ps'
  others : q.deep → own → h.OthersStay q.code h'

namespace Undone

theorem refl (hk : q.KeepsOwn h) : q.Undone own [] h h :=
  ⟨.refl _ _, rfl, hk, fun _ => id, fun _ _ => .of_tables rfl rfl⟩

theorem append (a : q.Undone own ps h h') (b : q.Undone own ps' h' h'') :
    q.Undone own (ps ++ ps') h h'' where
  later := a.later.trans b.later
  size := b.size.trans a.size
  keeps := b.keeps
  accounted _ ha := b.accounted _ (a.accounted _ (by rwa [List.append_assoc] at ha))
  others hd ho := (a.others hd ho).trans (b.others hd ho)

theorem strikes {m : Node} {id : Nat} (hk : q.KeepsOwn h) (a : h.Strikes m id h')
    (hs : q.deep → own → h.OthersStay q.code h') : q.Undone own [.entry m id] h h' where
  later := .of_strikes a
  size := by rw [a.switches]
  keeps := hk.later (.of_strikes (N := .none) a) fun i c hi => by rwa [Heap.switch, a.switches] at hi
  accounted _ ha := Accounted.strikes ha a
  others := hs

theorem shutGate (g : Nat) (hk : q.KeepsOwn h) : q.Undone own [.gate g] h (h.shutGate g) where
  later := .shutGate _ h g
  size := rfl
  keeps := hk.later (.shutGate .none h g) fun _ _ => id
  accounted _ ha := Accounted.shutGate ha
  others _ _ := .of_tables rfl rfl

/-- A switch has been stopped and its source undone, and what it kept has been taken out and undone. -/
theorem switch {i : Nat} {h₁ h₂ : Heap F C} (hi : i < h.switches.size) (hown : q.deep → own → q.switch i)
    (hh : h₁ = h.setSwitch i { h.switch i with stopped := true }) (a : q.Undone own ps h₁ h₂)
    (b : q.Undone (q.deep ∧ q.switch i) ((h₂.switch i).current.getD .nothing).parts
      (h₂.setSwitch i { h₂.switch i with current := none }) h') :
    q.Undone own (.switch i :: ps) h h' where
  later := by
    have h₁ : Heap.Later .none h h₁ := hh ▸ .setSwitch _ h i fun _ => rfl
    have h₂ : Heap.Later .none h₂ (h₂.setSwitch i { h₂.switch i with current := none }) :=
      .setSwitch _ h₂ i id
    exact h₁.trans (a.later.trans (h₂.trans b.later))
  size := by
    subst hh
    rw [b.size, Heap.size_setSwitch, a.size, Heap.size_setSwitch]
  keeps := b.keeps
  accounted ps' ha := by
    have hi₂ : i < h₂.switches.size := by
      rw [a.size, hh, Heap.size_setSwitch]
      exact hi
    have hstop : (h₂.switch i).stopped = true := Bool.of_not_eq_false fun hs => by
      rcases a.later.running i hs with hs | ⟨-, hs⟩
      · rw [hh, Heap.switch_setSwitch, if_pos ⟨rfl, hi⟩] at hs
        cases hs
      · exact hs
    have hset : (h₂.setSwitch i { h₂.switch i with current := none }).switch i =
        { h₂.switch i with current := none } := by
      rw [Heap.switch_setSwitch, if_pos ⟨rfl, hi₂⟩]
    have h₁ : q.Accounted h₁ (ps ++ .switch i :: ps') := by
      rw [hh]
      refine (ha.stop (i := i) (x := { h.switch i with stopped := true }) rfl rfl).mono fun p hp => ?_
      simpa [or_left_comm] using hp
    have htake := (a.accounted _ h₁).take (i := i) (x := { h₂.switch i with current := none }) id
    refine b.accounted _ (Accounted.forget (htake.mono fun p hp => ?_)
      (congrArg Switch.stopped hset |>.trans hstop) (congrArg Switch.current hset))
    simpa [or_left_comm] using hp
  others hd ho := by
    have h₁ : h.OthersStay q.code h₁ := hh ▸ .of_tables rfl rfl
    have h₂ : h₂.OthersStay q.code (h₂.setSwitch i { h₂.switch i with current := none }) :=
      .of_tables rfl rfl
    exact h₁.trans ((a.others hd ho).trans (h₂.trans (b.others hd ⟨hd, hown hd ho⟩)))

end Undone

end Scope

/-! ## The way there -/

/-- Something that exists is being undone, or has been. -/
def State.Undoes (s : State F C S) : Prop :=
  s.grounded = true ∧ ((∃ t, s.control = .run (.undo t)) ∨ (∃ l p, s.control = .run (.undoAll l p)) ∨
    s.control = .pass .done)

/-- A frame above the frames that are waited for goes on with a signal. -/
theorem State.Leads.pop {f : Frame F C} {signal : Signal C} {w : World F C S} {l : List (State F C S)}
    {e : State F C S} (hb : base <:+ fs)
    (h : Leads K base (stepFrame ⟨.pass signal, fs, w⟩ signal f) l e) :
    Leads K base ⟨.pass signal, f :: fs, w⟩ (⟨.pass signal, f :: fs, w⟩ :: l) e := by
  refine .step (fun _ he => ?_) h
  have := hb.length_le
  rw [← he] at this
  exact Nat.not_succ_le_self _ this

namespace Scope

variable [DecidableEq C] {q : Scope C} {own : Prop} {n : Nat} {h : Heap F C}

/-- The state comes back to these frames with everything undone that these parts stand for. -/
def Undoing (K : Client F C S) (q : Scope C) (own : Prop) (ps : List Part) (base fs : List (Frame F C))
    (s : State F C S) : Prop :=
  ∃ l h', State.Leads K base s l ⟨.pass .done, fs, h', s.world.client⟩ ∧ (∀ x ∈ l, x.Undoes) ∧
    q.Undone own ps s.world.heap h'

theorem Undoing.one {t : Teardown C} {h' : Heap F C}
    (hg : (⟨.run (.undo t), fs, h, k⟩ : State F C S).grounded = true)
    (hs : State.step K ⟨.run (.undo t), fs, h, k⟩ = ⟨.pass .done, fs, h', k⟩)
    (hu : q.Undone own t.parts h h') :
    q.Undoing K own t.parts base fs ⟨.run (.undo t), fs, h, k⟩ :=
  ⟨_, h', .one id hs, List.forall_mem_singleton.2 ⟨hg, .inl ⟨t, rfl⟩⟩, hu⟩

/-- Members are undone one after the other. -/
theorem undoing_all {members : List (Teardown C)} (hb : base <:+ fs)
    (hall : ∀ t ∈ members, ∀ (h' : Heap F C) fs', h'.switches.size = h.switches.size → base <:+ fs' →
      q.KeepsOwn h' → q.Made h' own n t →
      q.Undoing K own t.parts base fs' ⟨.run (.undo t), fs', h', k⟩)
    (hk : q.KeepsOwn h) (hm : ∀ t ∈ members, q.Made h own n t) :
    q.Undoing K own (members.flatMap Teardown.parts) base fs
      ⟨.run (.undoAll members none), fs, h, k⟩ := by
  induction members generalizing h with
  | nil => exact ⟨_, h, .one id rfl, List.forall_mem_singleton.2 ⟨rfl, .inr (.inl ⟨_, _, rfl⟩)⟩, .refl hk⟩
  | cons t rest ih =>
    obtain ⟨hall, hall'⟩ := List.forall_mem_cons.1 hall
    obtain ⟨hm, hm'⟩ := List.forall_mem_cons.1 hm
    obtain ⟨l, h₁, hl, hu, hun⟩ := hall h (.undoing rest none :: fs) rfl (hb.trans (List.suffix_cons ..)) hk hm
    obtain ⟨l', h₂, hl', hu', hun'⟩ := ih (h := h₁)
      (fun u hu h' fs' hs => hall' u hu h' fs' (hs.trans hun.size)) hun.keeps
      fun u hu => (hm' u hu).later hun.later
    refine ⟨_, h₂, .go id (hl.trans (.pop hb hl')), ?_, ?_⟩
    · refine List.forall_mem_cons.2 ⟨⟨rfl, .inr (.inl ⟨_, _, rfl⟩)⟩, List.forall_mem_append.2 ⟨hu, ?_⟩⟩
      exact List.forall_mem_cons.2 ⟨⟨rfl, .inr (.inr rfl)⟩, hu'⟩
    · rw [List.flatMap_cons]
      exact hun.append hun'

/-- A switch is undone by way of its source and what it keeps then. -/
theorem Undoing.switch {i : Nat} {source : Teardown C} (hb : base <:+ fs) (hi : i < h.switches.size)
    (hown : q.deep → own → q.switch i)
    (a : q.Undoing K own source.parts base (.closing i :: fs) ⟨.run (.undo source), .closing i :: fs,
      h.setSwitch i { h.switch i with stopped := true }, k⟩)
    (b : ∀ h', q.Undone own source.parts (h.setSwitch i { h.switch i with stopped := true }) h' →
      q.Undoing K (q.deep ∧ q.switch i) ((h'.switch i).current.getD .nothing).parts base fs
        ⟨.run (.undo ((h'.switch i).current.getD .nothing)), fs,
          h'.setSwitch i { h'.switch i with current := none }, k⟩) :
    q.Undoing K own (Teardown.switch i source).parts base fs ⟨.run (.undo (.switch i source)), fs, h, k⟩ := by
  obtain ⟨l, h₁, hl, hu, hun⟩ := a
  obtain ⟨l', h₂, hl', hu', hun'⟩ := b h₁ hun
  refine ⟨_, h₂, .go id (hl.trans (.pop hb hl')), ?_, ?_⟩
  · refine List.forall_mem_cons.2 ⟨⟨by simp [State.grounded, hi], .inl ⟨_, rfl⟩⟩,
      List.forall_mem_append.2 ⟨hu, ?_⟩⟩
    exact List.forall_mem_cons.2 ⟨⟨rfl, .inr (.inr rfl)⟩, hu'⟩
  · rw [Teardown.parts_switch]
    exact .switch hi hown rfl hun hun'

/-- What was made for a subscription is undone. -/
theorem undoing {own : Prop} {n : Nat} {fs : List (Frame F C)} (t : Teardown C) (h : Heap F C)
    (hb : base <:+ fs) (hk : q.KeepsOwn h) (ht : q.Made h own n t) (k : S) :
    q.Undoing K own t.parts base fs ⟨.run (.undo t), fs, h, k⟩ := by
  match t with
  | .nothing =>
    rw [Teardown.parts_nothing]
    exact ⟨_, h, .one id rfl, List.forall_mem_singleton.2 ⟨rfl, .inl ⟨_, rfl⟩⟩, .refl hk⟩
  | .handler o id =>
    have hp : q.Typed h own n (.entry (.object o) id) := ht _ (by simp)
    refine .one rfl rfl ?_
    rw [Teardown.parts_handler]
    exact .strikes hk (Heap.strikes_removeHandler ..) fun hd ho =>
      .removeHandler fun y hy => (covers_iff hd y).1 ((hp.2 y hy).2 hd ho)
  | .observer i id =>
    have hp : q.Typed h own n (.entry (.subject i) id) := ht _ (by simp)
    refine .one rfl rfl ?_
    rw [Teardown.parts_observer]
    exact .strikes hk (Heap.strikes_removeObserver ..) fun hd ho =>
      .removeObserver fun y hy => (covers_iff hd y).1 ((hp.2 y hy).2 hd ho)
  | .relocate g source =>
    have hgate : q.Undone own [.gate g] h (h.shutGate g) := .shutGate g hk
    have hsource : q.Made h own n source := fun p hp => ht p (by simp [hp])
    obtain ⟨l, h', hl, hu, hun⟩ := undoing source (h.shutGate g) hb hgate.keeps
      (hsource.later hgate.later) k
    refine ⟨_, h', .go id hl, List.forall_mem_cons.2 ⟨⟨rfl, .inl ⟨_, rfl⟩⟩, hu⟩, ?_⟩
    rw [Teardown.parts_relocate]
    exact hgate.append hun
  | .switch i source =>
    have hp : q.Typed h own n (.switch i) := ht _ (by simp)
    have hsource : q.Made h own n source := fun p hp => ht p (by simp [hp])
    have hstop := Heap.Later.setSwitch .none h i (x := { h.switch i with stopped := true }) fun _ => rfl
    have hkstop : q.KeepsOwn (h.setSwitch i { h.switch i with stopped := true }) :=
      hk.setSwitch (fun _ => rfl) fun _ => id
    -- First its source is undone. What it keeps by then was made after it, hence the measure.
    refine .switch hb hp.1.2 hp.2.2 (undoing source (h.setSwitch i { h.switch i with stopped := true })
      (hb.trans (List.suffix_cons ..)) hkstop (hsource.later hstop) k) fun h' hun => ?_
    have htake := Heap.Later.setSwitch .none h' i (x := { h'.switch i with current := none }) id
    have hktake : q.KeepsOwn (h'.setSwitch i { h'.switch i with current := none }) :=
      hun.keeps.setSwitch id fun _ hc => nomatch hc
    refine undoing ((h'.switch i).current.getD .nothing)
      (h'.setSwitch i { h'.switch i with current := none }) hb hktake (n := i + 1) ?_ k
    cases hc : (h'.switch i).current with
    | none => exact made_nothing
    | some c => exact (hun.keeps i c hc).later htake
  | .all members =>
    have hmembers : ∀ u ∈ members, q.Made h own n u := fun u hu p hp =>
      ht p (by rw [Teardown.parts_all]; exact List.mem_flatMap.2 ⟨u, hu, hp⟩)
    obtain ⟨l, h', hl, hu, hun⟩ := undoing_all (K := K) (k := k) hb
      (fun u hu h' fs' hs hb' hk' hm' => undoing u h' hb' hk' hm' k) hk hmembers
    refine ⟨_, h', .go id hl, List.forall_mem_cons.2 ⟨⟨rfl, .inl ⟨_, rfl⟩⟩, hu⟩, ?_⟩
    rwa [Teardown.parts_all]
  | .composite c => exact (ht .other (by simp)).elim
  | .client c => exact (ht .other (by simp)).elim
termination_by (h.switches.size - n, sizeOf t)
decreasing_by
  · exact Prod.Lex.right' _ (Nat.le_refl _) (by rw [Teardown.relocate.sizeOf_spec]; omega)
  · exact Prod.Lex.right' _ (Nat.le_of_eq (by rw [Heap.size_setSwitch]))
      (by rw [Teardown.switch.sizeOf_spec]; omega)
  · have hsize := hun.size
    rw [Heap.size_setSwitch] at hsize
    have hi := hp.1
    refine Prod.Lex.left _ _ ?_
    rw [Heap.size_setSwitch, hsize]
    omega
  · have hlt := List.sizeOf_lt_of_mem hu
    exact Prod.Lex.right' _ (Nat.le_of_eq (by rw [hs])) (by simp_wf; omega)

/-- A handle is disposed of: what it holds is undone. -/
theorem leads_dispose {s : State F C S} {m : Nat} (hb : base <:+ s.frames)
    (hs : q.SoundHeap (some m) s.world.heap) (hc : s.control = .run (.dispose m)) :
    ∃ l h', State.Leads K base s (s :: l) ⟨.pass .done, s.frames, h', s.world.client⟩ ∧
      (∀ x ∈ l, x.Undoes) ∧
      q.Undone True (s.world.heap.teardown m).parts (s.world.heap.clearHandle m) h' := by
  obtain ⟨c, fs, w⟩ := s
  cases hc
  have hl : Heap.Later .none w.heap (w.heap.clearHandle m) := .of_alike (w.heap.alike_clearHandle m)
  obtain ⟨l, h', hlead, hu, hun⟩ := undoing (K := K) (w.heap.teardown m) (w.heap.clearHandle m) hb
    (hs.keeps.later hl fun _ _ => id) (hs.handle.later hl) w.client
  exact ⟨l, h', .go id hlead, hu, hun⟩

end Scope

end DataBinding
