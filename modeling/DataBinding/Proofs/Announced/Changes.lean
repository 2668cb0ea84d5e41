import DataBinding.Proofs.Announced.Rounds
/-!
# A change is announced exactly

What an assignment does when the handlers leave the properties alone, whatever else they do. An equal value
is not stored and nobody is called. Another one is stored first, and then there are two rounds
(`State.Announcement`): one with the old value for the registrations due before the change, and then one with
the new value for those due after it, as they are when that round begins (`State.set_announced`).
-/

namespace DataBinding

variable {F C S : Type} {K : Client F C S} {base : List (Frame F C)} {o : ObjectId} {p : String} {old v : Value}

namespace State

/-- The states that the announcement of a change goes through, once the value is stored, and its end. It is
cut short by the first panic; otherwise the assignment answers that there was a change. -/
inductive Announcement (K : Client F C S) (base : List (Frame F C)) (o : ObjectId) (p : String) (old v : Value)
    (w : World F C S) : List (State F C S) → State F C S → Prop
  | stopped {l message w'} :
      Round K (.announcing o p old v :: base) o old w (w.heap.due o .before p) l (some message) w' →
      Announcement K base o p old v w (l ++ [⟨.panic message, .announcing o p old v :: base, w'⟩])
        ⟨.panic message, base, w'⟩
  | broken {l w₁ l' message w'} :
      Round K (.announcing o p old v :: base) o old w (w.heap.due o .before p) l none w₁ →
      Round K (.changed o old v :: base) o v w₁ (w₁.heap.due o .after p) l' (some message) w' →
      Announcement K base o p old v w (l ++ ⟨.pass .done, .announcing o p old v :: base, w₁⟩ ::
        (l' ++ [⟨.panic message, .changed o old v :: base, w'⟩])) ⟨.panic message, base, w'⟩
  | made {l w₁ l' w'} :
      Round K (.announcing o p old v :: base) o old w (w.heap.due o .before p) l none w₁ →
      Round K (.changed o old v :: base) o v w₁ (w₁.heap.due o .after p) l' none w' →
      Announcement K base o p old v w (l ++ ⟨.pass .done, .announcing o p old v :: base, w₁⟩ ::
        (l' ++ [⟨.pass .done, .changed o old v :: base, w'⟩])) ⟨.pass (.flag true), base, w'⟩

/-- The round before a change passes on to the one after it. -/
theorem step_announcing (w : World F C S) :
    step K (afterRound (.announcing o p old v :: base) none w) =
      stepNotify ⟨.pass .done, .changed o old v :: base, w⟩ o v (w.heap.due o .after p) := by
  rw [← Heap.handlersFor_eq_due]
  rfl

/-- The answer to a frame is passed on through it. -/
theorem Ends.above {f : Frame F C} {s e e' : State F C S} {l l' : List (State F C S)} (h : Ends K (f :: base) s l e)
    (hs : f :: base <:+ s.frames) (h' : Ends K base (e.step K) l' e') : Ends K base s (l ++ e :: l') e' :=
  h.call (List.suffix_cons ..) hs
    (.step (fun _ hb => List.cons_ne_self f base (h.answered.2.symm.trans hb)) h')

/-- A change is stored and announced, and nothing else happens. -/
theorem Announcement.ends {w : World F C S} {l : List (State F C S)} {e : State F C S} (c : Control F C)
    (h : Announcement K base o p old v w l e) :
    Ends K base (stepNotify ⟨c, .announcing o p old v :: base, w⟩ o old (w.heap.due o .before p)) l e := by
  have hsuffix : ∀ (c : Control F C) (f : Frame F C) (w : World F C S) u (hs : List (Handler F C)),
      f :: base <:+ (stepNotify ⟨c, f :: base, w⟩ o u hs).frames := fun c f w u hs =>
    suffix_notify ⟨c, f :: base, w⟩ o u hs
  cases h with
  | stopped hr => exact (hr.ends c).above (hsuffix ..) (.answer trivial rfl)
  | broken hr hr' =>
    refine (hr.ends c).above (hsuffix ..) ?_
    rw [step_announcing]
    exact (hr'.ends _).above (hsuffix ..) (.answer trivial rfl)
  | made hr hr' =>
    refine (hr.ends c).above (hsuffix ..) ?_
    rw [step_announcing]
    exact (hr'.ends _).above (hsuffix ..) (.answer trivial rfl)

/-- If a change that is stored comes to an end, it has been announced. -/
theorem Ends.announcement {w : World F C S} {c : Control F C} {l : List (State F C S)} {e : State F C S}
    (h : Ends K base (stepNotify ⟨c, .announcing o p old v :: base, w⟩ o old (w.heap.due o .before p)) l e) :
    Announcement K base o p old v w l e := by
  obtain ⟨l₁, s₁, l₂, rfl, h₁, h₂⟩ := h.split (List.suffix_cons ..)
    (suffix_notify ⟨c, .announcing o p old v :: base, w⟩ ..)
  obtain ⟨panic, w₁, hr, rfl⟩ := h₁.round
  obtain ⟨l₃, rfl, h₃⟩ := h₂.next fun _ => List.cons_ne_self _ _
  cases panic with
  | some message =>
    obtain ⟨rfl, rfl⟩ := h₃.of_answer trivial rfl
    exact .stopped hr
  | none =>
    rw [step_announcing] at h₃
    obtain ⟨l₄, s₄, l₅, rfl, h₄, h₅⟩ := h₃.split (List.suffix_cons ..)
      (suffix_notify ⟨_, .changed o old v :: base, w₁⟩ ..)
    obtain ⟨panic, w', hr', rfl⟩ := h₄.round
    obtain ⟨l₆, rfl, h₆⟩ := h₅.next fun _ => List.cons_ne_self _ _
    cases panic with
    | some message =>
      obtain ⟨rfl, rfl⟩ := h₆.of_answer trivial rfl
      exact .broken hr hr'
    | none =>
      obtain ⟨rfl, rfl⟩ := h₆.of_answer trivial rfl
      exact .made hr hr'

/-- If every handler called in the course of an announcement comes back and leaves the properties as they
are, the announcement comes to an end and leaves them as they are. -/
theorem exists_announcement {w : World F C S} (c : Control F C)
    (hK : ∀ l f u w' x rest,
      Leads K base (stepNotify ⟨c, .announcing o p old v :: base, w⟩ o old (w.heap.due o .before p)) l
        (calling (f :: base) o u w' x rest) → (calling (f :: base) o u w' x rest).Harmless K) :
    ∃ l e, Announcement K base o p old v w l e ∧
      ∀ s ∈ l ++ [e], ∀ a q, s.world.heap.get a q = w.heap.get a q := by
  have habove := fun (c : Control F C) (f : Frame F C) (w : World F C S) u (hs : List (Handler F C)) =>
    suffix_notify ⟨c, f :: base, w⟩ o u hs
  obtain ⟨l, panic, w₁, hr, hget⟩ := exists_round c fun l w' x rest hl =>
    hK l _ _ w' x rest (hl.beneath (List.suffix_cons ..) (habove ..))
  cases panic with
  | some message =>
    refine ⟨_, _, .stopped hr, ?_⟩
    have hend := hget _ (List.mem_append_right _ (List.mem_singleton.2 rfl))
    exact List.forall_mem_append.2 ⟨hget, List.forall_mem_singleton.2 hend⟩
  | none =>
    have hlead := ((hr.ends c).leads (List.suffix_cons ..) (habove ..)).trans
      (.step (fun _ => List.cons_ne_self _ _) .here)
    rw [step_announcing] at hlead
    obtain ⟨l', panic, w', hr', hget'⟩ := exists_round (.pass .done) fun l' w' x rest hl =>
      hK _ _ _ w' x rest (hlead.trans (hl.beneath (List.suffix_cons ..) (habove ..)))
    have hw₁ := hget _ (List.mem_append_right _ (List.mem_singleton.2 rfl))
    have hget' : ∀ s ∈ l' ++ [afterRound (.changed o old v :: base) panic w'], ∀ a q,
        s.world.heap.get a q = w.heap.get a q := fun s hs a q => (hget' s hs a q).trans (hw₁ a q)
    have hend := hget' _ (List.mem_append_right _ (List.mem_singleton.2 rfl))
    have hall : ∀ e : State F C S, e.world = w' →
        ∀ s ∈ (l ++ afterRound (.announcing o p old v :: base) none w₁ ::
          (l' ++ [afterRound (.changed o old v :: base) panic w'])) ++ [e],
        ∀ a q, s.world.heap.get a q = w.heap.get a q := fun e he => by
      refine List.forall_mem_append.2 ⟨?_, List.forall_mem_singleton.2 (he ▸ hend)⟩
      rw [← List.singleton_append, ← List.append_assoc]
      exact List.forall_mem_append.2 ⟨hget, hget'⟩
    cases panic with
    | some message => exact ⟨_, _, .broken hr hr', hall _ rfl⟩
    | none => exact ⟨_, _, .made hr hr', hall _ rfl⟩

/-- **A change is announced exactly.** Every handler that is called in the course of the assignment comes
back, be it with a panic, and leaves the properties as they are. Then an equal value changes nothing and
nobody is called. Any other value is stored before anybody is called, and stays stored even if there is a
panic; without one the registrations due before the change have been called with the old value, and then
those due after it with the new one. -/
theorem set_announced {w : World F C S} (ho : o < w.heap.objects.size)
    (hK : ∀ l f u w' x rest, Leads K base ⟨.run (.set o p v), base, w⟩ l (calling (f :: base) o u w' x rest) →
      (calling (f :: base) o u w' x rest).Harmless K) :
    ((w.heap.get o p).eqv v = true →
      Ends K base ⟨.run (.set o p v), base, w⟩ [⟨.run (.set o p v), base, w⟩] ⟨.pass (.flag false), base, w⟩) ∧
    ((w.heap.get o p).eqv v = false →
      ∃ l e, Ends K base ⟨.run (.set o p v), base, w⟩ (⟨.run (.set o p v), base, w⟩ :: l) e ∧
        (∀ s ∈ l ++ [e], ∀ a q, s.world.heap.get a q = if a = o ∧ q = p then v else w.heap.get a q) ∧
        Announcement K base o p (w.heap.get o p) v (w.withHeap (w.heap.put o p v)) l e) := by
  constructor
  · intro he
    exact (Leads.one id (step_set_same he)).ends (.answer trivial rfl)
  · intro he
    have hstep : step K ⟨.run (.set o p v), base, w⟩ = _ := step_set_other he
    rw [Heap.handlersFor_eq_due] at hstep
    obtain ⟨l, e, ha, hget⟩ := exists_announcement (w := w.withHeap (w.heap.put o p v)) (.pass .done)
      fun l f u w' x rest hl => hK _ f u w' x rest (.go id (hstep ▸ hl))
    refine ⟨l, e, .step False.elim (hstep ▸ ha.ends _), fun s hs a q => ?_, ha⟩
    exact (hget s hs a q).trans (Heap.get_put w.heap o a p q v ho)

end State

/-! ## A door that is opened -/

/-- Code notes what it is given. Code 0 also takes handler 2 off object 0 and registers code 4 instead, to be
told afterwards of every property. -/
def Client.porter : Client Empty Nat (List (Nat × Value)) where
  apply := nofun
  resume
    | 0, .value v, w =>
      (⟨((w.heap.removeHandler 0 2).addHandler 0 .after "" false (.client 4)).2, w.client ++ [(0, v)]⟩, .finish)
    | n, .value v, w => (⟨w.heap, w.client ++ [(n, v)]⟩, .finish)
    | _, _, w => (w, .finish)
  functionRefs := nofun
  codeRefs _ := []
  refs _ := [.object 0]

/-- Whatever the porter's code does, it comes back, and properties stay as they are. -/
theorem State.harmless_porter (c : Nat) (v : Value) (fs : List (Frame Empty Nat))
    (w : World Empty Nat (List (Nat × Value))) :
    (⟨.run (.deliver (.client c) v), fs, w⟩ : State _ _ _).Harmless .porter := by
  obtain ⟨w', hw, hget⟩ : ∃ w', Client.porter.resume c (.value v) w = (w', .finish) ∧
      ∀ o p, w'.heap.get o p = w.heap.get o p := by
    cases c with
    | zero => exact ⟨_, rfl, fun o p => by simp⟩
    | succ n => exact ⟨_, rfl, fun _ _ => rfl⟩
  have hstep : step .porter ⟨.resume c (.value v), fs, w⟩ = ⟨.pass .done, fs, w'⟩ := by
    simp only [step, hw]
    rfl
  have hend : Ends .porter fs ⟨.resume c (.value v), fs, w⟩ _ ⟨.pass .done, fs, w'⟩ :=
    (Leads.one id hstep).ends (.answer trivial rfl)
  refine ⟨_, _, .step False.elim hend, ?_⟩
  exact List.forall_mem_cons.2 ⟨fun _ _ => rfl, List.forall_mem_cons.2 ⟨fun _ _ => rfl,
    List.forall_mem_singleton.2 hget⟩⟩

/-- A door with two handlers to be told before a change and two to be told afterwards. -/
def Heap.door : Heap Empty Nat :=
  let h := (Heap.empty.newObject "Door" .full).2
  let h := (h.addHandler 0 .before "State" false (.client 0)).2
  let h := (h.addHandler 0 .before "" false (.client 1)).2
  let h := (h.addHandler 0 .after "State" false (.client 2)).2
  (h.addHandler 0 .after "State" false (.client 3)).2

/-- A check that values are delivered to client code only. -/
def State.toClients : State Empty Nat (List (Nat × Value)) → Bool
  | ⟨.run (.deliver (.client _) _), _, _⟩ => true
  | ⟨.run (.deliver _ _), _, _⟩ => false
  | _ => true

theorem State.client_of_toClients {x : Observer Empty Nat} {v : Value} {fs : List (Frame Empty Nat)}
    {w : World Empty Nat (List (Nat × Value))} (h : toClients ⟨.run (.deliver x v), fs, w⟩ = true) :
    ∃ c, x = .client c := by
  cases x with
  | client c => exact ⟨c, rfl⟩
  | _ => cases h

/-- The door is opened. Handler 2 is called no more, and handler 4 already is. -/
theorem World.door_opened :
    ∃ l e, State.Ends .porter [] (World.start ⟨.door, []⟩ (.set 0 "State" (.text "open")))
        (World.start ⟨.door, []⟩ (.set 0 "State" (.text "open")) :: l) e ∧
      (∀ s ∈ l ++ [e], ∀ a q, s.world.heap.get a q =
        if a = 0 ∧ q = "State" then .text "open" else Heap.door.get a q) ∧
      State.Announcement .porter [] 0 "State" .null (.text "open")
        ⟨Heap.door.put 0 "State" (.text "open"), []⟩ l e ∧
      e.world.client = [(0, .null), (1, .null), (3, .text "open"), (4, .text "open")] := by
  have hend : State.Ends .porter [] (World.start ⟨.door, []⟩ (.set 0 "State" (.text "open")))
      (State.visited .porter 40 _) (State.run .porter 40 _) :=
    State.ends_iff_run.2 ⟨40, rfl, by decide +kernel, rfl⟩
  have hclients : ∀ s ∈ State.visited .porter 40 (World.start ⟨.door, []⟩ (.set 0 "State" (.text "open"))),
      s.toClients = true := by decide +kernel
  obtain ⟨l, e, he, hget, ha⟩ := (State.set_announced (o := 0) (p := "State") (v := .text "open")
    (w := ⟨.door, []⟩) (by decide) fun l f u w' x rest (hl : State.Leads .porter [] _ l _) => by
      obtain ⟨c, hc⟩ := State.client_of_toClients (hclients _ (hl.mem hend id))
      rw [State.calling, hc]
      exact State.harmless_porter ..).2 (by decide)
  refine ⟨l, e, he, hget, ha, ?_⟩
  rw [(hend.unique he).2]
  rfl

end DataBinding
