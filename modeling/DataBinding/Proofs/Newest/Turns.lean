import DataBinding.Proofs.Machine.Deliveries
import DataBinding.Proofs.Newest.Stories
/-!
# The turns of a switch

Client code that is given values pushes others, into the outer subject or into those of inner streams, and may be
given further ones before it goes on. By induction on the length of a call, each call leaves the switch up to date
(`State.keeps_resume`, `State.keeps_push`): a new generation first takes the registration before it away, then the
inner stream is subscribed to, and when in the meantime another generation has begun, the subscription is undone.
-/

namespace DataBinding

variable {F C S : Type} {K : Client F C S} {code : C} {i : Nat} {o j : SubjectId} {base : List (Frame F C)}
  {past : List (State F C S)} {w : World F C S} {g k n : Nat} {r : Option (SubjectId × Nat)}

/-- Whatever is pushed into the outer subject is a stream that flows from another one. -/
def Heap.Takes (o : SubjectId) (h : Heap F C) (j : SubjectId) (v : Value) : Prop :=
  j = o → ∃ e j', v = .stream e ∧ (h.stream e).Flows j' ∧ j' ≠ o ∧ j' < h.subjects.size

/-- A check of what is pushed. -/
def Heap.takes? (o : SubjectId) (h : Heap F C) (j : SubjectId) : Value → Bool
  | .stream e => j ≠ o || (h.stream e).flows?.any fun j' => j' ≠ o && j' < h.subjects.size
  | _ => j ≠ o

theorem Heap.Takes.of_check {h : Heap F C} {v : Value} (hv : h.takes? o j v = true) : h.Takes o j v := by
  intro hj
  cases v with
  | stream e =>
    simp only [takes?, hj, ne_eq, not_true_eq_false, decide_false, Bool.false_or, Option.any_eq_true, Bool.and_eq_true,
      decide_eq_true_eq] at hv
    obtain ⟨j', hx, hne, hlt⟩ := hv
    exact ⟨e, j', rfl, Stream.flows?_eq_some.1 hx, hne, hlt⟩
  | _ => exact absurd hj (of_decide_eq_true hv)

namespace State

/-- The command at hand has been given by client code, or is the first one. -/
def Asked (s : State F C S) : Prop := s.frames = [] ∨ ∃ d fs, s.frames = .client d :: fs

/-- Client code pushes values and does not panic, and the subjects are kept alive. -/
structure Pushing (K : Client F C S) (code : C) (o : SubjectId) (s : State F C S) : Prop where
  held : ∀ j < s.world.heap.subjects.size, s.alive K (.subject j) = true
  resumes : ∀ c signal, s.control = .resume c signal →
    Heap.Edits code s.world.heap (K.resume c signal s.world).1.heap ∧ ∀ m, (K.resume c signal s.world).2 ≠ .panic m
  pushes : ∀ c, s.control = .run c → s.Asked → ∃ j v, c = .next j v ∧ s.world.heap.Takes o j v

/-- A check of what client code asks for. -/
def pushes? (o : SubjectId) (s : State F C S) : Bool :=
  match s.control, s.frames with
  | .run c, [] | .run c, .client _ :: _ =>
    match c with
    | .next j v => s.world.heap.takes? o j v
    | _ => false
  | _, _ => true

theorem pushes_of_check {s : State F C S} (h : s.pushes? o = true) {c : Command F C} (hc : s.control = .run c)
    (hask : s.Asked) : ∃ j v, c = .next j v ∧ s.world.heap.Takes o j v := by
  obtain ⟨control, frames, w⟩ := s
  obtain rfl : control = .run c := hc
  rcases hask with hf | ⟨d, fs, hf⟩
  all_goals
    obtain rfl : frames = _ := hf
    cases c with
    | next j v => exact ⟨j, v, rfl, .of_check h⟩
    | _ => cases h

/-! ## Undoing a registration -/

theorem leads_unhook_all (K : Client F C S) (base : List (Frame F C)) (w : World F C S) (j : SubjectId) (k n : Nat) :
    ∃ l, Leads K base ⟨.run (.undoAll (List.replicate n .nothing ++ [.observer j k]) none), base, w⟩ l
      ⟨.pass .done, base, w.withHeap (w.heap.removeObserver j k)⟩ ∧ ∀ x ∈ l, x.Quiet := by
  induction n with
  | zero =>
    refine ⟨_, .go id (.go id (.back (.go id .here))), ?_⟩
    simp only [List.forall_mem_cons]
    exact ⟨trivial, trivial, trivial, trivial, List.forall_mem_nil _⟩
  | succ n ih =>
    obtain ⟨l, hl, hq⟩ := ih
    refine ⟨_, .go id (.go id (.back hl)), ?_⟩
    simp only [List.forall_mem_cons]
    exact ⟨trivial, trivial, trivial, hq⟩

/-- The registration is taken away, and nothing else happens. -/
theorem leads_unhook (K : Client F C S) (base : List (Frame F C)) (w : World F C S) {t : Teardown C}
    (ht : t.Unhooks j k) :
    ∃ l, Leads K base ⟨.run (.undo t), base, w⟩ l ⟨.pass .done, base, w.withHeap (w.heap.removeObserver j k)⟩ ∧
      ∀ x ∈ l, x.Quiet := by
  cases ht with
  | observer => exact ⟨_, .go id .here, List.forall_mem_singleton.2 trivial⟩
  | all n =>
    obtain ⟨l, hl, hq⟩ := leads_unhook_all K base w j k n
    exact ⟨_, .go id hl, List.forall_mem_cons.2 ⟨trivial, hq⟩⟩

/-! ## A new generation -/

/-- On the way to the next inner stream the registration of the one before is taken away. -/
theorem leads_switching (K : Client F C S) (base : List (Frame F C)) {z : Observer F C} {e : StreamId} (hb : Board i o z w.heap g r)
    (hr : ∀ j k, r = some (j, k) → j ≠ o) :
    ∃ l h, Leads K base ⟨.run (.deliver (.outer i .stream z) (.stream e)), base, w⟩ l
        ⟨.run (.subscribe (w.heap.stream e) (.inner i (g + 1) z)), .entering i (g + 1) (w.heap.stream e) :: base,
          w.withHeap h⟩ ∧
      (∀ x ∈ l, x.Quiet) ∧ Board i o z h (g + 1) none ∧ h.streams = w.heap.streams ∧
      h.subjects.size = w.heap.subjects.size := by
  have hstep : step K ⟨.run (.deliver (.outer i .stream z) (.stream e)), base, w⟩ =
      ⟨.run (.undo ((w.heap.switch i).current.getD .nothing)), .switching i (g + 1) (w.heap.stream e) z :: base,
        w.withHeap (w.heap.setSwitch i { w.heap.switch i with generation := g + 1, current := none })⟩ := by
    rw [← hb.generation]
    rfl
  obtain ⟨l, h, hl, hq, hnext, hx, hsize⟩ : ∃ l h, Leads K (.switching i (g + 1) (w.heap.stream e) z :: base)
      (step K ⟨.run (.deliver (.outer i .stream z) (.stream e)), base, w⟩) l
      ⟨.pass .done, .switching i (g + 1) (w.heap.stream e) z :: base, w.withHeap h⟩ ∧ (∀ x ∈ l, x.Quiet) ∧
      Board i o z h (g + 1) none ∧ h.streams = w.heap.streams ∧ h.subjects.size = w.heap.subjects.size := by
    rw [hstep]
    -- there is a registration to be taken away, or none
    cases r with
    | none =>
      rw [hb.idle rfl]
      exact ⟨_, _, .go id .here, List.forall_mem_singleton.2 trivial, hb.next, rfl, rfl⟩
    | some p =>
      obtain ⟨t, ht, hu⟩ := hb.current p.1 p.2 rfl
      rw [ht]
      obtain ⟨l, hl, hq⟩ := leads_unhook K (.switching i (g + 1) (w.heap.stream e) z :: base)
        (w.withHeap (w.heap.setSwitch i { w.heap.switch i with generation := g + 1, current := none })) hu
      exact ⟨l, _, hl, hq, hb.next_of_some (hr _ _ rfl), rfl,
        by simp [Heap.removeObserver, Heap.setSwitch, World.withHeap]⟩
  have hframes : .switching i (g + 1) (w.heap.stream e) z :: base <:+
      (step K ⟨.run (.deliver (.outer i .stream z) (.stream e)), base, w⟩).frames := hstep ▸ List.suffix_refl _
  have hback : Leads K base ⟨.pass .done, .switching i (g + 1) (w.heap.stream e) z :: base, w.withHeap h⟩
      [⟨.pass .done, .switching i (g + 1) (w.heap.stream e) z :: base, w.withHeap h⟩]
      ⟨.run (.subscribe (w.heap.stream e) (.inner i (g + 1) z)), .entering i (g + 1) (w.heap.stream e) :: base,
        w.withHeap h⟩ := by
    refine .back ?_
    rw [frame_switching hnext.running]
    exact .here
  refine ⟨_, h, .go id ((hl.beneath (List.suffix_cons _ _) hframes).trans hback), ?_, hnext, hx, hsize⟩
  simp only [List.forall_mem_cons, List.forall_mem_append]
  exact ⟨trivial, hq, trivial, List.forall_mem_nil _⟩

/-! ## Calls -/

/-- Afterwards the switch is up to date again, compared to an earlier time. -/
def After (i : Nat) (o : SubjectId) (code : C) (base : List (Frame F C)) (past : List (State F C S)) (h : Heap F C)
    (g : Nat) (r : Option (SubjectId × Nat)) (past' : List (State F C S)) (w : World F C S) : Prop :=
  ∃ g' r', UpToDate i o code past' base w.heap g' r' ∧ Grows i past g r past' g' r' ∧
    h.subjects.size ≤ w.heap.subjects.size

/-- Client code that is resumed within so many steps leaves the switch up to date. -/
def Resumes (K : Client F C S) (code : C) (i : Nat) (o : SubjectId) (n : Nat) : Prop :=
  ∀ base past c signal (w : World F C S) g r, UpToDate i o code past base w.heap g r →
    Keeps K (Pushing K code o) n base past ⟨.resume c signal, base, w⟩
      fun past' _ w' => After i o code base past w.heap g r past' w'

/-- The subject of the inner stream has been registered with last, and the answer undoes that. -/
def Entered (i : Nat) (o : SubjectId) (code : C) (base : List (Frame F C)) (past : List (State F C S)) (h : Heap F C)
    (g : Nat) (r : Option (SubjectId × Nat)) (G : Nat) (j : SubjectId) (past' : List (State F C S))
    (signal : Signal C) (w : World F C S) : Prop :=
  ∃ h', After i o code base past h g r past' ⟨h', w.client⟩ ∧
    w.heap = (h'.addObserver j (.inner i G (.client code))).2 ∧
    signal.teardown.Unhooks j (h'.nextId (.subject j))

namespace After

variable {past₁ past' : List (State F C S)} {h h₁ : Heap F C} {g₁ : Nat} {r₁ : Option (SubjectId × Nat)}

/-- Compared to a time before that. -/
theorem trans (a : After i o code base past₁ h₁ g₁ r₁ past' w) (hg : Grows i past g r past₁ g₁ r₁)
    (hs : h.subjects.size ≤ h₁.subjects.size) : After i o code base past h g r past' w := by
  obtain ⟨g', r', hu, hg', hs'⟩ := a
  exact ⟨g', r', hu, hg.trans hg', Nat.le_trans hs hs'⟩

/-- A frame has been told of the answer and is done with. -/
theorem back {f : Frame F C} {fs : List (Frame F C)} {signal : Signal C} {w₁ : World F C S}
    (a : After i o code (f :: base) past h g r past' w) (hf : f.entering? i = none) :
    After i o code base past h g r (past' ++ [⟨.pass signal, fs, w₁⟩]) w := by
  obtain ⟨g', r', hu, hg, hs⟩ := a
  exact ⟨g', r', (hu.below (by simp [hf])).quiet trivial, hg.snoc rfl, hs⟩

end After

section Calls

variable (hR : ∀ m < n, Resumes K code i o m) {G : Nat} {v : Value}
include hR

/-- An inner stream has a value. -/
theorem keeps_inner (hu : UpToDate i o code past base w.heap g r)
    (hG : g = G → ∃ u, (starts i past).getLast? = some (G, u)) :
    Keeps K (Pushing K code o) n base past ⟨.run (.deliver (.inner i G (.client code)) v), base, w⟩
      fun past' _ w' => After i o code base past w.heap g r past' w' := by
  refine .go id fun _ m hm => ?_
  by_cases hg : g = G
  · subst hg
    obtain ⟨u, hs⟩ := hG rfl
    rw [step_inner hu.board.running hu.board.generation]
    have hu₁ := hu.quiet (x := ⟨.run (.deliver (.inner i g (.client code)) v), base, w⟩) trivial
    refine .go id fun _ m' hm' => ?_
    have horder : (⟨.run (.deliver (.client code) v), base, w⟩ : State F C S).InOrder i code
        (past ++ [⟨.run (.deliver (.inner i g (.client code)) v), base, w⟩]) := by
      refine ⟨?_, nofun⟩
      rintro v' ⟨⟩
      refine ⟨past, _, g, u, rfl, rfl, ?_⟩
      rw [starts_append]
      simpa [starts, start?] using hs
    have hu₂ := hu₁.snoc horder rfl rfl
    refine (hR m' (Nat.lt_trans hm' hm) base _ code (.value v) w g r hu₂).mono fun past' _ w' ha => ?_
    exact ha.trans (((Grows.refl past g r).snoc rfl).snoc rfl) (Nat.le_refl _)
  · rw [step_inner_late (fun he => hg (hu.board.generation.symm.trans he))]
    exact .pass ⟨g, r, hu.quiet trivial, (Grows.refl past g r).snoc rfl, Nat.le_refl _⟩

/-- A value is pushed into a subject other than the outer one. -/
theorem keeps_push_inner (hu : UpToDate i o code past base w.heap g r) (hj : j ≠ o) :
    Keeps K (Pushing K code o) n base past ⟨.run (.next j v), base, w⟩
      fun past' _ w' => After i o code base past w.heap g r past' w' := by
  have hnot : emitted? o (⟨.run (.next j v), base, w⟩ : State F C S) = none := emitted?_eq_none (by simp [hj])
  have hu₁ := hu.snoc (hu.inOrder_next j v w.client) rfl hnot
  have hgrows := (Grows.refl past g r).snoc (i := i) (x := (⟨.run (.next j v), base, w⟩ : State F C S)) rfl
  refine .go id fun _ m hm => ?_
  have hstep : State.step K ⟨.run (.next j v), base, w⟩ =
      stepPublish ⟨.run (.next j v), base, w⟩ j v (w.heap.observers j) := rfl
  rw [hstep]
  by_cases hr : ∃ id, r = some (j, id)
  · obtain ⟨id, rfl⟩ := hr
    obtain ⟨-, e, -, -, hs⟩ := hu₁.source
    rw [hu.board.observers hj]
    refine .call (f := .publishing (.inner i g (.client code)) [] j v) (List.suffix_refl _)
      (keeps_inner (fun m' hm' => hR m' (Nat.lt_trans hm' hm)) (hu₁.above rfl) fun _ => ⟨_, hs⟩) ?_
    intro past' signal w' ha
    refine .back fun _ _ => .pass ?_
    exact (ha.back rfl).trans hgrows (Nat.le_refl _)
  · rw [hu.board.observers_of_not hj fun id he => hr ⟨id, he⟩]
    exact .pass ⟨g, r, hu₁, hgrows, Nat.le_refl _⟩

/-- One of the streams that are merged emits a single value. -/
theorem keeps_just {members : List (Teardown C)} {rest : List (Stream F × Observer F C)} {y : Observer F C}
    (hu : UpToDate i o code past (.gathering y members rest :: base) w.heap g r)
    (hG : g = G → ∃ u, (starts i past).getLast? = some (G, u)) :
    Keeps K (Pushing K code o) n (.gathering y members rest :: base) past
      ⟨.run (.subscribe (.just v) (.inner i G (.client code))), .gathering y members rest :: base, w⟩
      fun past' signal w' => signal.teardown = .nothing ∧
        After i o code (.gathering y members rest :: base) past w.heap g r past' w' := by
  have hu₁ := hu.quiet (x := ⟨.run (.subscribe (.just v) (.inner i G (.client code))),
    .gathering y members rest :: base, w⟩) trivial
  have hs : starts i (past ++ [⟨.run (.subscribe (.just v) (.inner i G (.client code))),
      .gathering y members rest :: base, w⟩]) = starts i past := by simp [starts, start?]
  refine .go id fun _ m hm => ?_
  refine .call (f := .subscribed (.inner i G (.client code)) .nothing) (List.suffix_refl _)
    (keeps_inner (fun m' hm' => hR m' (Nat.lt_trans hm' hm)) (hu₁.above rfl) fun hg => hs ▸ hG hg) ?_
  intro past' signal w' ha
  refine .back fun _ _ => .pass ⟨rfl, ?_⟩
  exact (ha.back rfl).trans ((Grows.refl past g r).snoc rfl) (Nat.le_refl _)

/-- The streams of a merge are subscribed to one after the other, and the subject comes last. -/
theorem keeps_gather {q : Nat} (vs : List Value) (hu : UpToDate i o code past base w.heap g r) (hle : G ≤ g)
    (hG : g = G → ∃ u, (starts i past).getLast? = some (G, u)) (hj : j < w.heap.subjects.size) :
    Keeps K (Pushing K code o) n base past
      ⟨.run (.subscribeAll (List.replicate q .nothing)
        ((vs.map Stream.just ++ [Stream.subject j]).map (·, .inner i G (.client code)))), base, w⟩
      (Entered i o code base past w.heap g r G j) := by
  -- on the values that come first; the code may have turned the switch after each of them
  induction vs generalizing past w g r q n with
  | nil =>
    refine .go id fun _ m hm => ?_
    change Keeps K _ m base _ ⟨.run (.subscribe (.subject j) (.inner i G (.client code))),
      .gathering (.inner i G (.client code)) (List.replicate q .nothing) [] :: base, w⟩ _
    refine .go id fun hok m' hm' => ?_
    rw [step_listen (hok.held j hj)]
    refine .back fun _ _ => .go id fun _ _ _ => .pass ⟨w.heap, ⟨g, r, ?_, ?_, Nat.le_refl _⟩, rfl, .all q⟩
    · exact (((hu.quiet (by trivial)).quiet (by trivial)).quiet (by trivial)).quiet (by trivial)
    · exact ((((Grows.refl past g r).snoc rfl).snoc rfl).snoc rfl).snoc rfl
  | cons v vs ih =>
    refine .go id fun _ m hm => ?_
    have hlt : ∀ m' < m, Resumes K code i o m' := fun m' hm' => hR m' (Nat.lt_trans hm' hm)
    have hgrows := (Grows.refl past g r).snoc (i := i) (x := (⟨.run (.subscribeAll (List.replicate q .nothing)
      (((v :: vs).map Stream.just ++ [Stream.subject j]).map (·, .inner i G (.client code)))), base, w⟩ :
        State F C S)) rfl
    have hG₁ := fun hg => (hgrows.same rfl).2 ▸ hG hg
    refine .call (f := .gathering _ _ _) (List.suffix_refl _)
      (keeps_just hlt ((hu.quiet (by trivial)).above rfl) hG₁) ?_
    rintro past' signal w' ⟨ht, ha⟩
    refine .back fun m' hm' => ?_
    simp only [stepFrame, goOn, World.withHeap, ht, ← List.replicate_succ']
    obtain ⟨g', r', hu', hg', hs'⟩ := (ha.back rfl).trans hgrows (Nat.le_refl _)
    refine (ih (fun m'' hm'' => hlt m'' (Nat.lt_trans hm'' hm')) hu' (Nat.le_trans hle hg'.le) ?_
      (Nat.lt_of_lt_of_le hj hs')).mono ?_
    · intro hg
      have hle' := hg'.le
      rw [(hg'.same (by omega)).2]
      exact hG (by omega)
    · rintro past'' signal' w'' ⟨h', ha', hrest⟩
      exact ⟨h', ha'.trans hg' hs', hrest⟩

/-- An inner stream is subscribed to. -/
theorem keeps_beginning {x : Stream F} (hx : x.Flows j)
    (hu : UpToDate i o code (past ++ [beginning i G x code base w]) (.entering i G x :: base) w.heap G none)
    (hj : j < w.heap.subjects.size) :
    Keeps K (Pushing K code o) n (.entering i G x :: base) past (beginning i G x code base w)
      (Entered i o code (.entering i G x :: base) (past ++ [beginning i G x code base w]) w.heap G none G j) := by
  refine .go id fun hok m hm => ?_
  cases hx with
  | subject =>
    rw [step_listen (hok.held j hj)]
    exact .pass ⟨w.heap, ⟨G, none, hu, .refl _ _ _, Nat.le_refl _⟩, rfl, .observer⟩
  | merge vs =>
    exact keeps_gather (fun m' hm' => hR m' (Nat.lt_trans hm' hm)) (q := 0) vs hu (Nat.le_refl G)
      (fun _ => ⟨_, getLast?_starts_beginning⟩) hj

omit hR in
/-- The switch keeps what the subscription has answered, or undoes it when another generation has begun. -/
theorem keeps_entering {x : Stream F} {h : Heap F C} {past' : List (State F C S)} {signal : Signal C} (hx : x.Flows j)
    (he : Entered i o code (.entering i G x :: base) past h G none G j past' signal w)
    (hs : (starts i past).getLast? = some (G, x)) (hj : j ≠ o) (hsize : j < h.subjects.size) :
    Keeps K (Pushing K code o) n base past' ⟨.pass signal, .entering i G x :: base, w⟩
      fun past'' _ w' => ∃ g' r', UpToDate i o code past'' base w'.heap g' r' ∧ G ≤ g' ∧ r' ≠ none ∧
        h.subjects.size ≤ w'.heap.subjects.size := by
  obtain ⟨h', ⟨g', r', hu, hg, hs'⟩, hheap, ht⟩ := he
  have hlt := Nat.lt_of_lt_of_le hsize hs'
  obtain ⟨w, k⟩ := w
  subst hheap
  by_cases hG : g' = G
  · subst hG
    obtain ⟨rfl, hlast⟩ := hg.same rfl
    refine .back fun _ _ => ?_
    rw [frame_entering (by exact hu.board.generation)]
    refine .pass ⟨g', _, (hu.entered (hlast.trans hs) hx hj hlt ht).quiet (by trivial), Nat.le_refl _, nofun, ?_⟩
    simpa [Heap.addObserver, Heap.setSwitch, World.withHeap] using hs'
  · refine .back fun _ _ => ?_
    rw [frame_entering_late (by exact fun he => hG (hu.board.generation.symm.trans he))]
    obtain ⟨l, hl, hq⟩ := leads_unhook K base ⟨(h'.addObserver j (.inner i G (.client code))).2, k⟩ ht
    refine .leads hl (.pass ⟨g', r', ?_, hg.le, hg.new (Nat.lt_of_le_of_ne hg.le (Ne.symm hG)), ?_⟩)
    · exact (((hu.below (by simpa [Frame.entering?] using Ne.symm hG)).quiet (by trivial)).quiets hq).late hlt _
    · simpa [Heap.addObserver, Heap.removeObserver, World.withHeap] using hs'

/-- A stream is pushed into the outer subject. -/
theorem keeps_push_outer {e : StreamId} (hu : UpToDate i o code past base w.heap g r)
    (hx : (w.heap.stream e).Flows j) (hj : j ≠ o) (hsize : j < w.heap.subjects.size) :
    Keeps K (Pushing K code o) n base past ⟨.run (.next o (.stream e)), base, w⟩
      fun past' _ w' => After i o code base past w.heap g r past' w' := by
  obtain ⟨f, hf⟩ : ∃ f, f = Frame.publishing (.outer i .stream (.client code)) [] o (.stream e) := ⟨_, rfl⟩
  have hstep : State.step K ⟨.run (.next o (.stream e)), base, w⟩ =
      ⟨.run (.deliver (.outer i .stream (.client code)) (.stream e)), f :: base, w⟩ := by
    simp only [State.step, stepCommand, hu.board.outer, hf]
    rfl
  obtain ⟨l, h, hl, hq, hnext, hstreams, hsubjects⟩ := leads_switching K (f :: base) (e := e) hu.board
    (by rintro j k rfl; exact hu.source.1)
  have hsame : h.stream e = w.heap.stream e := by simp only [Heap.stream, hstreams]
  rw [← hsame] at hl hx
  refine .go id fun _ m hm => ?_
  rw [hstep]
  refine .call (R := fun past' _ w' => After i o code (f :: base) past w.heap g r past' w') (List.suffix_refl _)
    (.leads hl ?_) ?_
  · refine .call (f := .entering i (g + 1) (h.stream e)) (List.suffix_refl _)
      (keeps_beginning (fun m' hm' => hR m' (Nat.lt_trans hm' hm)) hx (hu.begins hq hnext hx hj (pending_cons (hf ▸ rfl))) (hsubjects ▸ hsize)) ?_
    intro past' signal w' he
    refine (keeps_entering hx he getLast?_starts_beginning hj (hsubjects ▸ hsize)).mono ?_
    rintro past'' - w'' ⟨g', r', hu', hle, hr', hsize'⟩
    exact ⟨g', r', hu', ⟨Nat.le_of_succ_le hle, fun he => absurd he (Nat.ne_of_gt hle), fun _ => hr'⟩,
      hsubjects ▸ hsize'⟩
  · subst hf
    intro past' signal w' ha
    exact .back fun _ _ => .pass (ha.back rfl)

end Calls

/-- Client code gives a command. -/
theorem keeps_asked (hR : ∀ m < n, Resumes K code i o m) {c : Command F C}
    (hu : UpToDate i o code past base w.heap g r) (hask : (⟨.run c, base, w⟩ : State F C S).Asked) :
    Keeps K (Pushing K code o) n base past ⟨.run c, base, w⟩
      fun past' _ w' => After i o code base past w.heap g r past' w' := by
  refine .of_ok id fun hok => ?_
  obtain ⟨j, v, rfl, htakes⟩ := hok.pushes c rfl hask
  by_cases hj : j = o
  · obtain ⟨e, j', rfl, hx, hne, hsize⟩ := htakes hj
    subst hj
    exact keeps_push_outer hR hu hx hne hsize
  · exact keeps_push_inner hR hu hj

theorem resumes (n : Nat) : Resumes K code i o n := by
  induction n using Nat.strongRecOn with
  | ind n hR =>
    intro base past c signal w g r hu
    refine .go id fun hok m hm => ?_
    obtain ⟨hedits, hnot⟩ := hok.resumes c signal rfl
    have hu₁ := (hu.quiet (x := ⟨.resume c signal, base, w⟩) trivial).edits hedits
    have hgrows := (Grows.refl (i := i) past g r).snoc (x := (⟨.resume c signal, base, w⟩ : State F C S)) rfl
    have hsize := hedits.alike.2.2.2.2
    have hstep : State.step K ⟨.resume c signal, base, w⟩ =
        stepMove ⟨.resume c signal, base, (K.resume c signal w).1⟩ (K.resume c signal w).2 := rfl
    rw [hstep]
    cases hmove : (K.resume c signal w).2 with
    | finish => exact .pass ⟨g, r, hu₁, hgrows, hsize⟩
    | goOn d => exact (hR m hm base _ d .done _ g r hu₁).mono fun _ _ _ ha => ha.trans hgrows hsize
    | panic message => exact absurd hmove (hnot message)
    | perform command d =>
      refine .call (f := .client d) (List.suffix_refl _)
        (keeps_asked (fun m' hm' => hR m' (Nat.lt_trans hm' hm)) (hu₁.above rfl) (.inr ⟨d, base, rfl⟩)) ?_
      rintro past' answer w' ha
      obtain ⟨g', r', hu', hg', hsize'⟩ := (ha.back rfl).trans hgrows hsize
      refine .back fun m' hm' => ?_
      exact (hR m' (Nat.lt_trans hm' hm) base _ d answer _ g' r' hu').mono fun _ _ _ ha => ha.trans hg' hsize'

end State

end DataBinding
