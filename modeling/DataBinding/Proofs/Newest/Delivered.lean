import DataBinding.Proofs.Disposal.Runs
import DataBinding.Proofs.Newest.Turns
/-!
# The newest inner stream

Code subscribes to a switch over a subject, and streams are pushed into that subject, and values into the subjects of
these streams, by whomever and in whatever order, also by client code that is just being given a value. Only the inner
stream that was subscribed to last is followed (`World.Opens.newest`).

What is pushed into it while it is still being subscribed to may be lost (`World.lost_while_entering`): the streams of
a merge are subscribed to one after the other, and client code that is given a value by the first comes before the
second is registered with.
-/

namespace DataBinding

variable {F C S : Type} {K : Client F C S} {code : C} {i : Nat} {o j : SubjectId} {base : List (Frame F C)}
  {w w₁ w' : World F C S} {l past : List (State F C S)} {s e : State F C S}

/-- The code subscribes to a switch over a subject. Until then nobody has subscribed to any subject. -/
structure World.Opens (K : Client F C S) (code : C) (o : SubjectId) (w w₁ : World F C S) : Prop where
  here : o < w.heap.subjects.size
  unheard : ∀ j, w.heap.roster (.subject j) = []
  subscribes : ∃ l signal, State.Ends K [] (w.start (.subscribe (.switch (.subject o) .stream) (.client code))) l
    ⟨.pass signal, [], w₁⟩ ∧ ∀ x ∈ l, x.alive K (.subject o) = true

/-- The switch is up to date when it begins. -/
theorem World.Opens.upToDate (ho : w.Opens K code o w₁) :
    UpToDate w.heap.switches.size o code ([] : List (State F C S)) [] w₁.heap 0 none := by
  obtain ⟨l, signal, he, halive⟩ := ho.subscribes
  obtain ⟨l₁, rfl, he₁⟩ := he.next nofun
  obtain ⟨l₂, rfl, he₂⟩ := he₁.next nofun
  have hstep : State.step K (State.step K (w.start (.subscribe (.switch (.subject o) .stream) (.client code)))) =
      ⟨.pass (.subscription (.observer o (w.heap.nextId (.subject o)))), [.opening w.heap.switches.size],
        w.withHeap (w.heap.newSwitch.2.addObserver o (.outer w.heap.switches.size .stream (.client code))).2⟩ :=
    State.step_listen (w := w.withHeap w.heap.newSwitch.2) (halive _ (List.mem_cons_of_mem _ List.mem_cons_self))
  rw [hstep] at he₂
  obtain ⟨l₃, rfl, he₃⟩ := he₂.next fun _ => List.cons_ne_nil _ _
  obtain ⟨-, he⟩ := he₃.unique (.answer trivial rfl)
  cases he
  exact ⟨.opened ho.unheard ho.here, .nil, ⟨.nil, nofun, nofun⟩, .inl ⟨rfl, rfl, rfl, rfl⟩⟩

/-- Along a run the switch stays up to date. -/
theorem World.Runs.upToDate {g : Nat} {r : Option (SubjectId × Nat)} (hr : w.Runs K code l w')
    (hu : UpToDate i o code past [] w.heap g r) (hp : ∀ x ∈ l, x.Pushing K code o) :
    ∃ g' r', UpToDate i o code (past ++ l) [] w'.heap g' r' := by
  induction hr generalizing past g r with
  | nil => exact ⟨g, r, by rwa [List.append_nil]⟩
  | edit he _ ih => exact ih (hu.edits he) hp
  | @command w c l e l' w' _ he _ ih =>
    obtain ⟨hp, hp'⟩ := List.forall_mem_append.1 hp
    obtain ⟨signal, w₂, rfl, g', r', hu', -⟩ :=
      State.keeps_asked (fun m _ => State.resumes m) hu (.inl rfl) l e (Nat.le_refl _) he hp
    rw [← List.append_assoc]
    exact ih hu' hp'

/-- Each call within a run comes to an end within it. -/
theorem World.Runs.call {l₁ l₂ : List (State F C S)} (hr : w.Runs K code (l₁ ++ s :: l₂) w') :
    ∃ l e l', s :: l₂ = l ++ l' ∧ State.Ends K s.frames s l e := by
  generalize hl : l₁ ++ s :: l₂ = l at hr
  induction hr generalizing l₁ l₂ with
  | nil => simp at hl
  | edit _ _ ih => exact ih hl
  | @command w c l e l' w' _ he _ ih =>
    rcases List.append_eq_append_iff.1 hl with ⟨l₃, hl₃, hrest⟩ | ⟨l₃, hl₃, hrest⟩
    · cases l₃ with
      | nil => exact ih (show [] ++ s :: l₂ = l' from hrest)
      | cons x l₃ =>
        obtain ⟨rfl, rfl⟩ := List.cons.inj hrest
        obtain ⟨-, he'⟩ := (hl₃ ▸ he).cut
        obtain ⟨l₄, e', l₅, hsplit, hcall, -⟩ := he'.split List.nil_suffix (List.suffix_refl _)
        refine ⟨l₄, e', l₅ ++ l', ?_, hcall⟩
        rw [← List.append_assoc, ← hsplit]
        rfl
    · exact ih hrest.symm

/-! ## What a call delivers itself -/

namespace State.Ends

/-- Above client code that is resumed there are only the calls that it makes. -/
theorem resumed {c : C} {signal : Signal C} (he : Ends K base ⟨.resume c signal, base, w⟩ l e) :
    ∀ x ∈ l, x.frames = base ∧ (∀ c, x.control ≠ .run c) ∨ ∃ d, .client d :: base <:+ x.frames := by
  generalize hs : (⟨.resume c signal, base, w⟩ : State F C S) = s at he
  have hfirst : s.frames = base ∧ (∀ c, s.control ≠ .run c) ∨ ∃ d, .client d :: base <:+ s.frames :=
    .inl (hs ▸ ⟨rfl, nofun⟩)
  clear hs
  induction he with
  | answer => nofun
  | @step s l e hn _ ih =>
    refine List.forall_mem_cons.2 ⟨hfirst, ih ?_⟩
    obtain ⟨control, frames, w⟩ := s
    rcases hfirst with ⟨rfl, hrun⟩ | ⟨d, hd⟩
    · cases control with
      | run c => exact absurd rfl (hrun c)
      | pass signal | panic message => exact absurd rfl (hn trivial)
      | resume c signal =>
        have hstep : State.step K ⟨.resume c signal, frames, w⟩ =
            stepMove ⟨.resume c signal, frames, (K.resume c signal w).1⟩ (K.resume c signal w).2 := rfl
        rw [hstep]
        cases (K.resume c signal w).2 with
        | perform command d => exact .inr ⟨d, List.suffix_refl _⟩
        | _ => exact .inl ⟨rfl, nofun⟩
    · by_cases ha : control.IsAnswer ∧ frames = .client d :: base
      · obtain ⟨ha, rfl⟩ := ha
        cases control with
        | run | resume => exact ha.elim
        | pass signal | panic message => exact .inl ⟨rfl, nofun⟩
      · exact .inr ⟨d, suffix_step K _ hd fun hc hf => ha ⟨hc, hf⟩⟩

/-- What is pushed into a subject that only the latest inner stream listens to is delivered once by the call itself;
what client code does in turn are calls of its own. -/
theorem once [DecidableEq F] [DecidableEq C] {v : Value} {g : Nat} (he : Ends K s.frames s l e)
    (hs : s.control = .run (.next j v)) (hj : s.world.heap.observers j = [.inner i g (.client code)])
    (hg : (s.world.heap.switch i).generation = g) (hrun : (s.world.heap.switch i).stopped = false) :
    values (.client code) (l.filter (·.frames.length = s.frames.length + 1)) = [v] := by
  obtain ⟨control, base, w⟩ := s
  cases hs
  obtain ⟨f, hf⟩ : ∃ f, f = Frame.publishing (.inner i g (.client code)) [] j v := ⟨_, rfl⟩
  have hstep : State.step K ⟨.run (.next j v), base, w⟩ =
      ⟨.run (.deliver (.inner i g (.client code)) v), f :: base, w⟩ := by
    simp only [State.step, stepCommand]
    rw [hj, hf]
    rfl
  have hinner : State.step K ⟨.run (.deliver (.inner i g (.client code)) v), f :: base, w⟩ =
      ⟨.run (.deliver (.client code) v), f :: base, w⟩ := step_inner hrun hg v
  -- the push, what is delivered to the inner observer, then to the code, and what that does
  obtain ⟨l₁, rfl, h₁⟩ := he.next False.elim
  rw [hstep] at h₁
  obtain ⟨l₂, rfl, h₂⟩ := h₁.next False.elim
  rw [hinner] at h₂
  obtain ⟨l₃, rfl, h₃⟩ := h₂.next False.elim
  obtain ⟨l₄, s₁, l₅, rfl, h₄, h₅⟩ := h₃.split (List.suffix_cons f base) (List.suffix_refl _)
  -- the calls of the code are made under further frames
  have hcode : values (.client code) (l₄.filter (·.frames.length = base.length + 1)) = [] := by
    refine List.filterMap_eq_nil_iff.2 fun x hx => value?_eq_none fun v hv => ?_
    obtain ⟨hx, hlen⟩ := List.mem_filter.1 hx
    rcases h₄.resumed x hx with ⟨-, hrun⟩ | ⟨d, hd⟩
    · exact hrun _ hv
    · have hle := hd.length_le
      simp only [List.length_cons, decide_eq_true_eq] at hle hlen
      omega
  have hback : ∀ x ∈ l₅, x.value? (.client code) = none := by
    obtain ⟨control, frames, w₁⟩ := s₁
    obtain ⟨ha, rfl⟩ := h₄.answered
    obtain ⟨l₆, rfl, h₆⟩ := h₅.next fun _ => List.cons_ne_self _ _
    subst hf
    cases control with
    | run | resume => exact ha.elim
    | pass signal | panic message =>
      obtain ⟨rfl, -⟩ := h₆.unique (.answer trivial rfl)
      exact List.forall_mem_singleton.2 rfl
  have hrest : values (.client code) (l₅.filter (·.frames.length = base.length + 1)) = [] :=
    List.filterMap_eq_nil_iff.2 fun x hx => hback x (List.mem_filter.1 hx).1
  have hlead : ∀ l', values (.client code) (((⟨.run (.next j v), base, w⟩ : State F C S) ::
      ⟨.run (.deliver (.inner i g (.client code)) v), f :: base, w⟩ :: ⟨.run (.deliver (.client code) v), f :: base, w⟩ ::
        l').filter (·.frames.length = base.length + 1)) =
      v :: values (.client code) (l'.filter (·.frames.length = base.length + 1)) := by
    simp [values, value?, delivery?]
  refine (hlead _).trans ?_
  rw [List.filter_append, values_append, hcode, hrest]
  rfl

/-- What is pushed into a subject that nobody listens to is not delivered. -/
theorem lost [DecidableEq F] [DecidableEq C] {v : Value} (he : Ends K s.frames s l e)
    (hs : s.control = .run (.next j v)) (hj : s.world.heap.observers j = []) :
    values (.client code) (l.filter (·.frames.length = s.frames.length + 1)) = [] := by
  obtain ⟨control, base, w⟩ := s
  cases hs
  have hstep : State.step K ⟨.run (.next j v), base, w⟩ = ⟨.pass .done, base, w⟩ := by
    simp only [State.step, stepCommand]
    rw [hj]
    rfl
  obtain ⟨l₁, rfl, h₁⟩ := he.next False.elim
  rw [hstep] at h₁
  obtain ⟨rfl, -⟩ := h₁.unique (.answer trivial rfl)
  simp [values]

end State.Ends

/-! ## The newest inner stream -/

section Newest

variable [DecidableEq F] [DecidableEq C]

/-- Each value that the code is given was the last inner stream's subscribed to until then. -/
def DeliversNewest (i : Nat) (code : C) (l : List (State F C S)) : Prop :=
  ∀ past x later v, l = past ++ x :: later → x.control = .run (.deliver (.client code) v) →
    ∃ past' y g u, past = past' ++ [y] ∧ y.control = .run (.deliver (.inner i g (.client code)) v) ∧
      (starts i past).getLast? = some (g, u)

/-- Each value that is pushed into the inner stream subscribed to last is delivered once by that call itself; while the
stream is still being subscribed to it is not delivered. -/
def HearsNewest (K : Client F C S) (i : Nat) (code : C) (l : List (State F C S)) : Prop :=
  ∀ past x later j v g u, l = past ++ x :: later → x.control = .run (.next j v) →
    (starts i past).getLast? = some (g, u) → u.Flows j →
    ∃ call e rest, x :: later = call ++ rest ∧ State.Ends K x.frames x call e ∧
      values (.client code) (call.filter (·.frames.length = x.frames.length + 1)) =
        if g ∈ pending i x.frames then [] else [v]

/-- The switch is registered with the outer subject and, as soon as a stream has been pushed into that, with the
subject of the one pushed last; it is registered with nothing else. -/
def RegisteredWithNewest (i : Nat) (o : SubjectId) (code : C) (l : List (State F C S)) (h : Heap F C) : Prop :=
  h.observers o = [.outer i .stream (.client code)] ∧
    match (emitted o l).getLast? with
    | none => ∀ j, j ≠ o → h.observers j = []
    | some e => ∃ g j, (starts i l).getLast? = some (g, h.stream e) ∧ (h.stream e).Flows j ∧ j ≠ o ∧
        ∀ j', j' ≠ o → h.observers j' = if j' = j then [.inner i g (.client code)] else []

/-- **Switching follows the newest inner stream.** -/
theorem World.Opens.newest (ho : w.Opens K code o w₁) (hr : w₁.Runs K code l w')
    (hp : ∀ x ∈ l, x.Pushing K code o) :
    DeliversNewest w.heap.switches.size code l ∧ HearsNewest K w.heap.switches.size code l ∧
      RegisteredWithNewest w.heap.switches.size o code l w'.heap := by
  obtain ⟨g, r, hu⟩ := hr.upToDate ho.upToDate hp
  rw [List.nil_append] at hu
  refine ⟨fun past x later v he => (hu.order past x later he).delivered v, ?_, hu.board.outer, ?_⟩
  · intro past x later j v g u he hx hs hflows
    obtain ⟨hobs, hg, hrun⟩ := (hu.order past x later he).heard j v g u hx hs hflows
    obtain ⟨call, e, rest, hsplit, hcall⟩ := (he ▸ hr).call
    refine ⟨call, e, rest, hsplit, hcall, ?_⟩
    split
    · next hpending => exact hcall.lost hx (by rw [hobs, if_pos hpending])
    · next hpending => exact hcall.once hx (by rw [hobs, if_neg hpending]) hg hrun
  · rcases hu.latest with ⟨-, rfl, -, hnil⟩ | ⟨e, j, hj, hx, he, hs, ⟨id, rfl⟩ | ⟨-, hpending⟩⟩
    · rw [hnil]
      exact fun j hj => hu.board.observers_of_not hj nofun
    · rw [he]
      refine ⟨g, j, hs, hx, hj, fun j' hj' => ?_⟩
      split
      · next heq =>
        subst heq
        exact hu.board.observers hj'
      · next hne =>
        exact hu.board.observers_of_not hj' fun id he => hne (by cases he; rfl)
    · cases hpending

end Newest

/-! ## Two streams -/

/-- Commands that others run one after the other are a run. -/
theorem World.Undergoes.runs {commands : List (Command F C)} {es : List (State F C S)}
    (h : w.Undergoes K commands l es) (ho : ∀ c ∈ commands, c.Outside code) :
    w.Runs K code l ((es.map State.world).getLastD w) := by
  induction h with
  | nil => exact .nil
  | cons he _ ih =>
    obtain ⟨hc, ho⟩ := List.forall_mem_cons.1 ho
    rw [List.map_cons, List.getLastD_cons]
    exact .command hc he (ih ho)

/-- Of a client that holds three subjects: code that notes the values it is given, and pushes what a function tells it
to in turn. -/
def Client.answering (answer : Value → Option (SubjectId × Value)) : Client Empty Unit (List Value) where
  apply f := nomatch f
  resume
    | _, .value v, w => (⟨w.heap, w.client ++ [v]⟩, (answer v).elim .finish fun p => .perform (.next p.1 p.2) ())
    | _, _, w => (w, .finish)
  functionRefs _ := []
  codeRefs _ := []
  refs _ := [.subject 0, .subject 1, .subject 2]

theorem State.pushing_answering {answer : Value → Option (SubjectId × Value)} {s : State Empty Unit (List Value)}
    (hs : s.pushes? o = true ∧ ∀ j < s.world.heap.subjects.size, s.alive (.answering answer) (.subject j) = true) :
    s.Pushing (.answering answer) () o where
  held := hs.2
  resumes c signal _ := by
    cases signal with
    | value v =>
      simp only [Client.answering]
      cases answer v <;> exact ⟨.refl, nofun⟩
    | _ => exact ⟨.refl, nofun⟩
  pushes c := pushes_of_check hs.1

namespace World

/-- Three subjects to which nobody has subscribed, and two streams: one emits a value at once and flows from the second
subject, the other one flows from the third. -/
def twoStreams : World Empty Unit (List Value) :=
  ⟨((Heap.empty.newSubject.2.newSubject.2.newSubject.2.newStream (.merge [.just (.bool true), .subject 1])).2.newStream
    (.subject 2)).2, []⟩

/-- The code has subscribed to a switch over the first subject. -/
def switching (answer : Value → Option (SubjectId × Value)) : World Empty Unit (List Value) :=
  ((twoStreams.start (.subscribe (.switch (.subject 0) .stream) (.client ()))).run (.answering answer) 3).world

theorem opens_twoStreams (answer : Value → Option (SubjectId × Value)) :
    twoStreams.Opens (.answering answer) () 0 (switching answer) where
  here := by decide
  unheard j := by
    match j with
    | 0 | 1 | 2 => rfl
    | j + 3 => simp [Heap.roster, twoStreams, Heap.newStream, Heap.newSubject, Heap.empty]
  subscribes := ⟨_, .subscription (.switch 0 (.observer 0 0)), State.ends_iff_run.2 ⟨3, rfl, rfl, rfl⟩,
    List.forall_mem_cons.2 ⟨rfl, List.forall_mem_cons.2 ⟨rfl, List.forall_mem_cons.2 ⟨rfl, nofun⟩⟩⟩⟩

/-- The code pushes into the second subject when it is given the value that the first stream emits at once. -/
def hasty : Value → Option (SubjectId × Value)
  | .bool true => some (1, .bool false)
  | _ => none

/-- What it pushes is lost: that stream is the newest one, but its subject is not yet registered with. -/
theorem lost_while_entering :
    ∃ w' past x later g u, twoStreams.Opens (.answering hasty) () 0 (switching hasty) ∧
      (switching hasty).Runs (.answering hasty) () (past ++ x :: later) w' ∧
      (∀ y ∈ past ++ x :: later, y.Pushing (.answering hasty) () 0) ∧
      x.control = .run (.next 1 (.bool false)) ∧ (starts 0 past).getLast? = some (g, u) ∧ u.Flows 1 ∧
      values (.client ()) (past ++ x :: later) = [.bool true] := by
  have hundergoes : (switching hasty).Undergoes (.answering hasty) [.next 0 (.stream 0)] _ _ :=
    undergoes_states 40 (by decide +kernel)
  have hruns : (switching hasty).Runs (.answering hasty) () _ _ := hundergoes.runs (by simp [Command.Outside])
  have hpushing : ∀ y ∈ (switching hasty).states (.answering hasty) 40 [.next 0 (.stream 0)],
      y.Pushing (.answering hasty) () 0 := by
    have hcheck : ∀ y ∈ (switching hasty).states (.answering hasty) 40 [.next 0 (.stream 0)], y.pushes? 0 = true ∧
        ∀ j < y.world.heap.subjects.size, y.alive (.answering hasty) (.subject j) = true := by decide +kernel
    exact fun y hy => State.pushing_answering (hcheck y hy)
  have hvalues : values (.client ()) ((switching hasty).states (.answering hasty) 40 [.next 0 (.stream 0)]) =
      [.bool true] := rfl
  obtain ⟨past, x, later, hsplit, hx, hs⟩ : ∃ past x later,
      (switching hasty).states (.answering hasty) 40 [.next 0 (.stream 0)] = past ++ x :: later ∧
      x.control = .run (.next 1 (.bool false)) ∧
      (starts 0 past).getLast? = some (1, .merge [.just (.bool true), .subject 1]) :=
    ⟨((switching hasty).states (.answering hasty) 40 [.next 0 (.stream 0)]).take 10, _,
      ((switching hasty).states (.answering hasty) 40 [.next 0 (.stream 0)]).drop 11, rfl, rfl, rfl⟩
  rw [hsplit] at hruns hpushing hvalues
  exact ⟨_, past, x, later, 1, _, opens_twoStreams hasty, hruns, hpushing, hx, hs, .merge [.bool true], hvalues⟩

/-- The code pushes the second stream when it is given the value that the first one emits at once, and pushes into the
third subject when it is given another value. -/
def detour : Value → Option (SubjectId × Value)
  | .bool true => some (0, .stream 1)
  | .bool false => some (2, .null)
  | _ => none

/-- While the first stream is being subscribed to, the second one takes its place. -/
theorem Opens.newest_detour :
    ∃ l w', twoStreams.Opens (.answering detour) () 0 (switching detour) ∧
      (switching detour).Runs (.answering detour) () l w' ∧
      (∀ y ∈ l, y.Pushing (.answering detour) () 0) ∧
      values (.client ()) l = [.bool true, .bool false, .null] ∧ (starts 0 l).map Prod.fst = [1, 2] ∧
      DeliversNewest 0 () l ∧ HearsNewest (.answering detour) 0 () l ∧ RegisteredWithNewest 0 0 () l w'.heap := by
  have hundergoes : (switching detour).Undergoes (.answering detour)
      [.next 0 (.stream 0), .next 1 .null, .next 2 (.bool false)] _ _ := undergoes_states 60 (by decide +kernel)
  have hruns : (switching detour).Runs (.answering detour) () _ _ := hundergoes.runs (by simp [Command.Outside])
  have hcheck : ∀ y ∈ (switching detour).states (.answering detour) 60
      [.next 0 (.stream 0), .next 1 .null, .next 2 (.bool false)], y.pushes? 0 = true ∧
      ∀ j < y.world.heap.subjects.size, y.alive (.answering detour) (.subject j) = true := by decide +kernel
  have hpushing := fun y hy => State.pushing_answering (hcheck y hy)
  exact ⟨_, _, opens_twoStreams detour, hruns, hpushing, rfl, rfl, (opens_twoStreams detour).newest hruns hpushing⟩

end World

end DataBinding
