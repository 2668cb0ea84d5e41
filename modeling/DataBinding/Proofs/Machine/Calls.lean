import DataBinding.Live.Step
/-!
# Calls

What is under way when a command starts stays under way until the command answers. `State.Ends`
says that a state comes back to given frames with an answer, and lists the states on the way.

`State.Ends.call` puts a call and what the frames below do with the answer together, and
`State.Ends.split` takes them apart again. `State.ends_iff_run` ties this to `State.run`.
-/

namespace DataBinding

variable {F C S : Type} {K : Client F C S}

/-- A signal or a panic, to be passed to the innermost frame. -/
def Control.IsAnswer : Control F C → Prop
  | .pass _ | .panic _ => True
  | _ => False

/-- A change is being announced beforehand. -/
def Frame.Announces : Frame F C → Prop
  | .announcing .. => True
  | _ => False

namespace State

/-! ## Frames -/

@[simp] theorem under_mk (c c' : Control F C) (f : Frame F C) (fs : List (Frame F C))
    (h h' : Heap F C) (k : S) : under ⟨c, fs, h, k⟩ f c' h' = ⟨c', f :: fs, h', k⟩ := rfl

theorem world_notify (s : State F C S) (o : ObjectId) (v : Value) (l : List (Handler F C)) :
    (stepNotify s o v l).world = s.world := by
  cases l <;> rfl

theorem world_publish (s : State F C S) (i : SubjectId) (v : Value) (l : List (Observer F C)) :
    (stepPublish s i v l).world = s.world := by
  cases l <;> rfl

theorem world_task (s : State F C S) (t : Task F C) : (stepTask s t).world = s.world := by
  cases t with
  | deliver =>
    simp only [stepTask]
    split <;> rfl
  | client => rfl

section Stacked
variable {p : Prop} {f : Frame F C} {fs fs' : List (Frame F C)}

/-- Further frames have come on top, none of which announces a change unless `p`. -/
def Stacked (p : Prop) (fs fs' : List (Frame F C)) : Prop :=
  ∃ new, fs' = new ++ fs ∧ (¬ p → ∀ f ∈ new, ¬ f.Announces)

namespace Stacked

theorem none : Stacked p fs fs := ⟨[], rfl, fun _ => nofun⟩

theorem above (hf : ¬ f.Announces) (h : Stacked p (f :: fs) fs') : Stacked p fs fs' := by
  obtain ⟨new, rfl, hnew⟩ := h
  refine ⟨new ++ [f], by simp, fun hp => List.forall_mem_append.2 ⟨hnew hp, List.forall_mem_singleton.2 hf⟩⟩

theorem one (hf : ¬ f.Announces) : Stacked p fs (f :: fs) := above hf none

theorem imp {p' : Prop} (hp : p → p') (h : Stacked p fs fs') : Stacked p' fs fs' := by
  obtain ⟨new, he, hnew⟩ := h
  exact ⟨new, he, fun hn => hnew fun hp' => hn (hp hp')⟩

theorem of_suffix (hp : p) (h : fs <:+ fs') : Stacked p fs fs' := by
  obtain ⟨new, rfl⟩ := h
  exact ⟨new, rfl, fun hn => absurd hp hn⟩

theorem suffix (h : Stacked p fs fs') : fs <:+ fs' := by
  obtain ⟨new, rfl, -⟩ := h
  exact List.suffix_append ..

theorem trans {fs'' : List (Frame F C)} (h : Stacked p fs fs') (h' : Stacked p fs' fs'') : Stacked p fs fs'' := by
  obtain ⟨new, rfl, hnew⟩ := h
  obtain ⟨new', rfl, hnew'⟩ := h'
  exact ⟨new' ++ new, by simp, fun hp => List.forall_mem_append.2 ⟨hnew' hp, hnew hp⟩⟩

/-- The topmost frame is one that has come on top, and is gone. -/
theorem popped (h : Stacked p fs (f :: fs')) (hne : f :: fs' ≠ fs) : (¬ p → ¬ f.Announces) ∧ Stacked p fs fs' := by
  obtain ⟨new, he, hnew⟩ := h
  cases new with
  | nil => exact absurd he hne
  | cons g new =>
    cases he
    exact ⟨fun hp => hnew hp _ List.mem_cons_self,
      new, rfl, fun hp g hg => hnew hp g (List.mem_cons_of_mem _ hg)⟩

end Stacked

variable (K) (s : State F C S)

theorem stacked_notify (o : ObjectId) (v : Value) (l : List (Handler F C)) :
    Stacked False s.frames (stepNotify s o v l).frames := by
  cases l with
  | nil => exact .none
  | cons h rest => exact .one id

theorem stacked_publish (i : SubjectId) (v : Value) (l : List (Observer F C)) :
    Stacked False s.frames (stepPublish s i v l).frames := by
  cases l with
  | nil => exact .none
  | cons o rest => exact .one id

theorem stacked_task (t : Task F C) : Stacked False s.frames (stepTask s t).frames := by
  cases t <;> simp only [stepTask] <;> (try split) <;> exact .none

theorem stacked_map (next : Observer F C) (v : Value) (f : Mapping F) :
    Stacked False s.frames (stepMap K s next v f).frames := by
  cases f <;> simp only [stepMap] <;> (try split) <;> first | exact .none | exact .one id

theorem stacked_deliver (v : Value) (o : Observer F C) :
    Stacked False s.frames (stepDeliver K s v o).frames := by
  cases o <;> simp only [stepDeliver]
  case map f next => exact stacked_map K s next v f
  all_goals first
    | exact .none
    | exact .one id
    | split <;> first | exact .none | exact .one id

theorem stacked_subscribe (o : Observer F C) (x : Stream F) :
    Stacked False s.frames (stepSubscribe K s o x).frames := by
  cases x <;> simp only [stepSubscribe, stepWatch, stepListen] <;> (try split) <;>
    first | exact .none | exact .one id

/-- Only where another value is stored a change is announced. -/
theorem stacked_command (c : Command F C) :
    Stacked (∃ o p v, c = .set o p v ∧ (s.world.heap.get o p).eqv v = false) s.frames
      (stepCommand K s c).frames := by
  cases c <;> simp only [stepCommand]
  case set o p v =>
    simp only [stepSet]
    split
    · exact .none
    · next hne =>
      exact .of_suffix ⟨o, p, v, rfl, Bool.eq_false_iff.2 hne⟩
        ((List.suffix_cons ..).trans (stacked_notify (under s _ _ _) ..).suffix)
  case write root path v => simp only [stepWrite]; split <;> exact .none
  case next i v => exact (stacked_publish s i v _).imp False.elim
  case deliver o v => exact (stacked_deliver K s v o).imp False.elim
  case subscribe x o => exact (stacked_subscribe K s o x).imp False.elim
  case subscribeAll members rest => cases rest <;> first | exact .none | exact .one id
  case undo t => cases t <;> first | exact .none | exact .one id
  case undoAll members panic => cases members <;> first | exact .none | exact .one id
  case dispose handle => exact .none
  case disposeComposite c => simp only [stepDisposeComposite]; split <;> exact .none
  case add c handle => simp only [stepAdd]; split <;> exact .none
  case schedule i t =>
    simp only [stepSchedule]
    split
    · exact .none
    · exact (stacked_task s t).imp False.elim
  case drain i ran =>
    simp only [stepDrain]
    split
    · next t rest _ =>
      exact .above (f := .draining i ran t) id ((stacked_task (under s _ _ _) t).imp False.elim)
    · exact .none

theorem stacked_frame (signal : Signal C) (f : Frame F C) :
    Stacked False s.frames (stepFrame s signal f).frames := by
  cases f <;> simp only [stepFrame]
  case notifying => exact stacked_notify ..
  case publishing => exact stacked_publish ..
  case announcing o p old new => exact .above (f := .changed o old new) id (stacked_notify (under s _ _ _) ..)
  all_goals first
    | exact .none
    | split <;> first | exact .none | exact .one id

theorem stacked_unwind (message : String) (f : Frame F C) :
    Stacked False s.frames (unwindFrame s message f).frames := by
  cases f <;> first | exact .none | exact .one id

theorem stacked_move (m : Move F C) : Stacked False s.frames (stepMove s m).frames := by
  cases m <;> first | exact .none | exact .one id

theorem suffix_notify (o : ObjectId) (v : Value) (l : List (Handler F C)) :
    s.frames <:+ (stepNotify s o v l).frames := (stacked_notify s o v l).suffix

theorem suffix_command (c : Command F C) : s.frames <:+ (stepCommand K s c).frames := (stacked_command K s c).suffix

theorem suffix_frame (signal : Signal C) (f : Frame F C) : s.frames <:+ (stepFrame s signal f).frames :=
  (stacked_frame s signal f).suffix

theorem suffix_move (m : Move F C) : s.frames <:+ (stepMove s m).frames := (stacked_move s m).suffix

/-- What the frames are like after a step: some may have come on top, of those that were there or, if the step
answers the first of these, of the others. -/
theorem stacked_step :
    Stacked (∃ o p v, s.control = .run (.set o p v) ∧ (s.world.heap.get o p).eqv v = false) s.frames
        (s.step K).frames ∨
      s.control.IsAnswer ∧ Stacked False s.frames.tail (s.step K).frames := by
  obtain ⟨c, fs, w⟩ := s
  cases c with
  | run command => exact .inl ((stacked_command K ⟨.run command, fs, w⟩ command).imp (by simp))
  | resume code signal =>
    exact .inl ((stacked_move ⟨.resume code signal, fs, (K.resume code signal w).1⟩ _).imp False.elim)
  | pass signal =>
    cases fs with
    | nil => exact .inl .none
    | cons f rest => exact .inr ⟨trivial, stacked_frame ⟨.pass signal, rest, w⟩ signal f⟩
  | panic message =>
    cases fs with
    | nil => exact .inl .none
    | cons f rest => exact .inr ⟨trivial, stacked_unwind ⟨.panic message, rest, w⟩ message f⟩

/-- A step leaves the frames below a call alone until the call answers. -/
theorem suffix_step {base : List (Frame F C)} (h : base <:+ s.frames)
    (ha : s.control.IsAnswer → s.frames ≠ base) : base <:+ (s.step K).frames := by
  rcases stacked_step K s with hs | ⟨hc, hs⟩
  · exact h.trans hs.suffix
  · refine .trans ?_ hs.suffix
    obtain ⟨c, fs, w⟩ := s
    cases fs with
    | nil => exact h
    | cons f rest => exact (List.suffix_cons_iff.1 h).resolve_left fun he => ha hc he.symm

end Stacked

/-! ## Coming back to frames -/

/-- The state comes back to the frames `base` with an answer; these are the states before. -/
inductive Ends (K : Client F C S) (base : List (Frame F C)) :
    State F C S → List (State F C S) → State F C S → Prop
  | answer {s} : s.control.IsAnswer → s.frames = base → Ends K base s [] s
  | step {s l e} : (s.control.IsAnswer → s.frames ≠ base) → Ends K base (s.step K) l e →
      Ends K base s (s :: l) e

namespace Ends
variable {base : List (Frame F C)} {s e : State F C S} {l : List (State F C S)}

theorem answered (h : Ends K base s l e) : e.control.IsAnswer ∧ e.frames = base := by
  induction h with
  | answer hc hf => exact ⟨hc, hf⟩
  | step _ _ ih => exact ih

theorem isAnswer (h : Ends K base s l e) : e.control.IsAnswer := h.answered.1

theorem unique (h : Ends K base s l e) {l' e'} (h' : Ends K base s l' e') : l' = l ∧ e' = e := by
  induction h generalizing l' with
  | answer hc hf =>
    cases h' with
    | answer => exact ⟨rfl, rfl⟩
    | step hn => exact absurd hf (hn hc)
  | step hn _ ih =>
    cases h' with
    | answer hc hf => exact absurd hf (hn hc)
    | step _ h' =>
      obtain ⟨rfl, rfl⟩ := ih h'
      exact ⟨rfl, rfl⟩

/-- A state that is an answer already. -/
theorem of_answer (h : Ends K base s l e) (hc : s.control.IsAnswer) (hf : s.frames = base) : l = [] ∧ e = s :=
  (Ends.answer hc hf).unique h

/-- A call above further frames, and then what these do. -/
theorem call {base' : List (Frame F C)} {l' : List (State F C S)} {e' : State F C S}
    (h : Ends K base' s l e) (hb : base <:+ base') (hs : base' <:+ s.frames)
    (h' : Ends K base e l' e') : Ends K base s (l ++ l') e' := by
  induction h with
  | answer => exact h'
  | @step s l e hn _ ih =>
    refine .step (fun hc he => hn hc ?_) (ih (suffix_step K s hs hn) h')
    exact he.trans (hb.eq_of_length_le (he ▸ hs.length_le))

/-- A state above further frames first comes back to these. -/
theorem split {base' : List (Frame F C)} (h : Ends K base s l e) (hb : base <:+ base')
    (hs : base' <:+ s.frames) :
    ∃ l₁ s₁ l₂, l = l₁ ++ l₂ ∧ Ends K base' s l₁ s₁ ∧ Ends K base s₁ l₂ e := by
  induction h with
  | @answer s hc hf =>
    have he : s.frames = base' := hf.trans (hb.eq_of_length_le (hf ▸ hs.length_le))
    exact ⟨[], s, [], rfl, .answer hc he, .answer hc hf⟩
  | @step s l e hn h ih =>
    by_cases ha : s.control.IsAnswer ∧ s.frames = base'
    · exact ⟨[], s, s :: l, rfl, .answer ha.1 ha.2, .step hn h⟩
    · have ha' : s.control.IsAnswer → s.frames ≠ base' := fun hc hf => ha ⟨hc, hf⟩
      obtain ⟨l₁, s₁, l₂, rfl, h₁, h₂⟩ := ih (suffix_step K s hs ha')
      exact ⟨s :: l₁, s₁, l₂, rfl, .step ha' h₁, h₂⟩

/-- What is under way below a call stays under way. -/
theorem suffix (h : Ends K base s l e) (hb : base <:+ s.frames) : ∀ x ∈ l, base <:+ x.frames := by
  induction h with
  | answer => nofun
  | step hn _ ih => exact List.forall_mem_cons.2 ⟨hb, ih (suffix_step K _ hb hn)⟩

/-- A state that is no answer makes a step. -/
theorem next (h : Ends K base s l e) (hs : s.control.IsAnswer → s.frames ≠ base) :
    ∃ l', l = s :: l' ∧ Ends K base (s.step K) l' e := by
  cases h with
  | answer hc hf => exact absurd hf (hs hc)
  | step _ h => exact ⟨_, rfl, h⟩

end Ends

/-! ## Some way towards an answer -/

/-- The state goes on through these states, none of which is an answer at the frames `base`. -/
inductive Leads (K : Client F C S) (base : List (Frame F C)) :
    State F C S → List (State F C S) → State F C S → Prop
  | here {s} : Leads K base s [] s
  | step {s l e} : (s.control.IsAnswer → s.frames ≠ base) → Leads K base (s.step K) l e →
      Leads K base s (s :: l) e

namespace Leads
variable {base : List (Frame F C)} {s e e' : State F C S} {l l' : List (State F C S)}

/-- A step with a command or with code to resume. -/
theorem go (hs : ¬ s.control.IsAnswer) (h : Leads K base (s.step K) l e) :
    Leads K base s (s :: l) e :=
  .step (fun hc => absurd hc hs) h

theorem one (hs : ¬ s.control.IsAnswer) (h : s.step K = e) : Leads K base s [s] e :=
  .go hs (h ▸ .here)

/-- A frame above goes on with a signal. -/
theorem back {f : Frame F C} {signal : Signal C} {w : World F C S}
    (h : Leads K base (stepFrame ⟨.pass signal, base, w⟩ signal f) l e) :
    Leads K base ⟨.pass signal, f :: base, w⟩ (⟨.pass signal, f :: base, w⟩ :: l) e :=
  .step (fun _ hb => absurd (congrArg List.length hb) (Nat.succ_ne_self _)) h

theorem trans (h : Leads K base s l e) (h' : Leads K base e l' e') :
    Leads K base s (l ++ l') e' := by
  induction h with
  | here => exact h'
  | step hn _ ih => exact .step hn (ih h')

theorem ends (h : Leads K base s l e) (h' : Ends K base e l' e') : Ends K base s (l ++ l') e' := by
  induction h with
  | here => exact h'
  | step hn _ ih => exact .step hn (ih h')

theorem rest (h : Leads K base s l e) (h' : Ends K base s l' e') :
    ∃ l'', l' = l ++ l'' ∧ Ends K base e l'' e' := by
  induction h generalizing l' with
  | here => exact ⟨l', rfl, h'⟩
  | step hn _ ih =>
    obtain ⟨l₁, rfl, h₁⟩ := h'.next hn
    obtain ⟨l₂, rfl, h₂⟩ := ih h₁
    exact ⟨l₂, rfl, h₂⟩

/-- Whatever the way leads to lies on every call that is the rest of it. -/
theorem mem (h : Leads K base s l e) (h' : Ends K base s l' e') (hn : ¬ e.control.IsAnswer) : e ∈ l' := by
  obtain ⟨l₁, rfl, h₁⟩ := h.rest h'
  obtain ⟨l₂, rfl, -⟩ := h₁.next fun hc => absurd hc hn
  exact List.mem_append_right _ List.mem_cons_self

/-- What comes about above further frames. -/
theorem beneath {base' : List (Frame F C)} (h : Leads K base' s l e) (hb : base <:+ base') (hs : base' <:+ s.frames) :
    Leads K base s l e := by
  induction h with
  | here => exact .here
  | step hn _ ih =>
    refine .step (fun hc he => hn hc ?_) (ih (suffix_step K _ hs hn))
    exact he.trans (hb.eq_of_length_le (he ▸ hs.length_le))

/-- What every step on the way keeps. -/
theorem keeps {P : State F C S → Prop} (h : Leads K base s l e) (hstep : ∀ x ∈ l, P x → P (x.step K))
    (hs : P s) : P e := by
  induction h with
  | here => exact hs
  | step _ _ ih =>
    obtain ⟨hx, hl⟩ := List.forall_mem_cons.1 hstep
    exact ih hl (hx hs)

end Leads

/-- A call that comes to an end above further frames. -/
theorem Ends.leads {base base' : List (Frame F C)} {s e : State F C S} {l : List (State F C S)}
    (h : Ends K base' s l e) (hb : base <:+ base') (hs : base' <:+ s.frames) : Leads K base s l e := by
  have hl : Leads K base' s l e := by
    clear hs
    induction h with
    | answer => exact .here
    | step hn _ ih => exact .step hn ih
  exact hl.beneath hb hs

/-- A state on the way to an answer. -/
theorem Ends.cut {base : List (Frame F C)} {s e x : State F C S} {l l' : List (State F C S)}
    (h : Ends K base s (l ++ x :: l') e) : Leads K base s l x ∧ Ends K base x (x :: l') e := by
  induction l generalizing s with
  | nil =>
    cases h with
    | step hn h => exact ⟨.here, .step hn h⟩
  | cons y l ih =>
    cases h with
    | step hn h => exact ⟨.step hn (ih h).1, (ih h).2⟩

/-! ## Assignments -/

section Set
variable {base : List (Frame F C)} {w : World F C S} {o : ObjectId} {p : String} {v : Value}

/-- An equal value is not stored; any other one is, and is announced. -/
theorem step_set : step K ⟨.run (.set o p v), base, w⟩ =
    if (w.heap.get o p).eqv v then ⟨.pass (.flag false), base, w⟩
    else stepNotify ⟨.pass .done, .announcing o p (w.heap.get o p) v :: base, w.withHeap (w.heap.put o p v)⟩ o
      (w.heap.get o p) ((w.heap.put o p v).handlersFor o .before p) := by
  simp only [step, stepCommand, stepSet]
  split <;> rfl

theorem step_set_same (he : (w.heap.get o p).eqv v = true) :
    step K ⟨.run (.set o p v), base, w⟩ = ⟨.pass (.flag false), base, w⟩ := by
  rw [step_set, if_pos he]

theorem step_set_other (he : (w.heap.get o p).eqv v = false) :
    step K ⟨.run (.set o p v), base, w⟩ =
      stepNotify ⟨.pass .done, .announcing o p (w.heap.get o p) v :: base, w.withHeap (w.heap.put o p v)⟩ o
        (w.heap.get o p) ((w.heap.put o p v).handlersFor o .before p) := by
  rw [step_set, if_neg (by simp [he])]

end Set

/-! ## Whole runs -/

theorem finished_iff (s : State F C S) : s.finished = true ↔ s.control.IsAnswer ∧ s.frames = [] := by
  obtain ⟨c, fs, w⟩ := s
  cases c <;> cases fs <;> simp [finished, Control.IsAnswer]

/-- The states that a run with this limit goes through before it is finished. -/
def visited (K : Client F C S) : (limit : Nat) → State F C S → List (State F C S)
  | 0, _ => []
  | limit + 1, s => if s.finished then [] else s :: visited K limit (s.step K)

theorem ends_iff_run {s e : State F C S} {l : List (State F C S)} :
    Ends K [] s l e ↔ ∃ n, s.run K n = e ∧ e.finished = true ∧ s.visited K n = l := by
  constructor
  · intro h
    induction h with
    | @answer s hc hf => exact ⟨0, rfl, (finished_iff s).2 ⟨hc, hf⟩, rfl⟩
    | @step s l e hn h ih =>
      obtain ⟨n, hr, he, hv⟩ := ih
      have hs : s.finished = false := by
        rw [Bool.eq_false_iff]
        exact fun hs => hn ((finished_iff s).1 hs).1 ((finished_iff s).1 hs).2
      exact ⟨n + 1, by simp [run, hs, hr], he, by simp [visited, hs, hv]⟩
  · rintro ⟨n, rfl, he, rfl⟩
    induction n generalizing s with
    | zero =>
      obtain ⟨hc, hf⟩ := (finished_iff s).1 he
      exact .answer hc hf
    | succ n ih =>
      by_cases hs : s.finished = true
      · obtain ⟨hc, hf⟩ := (finished_iff s).1 hs
        simpa [run, visited, hs] using Ends.answer hc hf
      · simp only [run, visited, hs] at he ⊢
        exact .step (fun hc hf => hs ((finished_iff s).2 ⟨hc, hf⟩)) (ih he)

end State

end DataBinding
