import DataBinding.Proofs.Composite.Copies
import DataBinding.Proofs.Machine.Sessions
/-!
# What becomes of the members of a composite

In a course of the machine (`State.Course`) subscriptions are moved into a composite and the composite is disposed
of, wherever and however often: at top level, in the midst of other commands, by the very teardowns that a disposal
runs. The first disposal tears down the members there are, in the order in which they were moved in, and goes on
with the first panic among them (`State.TornDown`); from then on a subscription that is moved in is torn down at
once, and another disposal does nothing. No teardown is run twice (`State.Course.composite_disposed`).
-/

namespace DataBinding

variable {F C S : Type}

namespace State

/-! ## Courses -/

/-- The machine goes through these states and is then in this one. When nothing is left to do, another command
begins, perhaps in another world. What client code does, and what comes in between commands, is as `R` says. -/
inductive Course (K : Client F C S) (R : State F C S → State F C S → Prop) :
    State F C S → List (State F C S) → State F C S → Prop
  | here {s} : Course K R s [] s
  | step {s l e} : s.finished = false → (s.ClientActs → R s (s.step K)) → Course K R (s.step K) l e →
      Course K R s (s :: l) e
  | next {s w c l e} : s.finished = true → R s (World.start w c) → Course K R (World.start w c) l e →
      Course K R s l e

variable {K : Client F C S} {R : State F C S → State F C S → Prop} {base : List (Frame F C)} {s e : State F C S}
  {l : List (State F C S)}

/-- A command that comes to an end is part of a course. -/
theorem Ends.course (h : Ends K [] s l e) (hR : ∀ x ∈ l, x.ClientActs → R x (x.step K)) : Course K R s l e := by
  induction h with
  | answer => exact .here
  | @step s l e hn _ ih =>
    obtain ⟨hs, hl⟩ := List.forall_mem_cons.1 hR
    refine .step (Bool.eq_false_iff.2 fun hf => ?_) hs (ih hl)
    obtain ⟨hc, hnil⟩ := (finished_iff s).1 hf
    exact hn hc hnil

theorem Course.trans {s' : State F C S} {l' : List (State F C S)} (h : Course K R s l e) (h' : Course K R e l' s') :
    Course K R s (l ++ l') s' := by
  induction h with
  | here => exact h'
  | step hf hR _ ih => exact .step hf hR (ih h')
  | next hf hR _ ih => exact .next hf hR (ih h')

/-- **Teardowns are run once.** If client code makes no more of them, teardowns are run at most as often as there
are of them. -/
theorem Course.undoes_le [DecidableEq C] {code : C}
    (h : Course K (fun x y => y.copies code ≤ x.copies code) s l e) :
    l.countP (·.undoes code) + e.copies code ≤ s.copies code := by
  induction h with
  | here => exact Nat.le_of_eq (Nat.zero_add _)
  | next _ hR _ ih => exact Nat.le_trans ih hR
  | @step s l e _ hR _ ih =>
    have hstep : (s.step K).copies code + (s.undoes code).toNat ≤ s.copies code := by
      by_cases ha : s.ClientActs
      · have hundoes : s.undoes code = false := by
          unfold ClientActs at ha
          unfold undoes
          split at ha <;> simp_all
        rw [hundoes]
        exact hR ha
      · exact copies_step s ha
    have hcount : (s.undoes code).toNat = if s.undoes code = true then 1 else 0 := by
      cases s.undoes code <;> rfl
    rw [List.countP_cons, ← hcount]
    omega

/-! ## Members are torn down -/

/-- Members are undone one after the other, whatever panics: these are the states they go through, the panic of
each member that ended with one, and the world they leave. The first panic is kept. -/
inductive TornDown (K : Client F C S) (base : List (Frame F C)) :
    Option String → World F C S → List (Teardown C) → List (State F C S) → List (Option String) → World F C S → Prop
  | ended {panic w} : TornDown K base panic w [] [⟨.run (.undoAll [] panic), base, w⟩] [] w
  | undone {panic w t rest l signal w₁ l' panics w'} :
      Ends K (.undoing rest panic :: base) ⟨.run (.undo t), .undoing rest panic :: base, w⟩ l
        ⟨.pass signal, .undoing rest panic :: base, w₁⟩ →
      TornDown K base panic w₁ rest l' panics w' →
      TornDown K base panic w (t :: rest) (⟨.run (.undoAll (t :: rest) panic), base, w⟩ ::
        (l ++ ⟨.pass signal, .undoing rest panic :: base, w₁⟩ :: l')) (none :: panics) w'
  | panicked {panic w t rest l message w₁ l' panics w'} :
      Ends K (.undoing rest panic :: base) ⟨.run (.undo t), .undoing rest panic :: base, w⟩ l
        ⟨.panic message, .undoing rest panic :: base, w₁⟩ →
      TornDown K base (some (panic.getD message)) w₁ rest l' panics w' →
      TornDown K base panic w (t :: rest) (⟨.run (.undoAll (t :: rest) panic), base, w⟩ ::
        (l ++ ⟨.panic message, .undoing rest panic :: base, w₁⟩ :: l')) (some message :: panics) w'

/-- Members have been undone: the first panic goes on, if there was one. -/
def afterAll (base : List (Frame F C)) (panic : Option String) (panics : List (Option String)) (w : World F C S) :
    State F C S :=
  ⟨(panic.or (panics.findSome? id)).elim (.pass .done) .panic, base, w⟩

theorem afterAll_panic (panic : Option String) (message : String) (panics : List (Option String)) (w : World F C S) :
    afterAll base (some (panic.getD message)) panics w = afterAll base panic (some message :: panics) w := by
  cases panic <;> rfl

theorem isAnswer_afterAll (panic : Option String) (panics : List (Option String)) (w : World F C S) :
    (afterAll base panic panics w).control.IsAnswer := by
  unfold afterAll
  cases panic.or (panics.findSome? id) <;> trivial

theorem step_undoAll_nil (panic : Option String) (w : World F C S) :
    State.step K ⟨.run (.undoAll [] panic), base, w⟩ = afterAll base panic [] w := by
  cases panic <;> rfl

/-- If undoing members comes to an end, they have all been torn down. -/
theorem Ends.tornDown {members : List (Teardown C)} {panic : Option String} {w : World F C S}
    (h : Ends K base ⟨.run (.undoAll members panic), base, w⟩ l e) :
    ∃ panics w', TornDown K base panic w members l panics w' ∧ e = afterAll base panic panics w' := by
  induction members generalizing panic w l with
  | nil =>
    obtain ⟨l', rfl, h'⟩ := h.next False.elim
    rw [step_undoAll_nil] at h'
    obtain ⟨rfl, rfl⟩ := h'.of_answer (isAnswer_afterAll ..) rfl
    exact ⟨[], w, .ended, rfl⟩
  | cons t rest ih =>
    obtain ⟨l', rfl, h'⟩ := h.next False.elim
    obtain ⟨l₁, ⟨c₁, fs, w₁⟩, l₂, rfl, h₁, h₂⟩ := h'.split (List.suffix_cons ..) (List.suffix_refl _)
    obtain ⟨hc, hf⟩ := h₁.answered
    obtain rfl : fs = .undoing rest panic :: base := hf
    obtain ⟨l₃, rfl, h₃⟩ := h₂.next fun _ => List.cons_ne_self _ _
    cases c₁ with
    | run | resume => exact hc.elim
    | pass signal =>
      obtain ⟨panics, w', ht, rfl⟩ := ih h₃
      exact ⟨_, w', .undone h₁ ht, rfl⟩
    | panic message =>
      obtain ⟨panics, w', ht, rfl⟩ := ih h₃
      exact ⟨_, w', .panicked h₁ ht, afterAll_panic ..⟩

/-- If each member that is undone comes back, be it with a panic, then undoing them all comes to an end. -/
theorem exists_ends_undoAll {members : List (Teardown C)} {panic : Option String} {w : World F C S}
    (hK : ∀ l t rest p w', Leads K base ⟨.run (.undoAll members panic), base, w⟩ l
        ⟨.run (.undo t), .undoing rest p :: base, w'⟩ →
      ∃ l' e', Ends K (.undoing rest p :: base) ⟨.run (.undo t), .undoing rest p :: base, w'⟩ l' e') :
    ∃ l e, Ends K base ⟨.run (.undoAll members panic), base, w⟩ l e := by
  induction members generalizing panic w with
  | nil => exact ⟨_, _, (Leads.one id (step_undoAll_nil ..)).ends (.answer (isAnswer_afterAll ..) rfl)⟩
  | cons t rest ih =>
    have hfirst : Leads K base ⟨.run (.undoAll (t :: rest) panic), base, w⟩ _
        ⟨.run (.undo t), .undoing rest panic :: base, w⟩ := .one id rfl
    obtain ⟨l₁, ⟨c₁, fs, w₁⟩, h₁⟩ := hK _ _ _ _ _ hfirst
    obtain ⟨hc, hf⟩ := h₁.answered
    obtain rfl : fs = .undoing rest panic :: base := hf
    have hlead := hfirst.trans (h₁.leads (List.suffix_cons ..) (List.suffix_refl _))
    have hgo : ∀ p, (⟨c₁, .undoing rest panic :: base, w₁⟩ : State F C S).step K =
        ⟨.run (.undoAll rest p), base, w₁⟩ → ∃ l e, Ends K base ⟨.run (.undoAll (t :: rest) panic), base, w⟩ l e := by
      intro p hp
      have hnext := hlead.trans (.step (fun _ => List.cons_ne_self _ _) (by rw [hp]; exact .here))
      obtain ⟨l', e, he⟩ := ih fun l' t' rest' p' w' hl' => hK _ t' rest' p' w' (hnext.trans hl')
      exact ⟨_, e, hnext.ends he⟩
    cases c₁ with
    | run | resume => exact hc.elim
    | pass signal => exact hgo panic rfl
    | panic message => exact hgo (some (panic.getD message)) rfl

/-! ## Composites -/

/-- The composite is disposed of. -/
def disposes (c : Nat) (s : State F C S) : Bool :=
  match s.control with
  | .run (.disposeComposite d) => d = c
  | _ => false

/-- What is moved into the composite. -/
def added? (c : Nat) (s : State F C S) : Option (Teardown C) :=
  match s.control with
  | .run (.add d n) => if d = c then some (s.world.heap.teardown n) else none
  | _ => none

/-- The composite is as it was. -/
def Spares (c : Nat) (x y : State F C S) : Prop :=
  y.world.heap.composites[c]? = x.world.heap.composites[c]?

section Steps
variable (K s)

theorem composites_subscribe (x : Stream F) (y : Observer F C) :
    (stepSubscribe K s y x).world.heap.composites = s.world.heap.composites := by
  cases x with
  | watch => simp only [stepSubscribe, stepWatch]; split <;> rfl
  | subject => simp only [stepSubscribe, stepListen]; split <;> rfl
  | _ => rfl

theorem composites_deliver {v : Value} {y : Observer F C} (hs : s.control = .run (.deliver y v))
    (hn : ¬ s.ClientActs) : (stepDeliver K s v y).world.heap.composites = s.world.heap.composites := by
  cases y with
  | map f next =>
    cases f with
    | apply f => exact absurd (by simp [ClientActs, hs]) hn
    | emptyIfNull => simp only [stepDeliver, stepMap]; split <;> rfl
    | _ => rfl
  | filter f next => exact absurd (by simp [ClientActs, hs]) hn
  | write | skip | distinct | inner | slot => simp only [stepDeliver]; split <;> rfl
  | _ => rfl

/-- Composites change only where something is moved into one, or one is disposed of. -/
theorem composites_command {c : Command F C} (hs : s.control = .run c) (hn : ¬ s.ClientActs)
    (hadd : ∀ d n, c ≠ .add d n) (hdispose : ∀ d, c ≠ .disposeComposite d) :
    (stepCommand K s c).world.heap.composites = s.world.heap.composites := by
  cases c with
  | set o p v =>
    simp only [stepCommand, stepSet]
    split
    · rfl
    · rw [world_notify]; rfl
  | write => simp only [stepCommand, stepWrite]; split <;> rfl
  | next => rw [stepCommand, world_publish]
  | deliver => exact composites_deliver K s hs hn
  | subscribe => exact composites_subscribe ..
  | subscribeAll _ rest => cases rest <;> rfl
  | undo t => cases t <;> rfl
  | undoAll members => cases members <;> rfl
  | dispose => rfl
  | disposeComposite d => exact absurd rfl (hdispose d)
  | add d n => exact absurd rfl (hadd d n)
  | schedule =>
    simp only [stepCommand, stepSchedule]
    split
    · rfl
    · rw [world_task]
  | drain =>
    simp only [stepCommand, stepDrain]
    split
    · rw [world_task]; rfl
    · rfl

theorem composites_frame (signal : Signal C) (f : Frame F C) :
    (stepFrame s signal f).world.heap.composites = s.world.heap.composites := by
  cases f with
  | notifying => rw [stepFrame, world_notify]
  | announcing => rw [stepFrame, world_notify]; rfl
  | publishing => rw [stepFrame, world_publish]
  | switching | entering => simp only [stepFrame]; split <;> rfl
  | _ => rfl

theorem composites_unwind (message : String) (f : Frame F C) :
    (unwindFrame s message f).world.heap.composites = s.world.heap.composites := by
  cases f <;> rfl

theorem composites_step (c : Nat) (hn : ¬ s.ClientActs) (hadd : ∀ n, s.control ≠ .run (.add c n))
    (hdispose : s.control ≠ .run (.disposeComposite c)) :
    (s.step K).world.heap.composites[c]? = s.world.heap.composites[c]? := by
  obtain ⟨ctl, fs, w⟩ := s
  cases ctl with
  | resume => exact absurd trivial hn
  | pass signal =>
    cases fs with
    | nil => rfl
    | cons f fs => exact congrArg (·[c]?) (composites_frame ⟨.pass signal, fs, w⟩ signal f)
  | panic message =>
    cases fs with
    | nil => rfl
    | cons f fs => exact congrArg (·[c]?) (composites_unwind ⟨.panic message, fs, w⟩ message f)
  | run command =>
    by_cases ha : ∃ d n, command = .add d n
    · obtain ⟨d, n, rfl⟩ := ha
      have hne : d ≠ c := fun hd => hadd n (hd ▸ rfl)
      simp only [step, stepCommand, stepAdd]
      split
      · rfl
      · exact Array.getElem?_setIfInBounds_ne hne
    by_cases hd : ∃ d, command = .disposeComposite d
    · obtain ⟨d, rfl⟩ := hd
      have hne : d ≠ c := fun hd => hdispose (hd ▸ rfl)
      simp only [step, stepCommand, stepDisposeComposite]
      split
      · rfl
      · exact Array.getElem?_setIfInBounds_ne hne
    exact congrArg (·[c]?) (composites_command K ⟨.run command, fs, w⟩ rfl hn (fun d n he => ha ⟨d, n, he⟩)
      fun d he => hd ⟨d, he⟩)

end Steps

/-! ### A composite in use -/

section Use
variable {c : Nat} {members : List (Teardown C)}

theorem composite_eq {h : Heap F C} {x : Composite C} (hx : h.composites[c]? = some x) : h.composite c = x := by
  rw [Heap.composite, hx, Option.getD_some]

theorem disposes_iff : s.disposes c = true ↔ s.control = .run (.disposeComposite c) := by
  unfold disposes
  split
  · next d hd => simp [hd]
  · next h => exact ⟨nofun, fun hc => absurd hc (h c)⟩

/-- A composite that is not disposed of takes what is moved into it. -/
theorem step_add {n : Nat} (hs : s.control = .run (.add c n))
    (hc : s.world.heap.composites[c]? = some ⟨members, false⟩) :
    s.step K = ⟨.pass .done, s.frames, s.world.withHeap
      ((s.world.heap.clearHandle n).setComposite c ⟨members ++ [s.world.heap.teardown n], false⟩)⟩ := by
  obtain ⟨ctl, fs, w⟩ := s
  cases hs
  have hx : (w.heap.clearHandle n).composite c = ⟨members, false⟩ := composite_eq hc
  simp only [step, stepCommand, stepAdd, hx, Bool.false_eq_true, if_false]
  rfl

/-- Once it is disposed of, what would be moved into it is torn down at once. -/
theorem step_add_disposed {n : Nat} (hs : s.control = .run (.add c n))
    (hc : s.world.heap.composites[c]? = some ⟨[], true⟩) :
    s.step K = ⟨.run (.undo (s.world.heap.teardown n)), s.frames, s.world.withHeap (s.world.heap.clearHandle n)⟩ := by
  obtain ⟨ctl, fs, w⟩ := s
  cases hs
  have hx : (w.heap.clearHandle n).composite c = ⟨[], true⟩ := composite_eq hc
  simp only [step, stepCommand, stepAdd, hx, if_true]
  rfl

/-- The first disposal empties it before any member is undone. -/
theorem step_dispose (hs : s.control = .run (.disposeComposite c))
    (hc : s.world.heap.composites[c]? = some ⟨members, false⟩) :
    s.step K = ⟨.run (.undoAll members none), s.frames,
      s.world.withHeap (s.world.heap.setComposite c ⟨[], true⟩)⟩ := by
  obtain ⟨ctl, fs, w⟩ := s
  cases hs
  simp only [step, stepCommand, stepDisposeComposite, composite_eq hc, Bool.false_eq_true, if_false]
  rfl

theorem step_dispose_disposed (hs : s.control = .run (.disposeComposite c))
    (hc : s.world.heap.composites[c]? = some ⟨[], true⟩) : s.step K = ⟨.pass .done, s.frames, s.world⟩ := by
  obtain ⟨ctl, fs, w⟩ := s
  cases hs
  simp only [step, stepCommand, stepDisposeComposite, composite_eq hc, if_true]
  rfl

theorem getElem?_setComposite {h : Heap F C} {x y : Composite C} (hx : h.composites[c]? = some x) :
    (h.setComposite c y).composites[c]? = some y :=
  Array.getElem?_setIfInBounds_self_of_lt (Array.getElem?_eq_some_iff.1 hx).1

/-- A disposed composite stays as it is. -/
theorem disposed_step (hn : ¬ s.ClientActs) (hc : s.world.heap.composites[c]? = some ⟨[], true⟩) :
    (s.step K).world.heap.composites[c]? = some ⟨[], true⟩ := by
  by_cases hadd : ∃ n, s.control = .run (.add c n)
  · obtain ⟨n, hs⟩ := hadd
    rw [step_add_disposed hs hc]
    exact hc
  by_cases hd : s.control = .run (.disposeComposite c)
  · rw [step_dispose_disposed hd hc]
    exact hc
  rw [composites_step K s c hn (fun n hs => hadd ⟨n, hs⟩) hd, hc]

/-- Until it is disposed of, it has the members that have been moved into it. -/
theorem members_step (hn : ¬ s.ClientActs) (hc : s.world.heap.composites[c]? = some ⟨members, false⟩) :
    (s.step K).world.heap.composites[c]? =
      some (if s.disposes c then ⟨[], true⟩ else ⟨members ++ (s.added? c).toList, false⟩) := by
  by_cases hadd : ∃ n, s.control = .run (.add c n)
  · obtain ⟨n, hs⟩ := hadd
    rw [step_add hs hc]
    simp only [disposes, added?, hs, Bool.false_eq_true, if_false, if_true, Option.toList_some]
    exact getElem?_setComposite hc
  by_cases hd : s.control = .run (.disposeComposite c)
  · rw [step_dispose hd hc, disposes_iff.2 hd, if_pos rfl]
    exact getElem?_setComposite hc
  have hnone : s.added? c = none := by
    unfold added?
    split
    · next d n hs => exact if_neg fun he : d = c => hadd ⟨n, he ▸ hs⟩
    · rfl
  rw [composites_step K s c hn (fun n hs => hadd ⟨n, hs⟩) hd, hc, hnone, if_neg (mt disposes_iff.1 hd),
    Option.toList_none, List.append_nil]

end Use

/-! ## Along a course -/

section Courses
variable {c : Nat} {members : List (Teardown C)}

theorem not_disposes_of_clientActs (h : s.ClientActs) : s.disposes c = false ∧ s.added? c = none := by
  unfold ClientActs at h
  unfold disposes added?
  split at h <;> simp_all

theorem Course.composite_of_disposed (h : Course K (Spares c) s l e)
    (hs : s.world.heap.composites[c]? = some ⟨[], true⟩) : e.world.heap.composites[c]? = some ⟨[], true⟩ := by
  induction h with
  | here => exact hs
  | next _ hR _ ih => exact ih (Eq.trans hR hs)
  | @step s l e _ hR _ ih =>
    refine ih ?_
    by_cases ha : s.ClientActs
    · exact Eq.trans (hR ha) hs
    · exact disposed_step ha hs

/-- What a composite comes to: until it is disposed of, the members that have been moved into it. -/
theorem Course.composite (h : Course K (Spares c) s l e)
    (hs : s.world.heap.composites[c]? = some ⟨members, false⟩) :
    e.world.heap.composites[c]? =
      some (if l.any (·.disposes c) then ⟨[], true⟩ else ⟨members ++ l.filterMap (·.added? c), false⟩) := by
  induction h generalizing members with
  | here => simpa using hs
  | next _ hR _ ih => exact ih (Eq.trans hR hs)
  | @step s l e _ hR h ih =>
    have hstep : (s.step K).world.heap.composites[c]? =
        some (if s.disposes c then ⟨[], true⟩ else ⟨members ++ (s.added? c).toList, false⟩) := by
      by_cases ha : s.ClientActs
      · obtain ⟨hd, hn⟩ := not_disposes_of_clientActs (c := c) ha
        rw [hd, hn, Option.toList_none, List.append_nil]
        exact Eq.trans (hR ha) hs
      · exact members_step ha hs
    cases hd : s.disposes c with
    | true =>
      rw [hd, if_pos rfl] at hstep
      rw [List.any_cons, hd, Bool.true_or, if_pos rfl]
      exact h.composite_of_disposed hstep
    | false =>
      rw [hd, if_neg Bool.false_ne_true] at hstep
      rw [List.any_cons, hd, Bool.false_or, ih hstep]
      cases ha : s.added? c <;> simp [ha]

/-- **Composite disposal.** In the course of anything, from where a composite has been made:

* from any state on, a teardown of which client code makes no more is run at most as often as it is there;
* until the composite is disposed of, it has the members that have been moved into it. The first disposal tears
  them all down in this order, and ends with the first panic of one of them, or with none; it does come to an end
  if the members' teardowns do;
* from then on the composite is disposed and empty. Another disposal does nothing, and what is moved in is not
  kept but torn down at once. -/
theorem Course.composite_disposed [DecidableEq C] (h : Course K (Spares c) s l e)
    (hs : s.world.heap.composites[c]? = some ⟨[], false⟩) :
    (∀ code l₁ s' l₂, l = l₁ ++ l₂ → Course K (Spares c) s l₁ s' →
      Course K (fun x y => y.copies code ≤ x.copies code) s' l₂ e →
      l₂.countP (·.undoes code) + e.copies code ≤ s'.copies code) ∧
    (l.any (·.disposes c) = false →
      e.world.heap.composites[c]? = some ⟨l.filterMap (·.added? c), false⟩ ∧
      (e.control = .run (.disposeComposite c) →
        (∀ l' e', Ends K e.frames e l' e' →
          ∃ l'' panics w', l' = e :: l'' ∧
            TornDown K e.frames none (e.world.withHeap (e.world.heap.setComposite c ⟨[], true⟩))
              (l.filterMap (·.added? c)) l'' panics w' ∧
            e' = ⟨(panics.findSome? id).elim (.pass .done) .panic, e.frames, w'⟩) ∧
        ((∀ l' t rest p w', Leads K e.frames e l' ⟨.run (.undo t), .undoing rest p :: e.frames, w'⟩ →
            ∃ l'' e', Ends K (.undoing rest p :: e.frames) ⟨.run (.undo t), .undoing rest p :: e.frames, w'⟩ l'' e') →
          ∃ l' e', Ends K e.frames e l' e'))) ∧
    (l.any (·.disposes c) = true →
      e.world.heap.composites[c]? = some ⟨[], true⟩ ∧
      (e.control = .run (.disposeComposite c) → e.step K = ⟨.pass .done, e.frames, e.world⟩) ∧
      ∀ n, e.control = .run (.add c n) →
        e.step K = ⟨.run (.undo (e.world.heap.teardown n)), e.frames,
          e.world.withHeap (e.world.heap.clearHandle n)⟩) := by
  have hcomp := h.composite hs
  refine ⟨fun code l₁ s' l₂ _ _ h' => h'.undoes_le, fun hl => ?_, fun hl => ?_⟩
  · rw [hl, if_neg Bool.false_ne_true, List.nil_append] at hcomp
    refine ⟨hcomp, fun he => ?_⟩
    have hstep := step_dispose (K := K) he hcomp
    have hgo : ¬ e.control.IsAnswer := fun ha => by
      rw [he] at ha
      exact ha
    constructor
    · intro l' e' h'
      obtain ⟨l'', rfl, h''⟩ := h'.next fun ha => absurd ha hgo
      rw [hstep] at h''
      obtain ⟨panics, w', ht, rfl⟩ := h''.tornDown
      exact ⟨l'', panics, w', rfl, ht, rfl⟩
    · intro hK
      obtain ⟨l', e', h'⟩ := exists_ends_undoAll fun l' t rest p w' (hl' : Leads K e.frames
          ⟨.run (.undoAll (l.filterMap (·.added? c)) none), e.frames,
            e.world.withHeap (e.world.heap.setComposite c ⟨[], true⟩)⟩ l' _) =>
        hK _ t rest p w' (.go hgo (hstep ▸ hl'))
      exact ⟨_, e', .step (fun ha => absurd ha hgo) (hstep ▸ h')⟩
  · rw [hl, if_pos rfl] at hcomp
    exact ⟨hcomp, fun he => step_dispose_disposed he hcomp, fun n he => step_add_disposed he hcomp⟩

/-- Commands one after the other, whatever they come to, are a course. -/
theorem course_of_undergoes {w : World F C S} {command : Command F C} {rest : List (Command F C)}
    {es : List (State F C S)} (h : w.Undergoes K (command :: rest) l es)
    (hacts : ∀ x, x.ClientActs → R x (x.step K))
    (hnext : ∀ x, x.finished = true → ∀ c ∈ rest, R x (x.world.start c)) :
    ∃ e, es.getLast? = some e ∧ e.finished = true ∧ Course K R (w.start command) l e := by
  induction rest generalizing w command l es with
  | nil =>
    cases h with
    | cons he hrest =>
      cases hrest
      rw [List.append_nil]
      exact ⟨_, rfl, (finished_iff _).2 he.answered, he.course fun x _ => hacts x⟩
  | cons command' rest ih =>
    cases h with
    | @cons _ _ l₁ e₁ _ l₂ es' he hrest =>
      obtain ⟨hfirst, hrest'⟩ : (∀ x : State F C S, x.finished = true → R x (x.world.start command')) ∧
          ∀ x : State F C S, x.finished = true → ∀ c ∈ rest, R x (x.world.start c) :=
        ⟨fun x hx => hnext x hx _ List.mem_cons_self, fun x hx c hc => hnext x hx c (List.mem_cons_of_mem _ hc)⟩
      obtain ⟨e, hlast, hf, hc⟩ := ih hrest hrest'
      have hf₁ : e₁.finished = true := (finished_iff _).2 he.answered
      refine ⟨e, ?_, hf, (he.course fun x _ => hacts x).trans (.next hf₁ (hfirst e₁ hf₁) hc)⟩
      cases es' with
      | nil => cases hlast
      | cons e₂ es' => exact hlast

end Courses

end State

/-! ## A party that is shown out -/

/-- Code notes its number when it is run as a teardown. Codes 2 and 4 then panic, code 3 moves handle 7 into
composite 0, and code 5 disposes of composite 0. -/
def Client.usher : Client Empty Nat (List Nat) where
  apply := nofun
  resume code _ w :=
    let noted : World Empty Nat (List Nat) := ⟨w.heap, w.client ++ [code]⟩
    match code with
    | 0 => (w, .finish)
    | 2 => (noted, .panic "second")
    | 3 => (noted, .perform (.add 0 7) 0)
    | 4 => (noted, .panic "fourth")
    | 5 => (noted, .perform (.disposeComposite 0) 0)
    | _ => (noted, .finish)
  functionRefs := nofun
  codeRefs _ := []
  refs _ := []

/-- An empty composite, another one with a member, and handles of which one is the other composite's and one has
nothing to undo. -/
def World.lobby : World Empty Nat (List Nat) :=
  ⟨{ Heap.empty with
      composites := #[⟨[], false⟩, ⟨[.client 6], false⟩]
      handles := #[.client 1, .client 2, .composite 1, .client 3, .nothing, .client 4, .client 5, .client 7,
        .client 8] }, []⟩

/-- The first seven handles have been moved into the first composite. -/
def World.gathered : World Empty Nat (List Nat) :=
  ⟨{ Heap.empty with
      composites := #[⟨[.client 1, .client 2, .composite 1, .client 3, .nothing, .client 4, .client 5], false⟩,
        ⟨[.client 6], false⟩]
      handles := #[.nothing, .nothing, .nothing, .nothing, .nothing, .nothing, .nothing, .client 7, .client 8] }, []⟩

namespace State

/-- What the usher's code does leaves the heap as it is and brings no teardowns. -/
theorem step_usher {s : State Empty Nat (List Nat)} (h : s.ClientActs) :
    (s.step .usher).world.heap = s.world.heap ∧ ∀ code, (s.step .usher).copies code ≤ s.copies code := by
  obtain ⟨ctl, fs, w⟩ := s
  unfold ClientActs at h
  split at h
  · next n signal hc =>
    cases hc
    have hle : ∀ (c : Control Empty Nat) (fs' : List (Frame Empty Nat)) (code : Nat), c.copies code = 0 →
        (fs'.map (Frame.copies code)).sum = (fs.map (Frame.copies code)).sum → ∀ k,
        (⟨c, fs', w.heap, k⟩ : State Empty Nat (List Nat)).copies code ≤
          (⟨.resume n signal, fs, w⟩ : State Empty Nat (List Nat)).copies code := fun c fs' code hc hfs k => by
      rw [copies, hc, Nat.zero_add, copiesBelow, hfs]
      exact Nat.le_add_left _ _
    simp only [step, Client.usher]
    split <;> exact ⟨rfl, fun code => hle _ _ code rfl (by simp [Frame.copies]) _⟩
  · next f _ _ _ => exact f.elim
  · next f _ _ _ => exact f.elim
  · exact h.elim

theorem course_gathered {R : State Empty Nat (List Nat) → State Empty Nat (List Nat) → Prop}
    (hacts : ∀ x, x.ClientActs → R x (x.step .usher))
    (hnext : ∀ x c, x.finished = true → (∀ code, c.copies code = 0) → R x (x.world.start c)) :
    Course .usher R (World.lobby.start (.add 0 0))
      (World.lobby.states .usher 10 [.add 0 0, .add 0 1, .add 0 2, .add 0 3, .add 0 4, .add 0 5, .add 0 6])
      (World.gathered.start (.disposeComposite 0)) := by
  have hu : World.Undergoes .usher .lobby
      [.add 0 0, .add 0 1, .add 0 2, .add 0 3, .add 0 4, .add 0 5, .add 0 6] _ _ :=
    World.undergoes_states 10 (by decide +kernel)
  have hadds : ∀ c ∈ [.add 0 1, .add 0 2, .add 0 3, .add 0 4, .add 0 5, .add 0 6],
      ∀ code, (c : Command Empty Nat).copies code = 0 := by
    simp [Command.copies]
  obtain ⟨e, he, hf, hc⟩ := course_of_undergoes hu hacts fun x hx c hc => hnext x c hx (hadds c hc)
  obtain rfl : ⟨.pass .done, [], .gathered⟩ = e := Option.some.inj he
  rw [← List.append_nil (World.states ..)]
  exact hc.trans (.next hf (hnext _ _ hf fun _ => rfl) .here)

/-- The party is shown out: all members are torn down, with the first panic at the end, and a subscription that comes
later is torn down at once. -/
theorem party_shown_out :
    ∃ l l' panics w', Course .usher (Spares 0) (World.lobby.start (.add 0 0)) l
        (World.gathered.start (.disposeComposite 0)) ∧
      TornDown .usher [] none (World.gathered.withHeap (World.gathered.heap.setComposite 0 ⟨[], true⟩))
        [.client 1, .client 2, .composite 1, .client 3, .nothing, .client 4, .client 5] l' panics w' ∧
      Ends .usher [] (World.gathered.start (.disposeComposite 0)) (World.gathered.start (.disposeComposite 0) :: l')
        ⟨.panic "second", [], w'⟩ ∧
      w'.client = [1, 2, 6, 3, 7, 4, 5] ∧
      (∀ code, (l ++ World.gathered.start (.disposeComposite 0) :: l').countP (·.undoes code) ≤
        (World.lobby.start (.add 0 0)).copies code) ∧
      (w'.start (.add 0 8)).step .usher =
        ⟨.run (.undo (.client 8)), [], w'.withHeap (w'.heap.clearHandle 8)⟩ := by
  have hspares : ∀ x : State Empty Nat (List Nat), x.ClientActs → Spares 0 x (x.step .usher) := fun x hx => by
    rw [Spares, (step_usher hx).1]
  have hcopies : ∀ code (x : State Empty Nat (List Nat)) c, x.finished = true → (∀ code, c.copies code = 0) →
      (x.world.start c).copies code ≤ x.copies code := fun code x c _ hc => by
    simp [copies, copiesBelow, World.start, Control.copies, hc]
    omega
  have hcourse := course_gathered hspares fun _ _ _ _ => rfl
  have hend : Ends .usher [] (World.gathered.start (.disposeComposite 0)) _ _ :=
    ends_iff_run.2 ⟨100, rfl, by decide +kernel, rfl⟩
  obtain ⟨l', panics, w', hl, ht, he⟩ := (((hcourse.composite_disposed rfl).2.1 (by decide +kernel)).2 rfl).1 _ _ hend
  have hpanic : (panics.findSome? id).elim (.pass .done) .panic = (.panic "second" : Control Empty Nat) :=
    (congrArg State.control he).symm
  have hnoted : w'.client = [1, 2, 6, 3, 7, 4, 5] := (congrArg (·.world.client) he).symm
  have hleft : w'.heap.teardown 8 = .client 8 := (congrArg (·.world.heap.teardown 8) he).symm
  rw [hpanic] at he
  rw [hl, he] at hend
  have hdisposed := hcourse.trans (hend.course fun x _ => hspares x)
  refine ⟨_, l', panics, w', hcourse, ht, hend, hnoted, fun code => ?_, ?_⟩
  · have hall := (course_gathered (R := fun x y => y.copies code ≤ x.copies code)
      (fun x hx => (step_usher hx).2 code) fun x c => hcopies code x c).trans
        (hend.course fun x _ hx => (step_usher hx).2 code)
    exact Nat.le_of_add_right_le ((hdisposed.composite_disposed rfl).1 code [] _ _ rfl .here hall)
  · have hlate := hdisposed.trans (.next rfl (rfl : Spares 0 _ (w'.start (.add 0 8))) .here)
    have hstep := ((hlate.composite_disposed rfl).2.2 ?_).2.2 8 rfl
    · exact hleft ▸ hstep
    · exact List.any_eq_true.2 ⟨World.gathered.start (.disposeComposite 0), by simp, rfl⟩

end State

end DataBinding
