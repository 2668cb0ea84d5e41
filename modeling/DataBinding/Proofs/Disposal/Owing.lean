import DataBinding.Proofs.Disposal.Undoing
/-!
# What is still owed to disposed code

A change or a push is delivered to the handlers or observers there were when it began. If a subscription
is disposed of on the way, the deliveries under way still come to those of its observers that have not
been told, where no switch and no scheduler is passed that could hold them back: so many values are owed
to its code (`State.owed`).

In a heap where nothing of the subscription is left (`Scope.Accounted` by no parts) nothing more comes to
be owed: each step that resumes the code with a value pays for it (`Scope.owed_step`), and no step makes
anything of the subscription come back (`Scope.accounted_step`).
-/

namespace DataBinding

variable {F C S : Type}

/-- The code that an observer hands values to without a switch or a scheduler in between. -/
def Observer.direct? : Observer F C → Option C
  | .client code => some code
  | .write .. => none
  | .map _ next | .filter _ next | .skip _ next | .distinct _ next | .slot _ _ next => direct? next
  | .outer .. | .inner .. | .relocate .. => none

/-! ## Owing -/

section Owing
variable [DecidableEq C] (code : C)

/-- One value is owed to the code by an observer that is to be given one. -/
def Observer.owed (y : Observer F C) : Nat := if y.direct? = some code then 1 else 0

/-- How many values are owed to the code by what a frame has left to do. -/
def Frame.owed : Frame F C → Nat
  | .notifying _ rest .. => rest.countP fun x => x.observer.direct? = some code
  | .publishing _ rest .. => rest.countP fun y => y.direct? = some code
  | .passing next _ => next.owed code
  | _ => 0

def Control.owed : Control F C → Nat
  | .run (.deliver y _) => y.owed code
  | .resume c (.value _) => if c = code then 1 else 0
  | .pass (.value _) => 1
  | _ => 0

/-- What the frames have left to do for the code. -/
def framesOwed : List (Frame F C) → Nat
  | [] => 0
  | f :: fs => f.owed code + framesOwed fs

/-- How many values the machine still owes to the code. -/
def State.owed (s : State F C S) : Nat :=
  s.control.owed code + framesOwed code s.frames

/-- The code is given a value. -/
def State.tells (s : State F C S) : Bool :=
  match s.control with
  | .resume c (.value _) => c = code
  | _ => false

end Owing

namespace Scope

variable {q : Scope C} {hd : Option Nat} {top : Prop} {h h' : Heap F C} {fs : List (Frame F C)}
  {ps : List Part} {s : State F C S} {K : Client F C S}

theorem covers_iff_direct (hq : ¬ q.deep) (y : Observer F C) :
    q.Covers y ↔ y.direct? = some q.code := by
  induction y with
  | client code => simp [Covers, Observer.direct?]
  | write => simp [Covers, Observer.direct?]
  | map _ _ ih | filter _ _ ih | skip _ _ ih | distinct _ _ ih | slot _ _ _ ih => exact ih
  | outer | inner | relocate => simp [Covers, Observer.direct?, hq]

/-- No frames wait for a subscription in the scope, unless it is about to be made. -/
theorem not_expects (hq : ¬ q.deep) (fs : List (Frame F C)) : ¬ q.expects False fs := by
  induction fs with
  | nil => exact id
  | cons f fs ih =>
    cases f with
    | gathering => exact ih
    | relocating | opening | entering => exact fun h => hq h.1
    | _ => exact id

/-! ## Nothing comes back -/

/-- What is live is among the parts themselves, if values come to the code through no switch. -/
theorem Accounted.mem (ha : q.Accounted h ps) (hk : q.KeepsOwn h) (hq : ¬ q.deep) {p : Part}
    (hp : q.Live h p) : p ∈ ps := by
  cases ha p hp with
  | here hm => exact hm
  | current _ hc hm => exact absurd hp ((hk _ _ hc p hm).not_live fun h => hq h.1)

/-- A step brings nothing of the subscription back. -/
theorem accounted_step (hK : K.Reserves q.code) (hr : q.Regular s) (hq : ¬ q.deep)
    (hs : q.Sound hd False s) (ha : q.Accounted s.world.heap ps) :
    q.Accounted (s.step K).world.heap ps := by
  have hl := State.later_step (hK.minds s)
  have hno := not_expects hq s.frames
  have hy : ∀ x y, s.control = .run (.subscribe x y) → ¬ q.Covers y := fun x y hc hy => by
    have := hs.control
    rw [hc] at this
    exact hno (this.2.1 hy)
  refine fun p hp => .here (ha.mem hs.ground.heap.keeps hq ?_)
  cases p with
  | entry m id =>
    obtain ⟨y, hm, hc⟩ := hp
    rcases hl.entries m _ hm with hm | ⟨-, hn | ⟨x, hn⟩⟩
    · exact ⟨y, hm, hc⟩
    · exact absurd hc (covers_of_foreign hn)
    · exact absurd hc (hy x y hn)
  | switch i =>
    obtain ⟨hi, hrun⟩ := hp
    rcases hl.running i hrun with hrun | ⟨-, rfl, x, select, y, hn⟩
    · exact ⟨hi, hrun⟩
    · exact absurd ((hr.switch x select y hn).1 hi) (hy _ y hn)
  | gate g =>
    obtain ⟨hg, hopen⟩ := hp
    rcases hl.openGates g hopen with hopen | ⟨-, rfl, x, scheduler, y, hn⟩
    · exact ⟨hg, hopen⟩
    · exact absurd ((hr.gate x scheduler y hn).1 hg) (hy _ y hn)
  | other => exact hp.elim

/-- Nobody on a roster owes the code anything. -/
theorem direct?_ne_of_accounted (hq : ¬ q.deep) (ha : q.Accounted h []) {m : Node}
    {e : Nat × Observer F C} (he : e ∈ h.roster m) : e.2.direct? ≠ some q.code := fun hc =>
  (ha (.entry m e.1) ⟨e.2, he, (covers_iff_direct hq e.2).2 hc⟩).not_nil

/-! ## Steps pay -/

section Steps
variable [DecidableEq C]

theorem owed_goOn (code : C) (s : State F C S) (c : Control F C) (h : Heap F C) :
    (s.goOn c h).owed code = c.owed code + framesOwed code s.frames := rfl

theorem owed_cons (code : C) (c : Control F C) (f : Frame F C) (fs : List (Frame F C)) (w : World F C S) :
    (⟨c, f :: fs, w⟩ : State F C S).owed code = c.owed code + (f.owed code + framesOwed code fs) := rfl

theorem owed_under (code : C) (s : State F C S) (f : Frame F C) (c : Control F C) (h : Heap F C) :
    (s.under f c h).owed code = c.owed code + (f.owed code + framesOwed code s.frames) :=
  owed_cons ..

/-- Commands of others owe the code nothing. -/
theorem owed_of_outside {code : C} {c : Command F C} (hc : c.Outside code) :
    (Control.run c).owed code = 0 := by
  cases c with
  | deliver y v =>
    cases y with
    | client other =>
      have hne : other ≠ code := hc
      simp [Control.owed, Observer.owed, Observer.direct?, hne]
    | write => rfl
    | _ => exact hc.elim
  | _ => rfl

/-- The control owes nothing, nor does the frame that has come under way. -/
theorem owed_goOn_le {code : C} {c : Control F C} (hc : c.owed code = 0) (n : Nat) :
    (s.goOn c h).owed code ≤ n + framesOwed code s.frames := by
  rw [owed_goOn, hc]
  omega

theorem owed_under_le {code : C} {f : Frame F C} {c : Control F C} (hc : c.owed code = 0)
    (hf : f.owed code = 0) (n : Nat) : (s.under f c h).owed code ≤ n + framesOwed code s.frames := by
  rw [owed_under, hc, hf]
  omega

theorem owed_notify (code : C) (s : State F C S) (o : ObjectId) (v : Value) (l : List (Handler F C)) :
    (stepNotify s o v l).owed code =
      l.countP (fun x => x.observer.direct? = some code) + framesOwed code s.frames := by
  cases l with
  | nil => rfl
  | cons x rest =>
    rw [stepNotify, owed_under, List.countP_cons]
    simp only [Control.owed, Frame.owed, Observer.owed, decide_eq_true_eq]
    omega

theorem owed_publish (code : C) (s : State F C S) (i : SubjectId) (v : Value) (l : List (Observer F C)) :
    (stepPublish s i v l).owed code =
      l.countP (fun y => y.direct? = some code) + framesOwed code s.frames := by
  cases l with
  | nil => rfl
  | cons y rest =>
    rw [stepPublish, owed_under, List.countP_cons]
    simp only [Control.owed, Frame.owed, Observer.owed, decide_eq_true_eq]
    omega

theorem owed_deliver_eq_zero {y : Observer F C} (hq : ¬ q.deep) (hy : ¬ q.Covers y) (v : Value) :
    (Control.run (.deliver y v)).owed q.code = 0 := by
  rw [covers_iff_direct hq] at hy
  simp [Control.owed, Observer.owed, hy]

theorem countP_handlersFor (hq : ¬ q.deep) (ha : q.Accounted h []) (o : ObjectId) (t : Timing)
    (p : String) : (h.handlersFor o t p).countP (fun x => x.observer.direct? = some q.code) = 0 := by
  refine List.countP_eq_zero.2 fun x hx => ?_
  have := direct?_ne_of_accounted hq ha (Heap.mem_roster_handlers ((h.handlersFor_sublist o p t).subset hx))
  simpa using this

theorem countP_observers (hq : ¬ q.deep) (ha : q.Accounted h []) (i : SubjectId) :
    (h.observers i).countP (fun y => y.direct? = some q.code) = 0 := by
  refine List.countP_eq_zero.2 fun y hy => ?_
  obtain ⟨id, he⟩ := Heap.exists_mem_roster hy
  simpa using direct?_ne_of_accounted hq ha he

theorem owed_subscribe (hq : ¬ q.deep) {y : Observer F C} (hy : ¬ q.Covers y) (x : Stream F) (n : Nat) :
    (stepSubscribe K s y x).owed q.code ≤ n + framesOwed q.code s.frames := by
  have hy := owed_deliver_eq_zero hq hy
  cases x with
  | just v => exact owed_under_le (hy _) rfl _
  | watch o p t =>
    simp only [stepSubscribe, stepWatch]
    split
    · exact owed_under_le (hy _) rfl _
    · exact owed_goOn_le rfl _
  | constant root p => exact owed_under_le (hy _) rfl _
  | subject i => simp only [stepSubscribe, stepListen]; split <;> exact owed_goOn_le rfl _
  | switch source select => exact owed_under_le rfl rfl _
  | relocate source scheduler => exact owed_under_le rfl rfl _
  | _ => exact owed_goOn_le rfl _

variable (hq : ¬ q.deep) (ha : q.Accounted s.world.heap [])
include hq ha

theorem owed_set (o : ObjectId) (p : String) (v : Value) :
    (stepSet s o p v).owed q.code = framesOwed q.code s.frames := by
  simp only [stepSet]
  split
  · exact Nat.zero_add _
  · rw [owed_notify, Heap.handlersFor_put, countP_handlersFor hq ha, Nat.zero_add]
    exact Nat.zero_add _

/-- An observer that passes a value on owes no more than it did; one behind a switch does not pass it. -/
theorem owed_deliver {y : Observer F C} (hy : q.Fits s.world.heap y) (v : Value) :
    (stepDeliver K s v y).owed q.code ≤ y.owed q.code + framesOwed q.code s.frames := by
  cases y with
  | client c =>
    simp [stepDeliver, owed_goOn, Control.owed, Observer.owed, Observer.direct?]
  | write root p =>
    simp only [stepDeliver]
    split
    · exact owed_under_le rfl rfl _
    · exact owed_goOn_le rfl _
  | map f next =>
    cases f with
    | emptyIfNull => simp only [stepDeliver, stepMap]; split <;> exact Nat.le_refl _
    | publish i side =>
      simp only [stepDeliver, stepMap, owed_under]
      exact Nat.le_of_eq (Nat.zero_add _)
    | _ => exact Nat.le_refl _
  | filter f next =>
    have hnext : ∀ c : Control F C, c = (if ((K.apply f v s.world).1.eqv (.bool true)) = true then
        .run (.deliver next v) else .pass .done) → c.owed q.code ≤ next.owed q.code := by
      rintro c rfl
      split
      · exact Nat.le_refl _
      · exact Nat.zero_le _
    exact Nat.add_le_add_right (hnext _ rfl) _
  | skip i next =>
    simp only [stepDeliver]
    split
    · exact Nat.le_refl _
    · exact owed_goOn_le rfl _
  | distinct i next =>
    simp only [stepDeliver]
    split
    · exact owed_goOn_le rfl _
    · exact Nat.le_refl _
  | outer i select next => exact owed_under_le rfl rfl _
  | inner i generation next =>
    simp only [stepDeliver]
    split
    · next hrun =>
      -- a running switch of the scope would be owned by somebody, but nothing is
      have hrun : (s.world.heap.switch i).stopped = false := by simp_all
      have hnext : ¬ q.Covers next := fun hc => (ha (.switch i) ⟨hy.2.1.2 hc, hrun⟩).not_nil
      exact owed_goOn_le (owed_deliver_eq_zero hq hnext v) _
    · exact owed_goOn_le rfl _
  | relocate gate scheduler next => exact owed_goOn_le rfl _
  | slot i k next =>
    simp only [stepDeliver]
    split
    · exact Nat.le_refl _
    · exact owed_goOn_le rfl _

/-- A task whose gate is shut delivers nothing. -/
theorem owed_task {t : Task F C} (ht : q.FitsTask s.world.heap t) (n : Nat) :
    (stepTask s t).owed q.code ≤ n + framesOwed q.code s.frames := by
  cases t with
  | deliver g y v =>
    simp only [stepTask]
    split
    · next hopen =>
      have hy : ¬ q.Covers y := fun hc => (ha (.gate g) ⟨ht.1.2 hc, hopen⟩).not_nil
      exact owed_goOn_le (owed_deliver_eq_zero hq hy v) _
    · exact owed_goOn_le rfl _
  | client c => exact owed_goOn_le rfl _

theorem owed_command {c : Command F C} (hs : q.Sound hd False s) (hc : s.control = .run c) :
    (stepCommand K s c).owed q.code ≤ s.owed q.code := by
  have hctl := hs.control
  have hno := not_expects hq s.frames
  have howed : s.owed q.code = (Control.run c).owed q.code + framesOwed q.code s.frames := by
    rw [← hc]
    rfl
  rw [hc] at hctl
  rw [howed]
  cases c with
  | set o p v => exact Nat.le_of_eq ((owed_set hq ha o p v).trans (Nat.zero_add _).symm)
  | write root p v => simp only [stepCommand, stepWrite]; split <;> exact owed_goOn_le rfl _
  | next i v =>
    -- no observer of the subject leads to the code any more
    rw [stepCommand, owed_publish, countP_observers hq ha]
    exact Nat.le_refl _
  | deliver y v => exact owed_deliver hq ha hctl v
  | subscribe x y => exact owed_subscribe hq (fun hy => hno (hctl.2.1 hy)) x _
  | subscribeAll members rest =>
    cases rest with
    | nil => exact owed_goOn_le rfl _
    | cons => exact owed_under_le rfl rfl _
  | undo t =>
    cases t with
    | switch => exact owed_under_le rfl rfl _
    | _ => exact owed_goOn_le rfl _
  | undoAll members panic =>
    cases members with
    | nil => cases panic <;> exact owed_goOn_le rfl _
    | cons => exact owed_under_le rfl rfl _
  | dispose m => exact owed_goOn_le rfl _
  | disposeComposite c => simp only [stepCommand, stepDisposeComposite]; split <;> exact owed_goOn_le rfl _
  | add c m => simp only [stepCommand, stepAdd]; split <;> exact owed_goOn_le rfl _
  | schedule i t =>
    simp only [stepCommand, stepSchedule]
    split
    · exact owed_goOn_le rfl _
    · exact owed_task hq ha hctl _
  | drain i ran =>
    simp only [stepCommand, stepDrain]
    split
    · next t tasks ht =>
      have a := s.world.heap.alike_setTasks i tasks
      have hl : Heap.Later .any s.world.heap (s.world.heap.setTasks i tasks) := .of_alike a
      have htask : q.FitsTask (s.world.heap.setTasks i tasks) t :=
        (hs.ground.heap.tasks i _ ht t List.mem_cons_self).later hl
      refine Nat.le_trans (owed_task (s := s.under (.draining i ran t) (.pass .done) _) hq
        (Accounted.alike ha a) htask 0) ?_
      simp [State.under, framesOwed, Frame.owed]
    · exact owed_goOn_le rfl _

/-- A signal comes back to a frame. -/
theorem owed_frame (signal : Signal C) (f : Frame F C) :
    (stepFrame s signal f).owed q.code ≤
      (Control.pass (F := F) signal).owed q.code + (f.owed q.code + framesOwed q.code s.frames) := by
  rw [← Nat.add_assoc]
  cases f with
  | client c =>
    cases signal with
    | value v =>
      simp only [stepFrame, owed_goOn, Control.owed]
      split <;> simp [Frame.owed]
    | _ => exact owed_goOn_le rfl _
  | notifying x rest o v =>
    rw [stepFrame, owed_notify]
    exact Nat.add_le_add_right (Nat.le_add_left _ _) _
  | publishing y rest i v =>
    rw [stepFrame, owed_publish]
    exact Nat.add_le_add_right (Nat.le_add_left _ _) _
  | announcing o p old new =>
    rw [stepFrame, owed_notify, countP_handlersFor hq ha]
    simp [State.under, framesOwed, Frame.owed]
  | passing next v => exact Nat.add_le_add_right (Nat.le_add_left _ _) _
  | switching i g inner next =>
    simp only [stepFrame]
    split
    · exact owed_goOn_le rfl _
    · exact owed_under_le rfl rfl _
  | entering i g inner => simp only [stepFrame]; split <;> exact owed_goOn_le rfl _
  | _ => exact owed_goOn_le rfl _

omit hq ha in
theorem owed_unwind (code : C) (message : String) (f : Frame F C) (n : Nat) :
    (unwindFrame s message f).owed code ≤ n + framesOwed code s.frames := by
  cases f with
  | subscribed | gathering => exact owed_under_le rfl rfl _
  | _ => exact owed_goOn_le rfl _

omit hq ha in
theorem owed_move {code : C} {m : Move F C} (hm : m.Outside code) :
    (stepMove s m).owed code ≤ framesOwed code s.frames := by
  rw [← Nat.zero_add (framesOwed code s.frames)]
  cases m with
  | perform c k => exact owed_under_le (owed_of_outside hm) rfl _
  | _ => exact owed_goOn_le rfl _

/-- Each step pays for the values that the code is given. -/
theorem owed_step (hK : K.Reserves q.code) (hs : q.Sound hd False s) :
    (s.step K).owed q.code + (s.tells q.code).toNat ≤ s.owed q.code := by
  obtain ⟨c, fs, w⟩ := s
  cases c with
  | run c => exact owed_command hq ha hs rfl
  | resume c signal =>
    have hmove := owed_move (s := ⟨.resume c signal, fs, (K.resume c signal w).1⟩)
      (hK.resume c signal w).2
    have htells : (State.tells q.code (⟨.resume c signal, fs, w⟩ : State F C S)).toNat =
        (Control.resume c signal : Control F C).owed q.code := by
      cases signal with
      | value v => by_cases he : c = q.code <;> simp [State.tells, Control.owed, he]
      | _ => rfl
    rw [htells]
    exact Nat.le_trans (Nat.add_le_add_right hmove _) (Nat.le_of_eq (Nat.add_comm _ _))
  | pass signal =>
    cases fs with
    | nil => exact Nat.le_refl _
    | cons f fs =>
      rw [owed_cons]
      exact owed_frame (s := ⟨.pass signal, fs, w⟩) hq ha signal f
  | panic message =>
    cases fs with
    | nil => exact Nat.le_refl _
    | cons f fs =>
      rw [owed_cons]
      refine Nat.le_trans (owed_unwind (s := ⟨.panic message, fs, w⟩) q.code message f (f.owed q.code)) ?_
      exact Nat.le_add_left _ _

end Steps

end Scope

end DataBinding
