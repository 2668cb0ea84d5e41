import DataBinding.Proofs.Disposal.Steps
/-!
# Steps keep account

In a sound state what is live is owned by the handle of the subscription, by what the frames under way
have still to hand over or to undo, or by what the control is about to (`Scope.Accounts`). A step keeps
that up, unless the subscription leaves its handle or a panic leaves behind what is in the making
(`Scope.Careful`, `Scope.Accounts.step`).
-/

namespace DataBinding

variable {F C S : Type}

namespace Frame

/-- What a frame hands over or undoes later. -/
def parts : Frame F C → List Part
  | .subscribed _ t => t.parts
  | .gathering _ members _ => members.flatMap Teardown.parts
  | .relocating g => [.gate g]
  | .opening i | .closing i => [.switch i]
  | .undoing rest _ => rest.flatMap Teardown.parts
  | _ => []

end Frame

/-- What the control hands over or undoes. -/
def Control.parts : Control F C → List Part
  | .run (.undo t) => t.parts
  | .run (.undoAll members _) | .run (.subscribeAll members _) => members.flatMap Teardown.parts
  | .pass signal => signal.teardown.parts
  | _ => []

/-- What is owned by the handle of the subscription and by the frames. -/
def Heap.holdings (h : Heap F C) (hd : Option Nat) (fs : List (Frame F C)) : List Part :=
  fs.flatMap Frame.parts ++ (h.kept hd).parts

theorem Heap.holdings_congr {h h' : Heap F C} {hd : Option Nat} (hk : h'.kept hd = h.kept hd)
    (fs : List (Frame F C)) : h'.holdings hd fs = h.holdings hd fs := by
  rw [holdings, holdings, hk]

/-- Client code does not touch the handle of the subscription. -/
theorem Heap.Edits.kept_eq {h h' : Heap F C} {code : C} {hd : Option Nat} (he : Edits code h h')
    (hs : ∀ n, hd = some n → n < h.handles.size) : h'.kept hd = h.kept hd := by
  cases hd with
  | none => rfl
  | some n =>
    suffices n < h'.handles.size ∧ h'.teardown n = h.teardown n from this.2
    induction he with
    | refl => exact ⟨hs n rfl, rfl⟩
    | @tail h₁ h₂ _ he ih =>
      cases he with
      | handle t =>
        exact ⟨Nat.lt_of_lt_of_le ih.1 (by simp [newHandle]), (h₁.teardown_newHandle t ih.1).trans ih.2⟩
      | _ => exact ih

namespace Scope

variable {q : Scope C} {hd : Option Nat} {top : Prop} {h h' : Heap F C} {fs : List (Frame F C)}
  {ps : List Part} {s : State F C S} {K : Client F C S}

/-- What is live in a state is owned in it. -/
def Accounts (q : Scope C) (hd : Option Nat) (s : State F C S) : Prop :=
  q.Accounted s.world.heap (s.control.parts ++ s.world.heap.holdings hd s.frames)

/-- A panic that unwinds the frame leaves behind what is live. -/
def Loses (q : Scope C) : Frame F C → Prop
  | .relocating g => q.gate g
  | .opening i => q.switch i
  | .closing i => q.deep ∧ q.switch i
  | _ => False

/-- What keeping account asks of a step, besides regularity. -/
structure Careful (q : Scope C) (hd : Option Nat) (s : State F C S) : Prop where
  add : ∀ c m, s.control = .run (.add c m) → hd ≠ some m
  panic : ∀ m f fs, s.control = .panic m → s.frames = f :: fs → ¬ q.Loses f

theorem Accounted.other (ha : q.Accounted h (.other :: ps)) : q.Accounted h ps :=
  ha.tail (fun _ hp => ⟨hp, fun he => (he ▸ hp : q.Live h .other)⟩) (fun _ => nofun) fun _ _ => id

theorem Accounted.edits (ha : q.Accounted h ps) (he : Heap.Edits q.code h h') : q.Accounted h' ps := by
  induction he with
  | refl => exact ha
  | @tail h₁ h₂ _ he ih =>
    cases he with
    | put o p v => exact ih.alike (h₁.alike_put o p v)
    | object ty c => exact ih.alike (h₁.alike_newObject ty c)
    | subject => exact ih.alike h₁.alike_newSubject
    | stream x => exact ih.alike (h₁.alike_newStream x)
    | immediate | queue => exact ih.alike (h₁.alike_newScheduler _)
    | composite => exact ih.alike h₁.alike_newComposite
    | handle t => exact ih.alike (h₁.alike_newHandle t)
    | @register o t p r other ho =>
      by_cases hsize : o < h₁.objects.size
      · exact ih.enrolls_other (h₁.enrolls_addHandler hsize t p r _) ho
      · rw [h₁.addHandler_of_le _ _ _ _ _ (Nat.le_of_not_lt hsize)]
        exact ih

namespace Accounts

/-- A command that subscribes to nothing and undoes nothing owns nothing. -/
theorem alike (ha : q.Accounted h (h.holdings hd fs)) (a : h.Alike h') (hh : h'.handles = h.handles) :
    q.Accounted h' (h'.holdings hd fs) := by
  rw [Heap.holdings_congr (Heap.kept_congr hh hd)]
  exact Accounted.alike ha a

variable (ha : q.Accounted s.world.heap (s.world.heap.holdings hd s.frames))
include ha

theorem notify (o : ObjectId) (v : Value) (l : List (Handler F C)) :
    q.Accounts hd (stepNotify s o v l) := by
  cases l <;> exact ha

theorem publish (i : SubjectId) (v : Value) (l : List (Observer F C)) :
    q.Accounts hd (stepPublish s i v l) := by
  cases l <;> exact ha

theorem set (o : ObjectId) (p : String) (v : Value) : q.Accounts hd (stepSet s o p v) := by
  simp only [stepSet]
  split
  · exact ha
  · exact notify (s := s.under (.announcing o p _ v) (.pass .done) _)
      (alike ha (Heap.alike_put ..) rfl) o _ _

theorem edits (he : Heap.Edits q.code s.world.heap h') (hs : q.SoundHeap hd s.world.heap) :
    q.Accounted h' (h'.holdings hd s.frames) := by
  rw [Heap.holdings_congr (he.kept_eq hs.stored)]
  exact Accounted.edits ha he

/-! ## Delivering -/

theorem switching (i : Nat) (inner : Stream F) (next : Observer F C) :
    q.Accounts hd (stepSwitch s i inner next) :=
  ha.take (i := i) (x := ⟨_, none, _⟩) id

theorem deliver (hK : K.Reserves q.code) (hs : q.SoundHeap hd s.world.heap) (v : Value)
    (y : Observer F C) : q.Accounts hd (stepDeliver K s v y) := by
  cases y with
  | client c => exact ha
  | write root p => simp only [stepDeliver]; split <;> exact ha
  | map f next =>
    cases f with
    | apply f =>
      have ha' := edits ha (hK.apply f v s.world) hs
      exact ha'
    | wrap sender p => exact ha
    | emptyIfNull =>
      simp only [stepDeliver, stepMap]
      split
      · exact ha
      · exact alike ha (Heap.alike_newStream ..) rfl
    | publish i side => exact ha
  | filter f next =>
    have ha' := edits ha (hK.apply f v s.world) hs
    simp only [stepDeliver, Accounts]
    split <;> exact ha'
  | skip i next =>
    simp only [stepDeliver]
    split
    · exact ha
    · exact alike ha (Heap.alike_setCounter ..) rfl
  | distinct i next =>
    simp only [stepDeliver]
    split
    · exact ha
    · exact alike ha (Heap.alike_setMemory ..) rfl
  | outer i select next => exact switching ha i _ next
  | inner i generation next => simp only [stepDeliver]; split <;> exact ha
  | relocate gate scheduler next => exact ha
  | slot i k next =>
    have ha' := alike ha (s.world.heap.alike_setJoin i ((s.world.heap.join i).set k (some v))) rfl
    simp only [stepDeliver]
    split <;> exact ha'

/-! ## Subscribing -/

theorem subscribe {y : Observer F C} {x : Stream F} (hr : q.Regular s)
    (hs : s.control = .run (.subscribe x y)) : q.Accounts hd (stepSubscribe K s y x) := by
  cases x with
  | watch o p t =>
    simp only [stepSubscribe, stepWatch]
    split
    · exact ha.enrolls (s.world.heap.enrolls_addHandler (hr.object o p t y hs) t p p.isEmpty y)
    · exact ha
  | subject i =>
    simp only [stepSubscribe, stepListen]
    split
    · exact ha.enrolls (s.world.heap.enrolls_addObserver (hr.subject i y hs) y)
    · exact ha
  | skip source n => exact alike ha (Heap.alike_newCounter ..) rfl
  | distinct source => exact alike ha (Heap.alike_newMemory ..) rfl
  | switch source select => exact ha.newSwitch
  | relocate source scheduler => exact ha.newGate
  | combineLatest sources => exact alike ha (Heap.alike_newJoin ..) rfl
  | _ => exact ha

/-! ## Schedulers -/

theorem task (t : Task F C) : q.Accounts hd (stepTask s t) := by
  cases t with
  | deliver gate y v => simp only [stepTask]; split <;> exact ha
  | client c => exact ha

theorem schedule (i : SchedulerId) (t : Task F C) : q.Accounts hd (stepSchedule s i t) := by
  simp only [stepSchedule]
  split
  · exact alike ha (Heap.alike_setTasks ..) rfl
  · exact task ha t

theorem drain (i : SchedulerId) (ran : Nat) : q.Accounts hd (stepDrain s i ran) := by
  simp only [stepDrain]
  split
  · next t tasks _ =>
    exact task (s := s.under (.draining i ran t) (.pass .done) _)
      (alike ha (s.world.heap.alike_setTasks i tasks) rfl) t
  · exact ha

end Accounts

namespace Accounts

/-! ## Undoing -/

theorem undo {t : Teardown C}
    (ha : q.Accounted s.world.heap (t.parts ++ s.world.heap.holdings hd s.frames)) :
    q.Accounts hd (stepUndo s t) := by
  cases t with
  | nothing => exact ha
  | handler o id =>
    rw [Teardown.parts_handler] at ha
    exact ha.strikes (Heap.strikes_removeHandler ..)
  | observer i id =>
    rw [Teardown.parts_observer] at ha
    exact ha.strikes (Heap.strikes_removeObserver ..)
  | relocate gate source =>
    rw [Teardown.parts_relocate] at ha
    exact ha.shutGate
  | switch i source =>
    rw [Teardown.parts_switch] at ha
    have hstop := ha.stop (i := i) (x := { s.world.heap.switch i with stopped := true }) rfl rfl
    refine hstop.mono fun p hp => ?_
    show p ∈ source.parts ++ .switch i :: s.world.heap.holdings hd s.frames
    simpa [or_left_comm] using hp
  | all members =>
    rw [Teardown.parts_all] at ha
    exact ha
  | composite c =>
    rw [Teardown.parts_composite] at ha
    exact ha.other
  | client c =>
    rw [Teardown.parts_client] at ha
    exact ha.other

theorem undoAll {members : List (Teardown C)} (panic : Option String)
    (ha : q.Accounted s.world.heap
      (members.flatMap Teardown.parts ++ s.world.heap.holdings hd s.frames)) :
    q.Accounts hd (stepUndoAll s panic members) := by
  cases members with
  | nil => cases panic <;> exact ha
  | cons t rest =>
    refine ha.mono fun p hp => ?_
    show p ∈ t.parts ++ (rest.flatMap Teardown.parts ++ s.frames.flatMap Frame.parts ++
      (s.world.heap.kept hd).parts)
    simpa [Heap.holdings] using hp

theorem subscribeAll {members : List (Teardown C)} (rest : List (Stream F × Observer F C))
    (ha : q.Accounted s.world.heap
      (members.flatMap Teardown.parts ++ s.world.heap.holdings hd s.frames)) :
    q.Accounts hd (stepSubscribeAll s members rest) := by
  cases rest with
  | nil =>
    refine ha.mono fun p hp => ?_
    show p ∈ (Teardown.all members).parts ++ s.world.heap.holdings hd s.frames
    rwa [Teardown.parts_all]
  | cons x rest =>
    refine ha.mono fun p hp => ?_
    show p ∈ members.flatMap Teardown.parts ++ s.frames.flatMap Frame.parts ++
      (s.world.heap.kept hd).parts
    simpa [Heap.holdings] using hp

section Handles
variable (ha : q.Accounted s.world.heap (s.world.heap.holdings hd s.frames))
include ha

/-- What a handle has to undo is owned by the control from then on. -/
theorem clearHandle (m : Nat) : q.Accounted (s.world.heap.clearHandle m)
    ((s.world.heap.teardown m).parts ++ (s.world.heap.clearHandle m).holdings hd s.frames) := by
  refine (ha.alike (s.world.heap.alike_clearHandle m)).mono fun p hp => ?_
  rw [Heap.holdings, List.mem_append] at hp
  rw [Heap.holdings, List.mem_append, List.mem_append]
  rcases hp with hp | hp
  · exact .inr (.inl hp)
  · cases hd with
    | none => exact .inr (.inr hp)
    | some n =>
      by_cases hn : n = m
      · exact .inl (hn ▸ hp)
      · refine .inr (.inr ?_)
        simpa [Heap.kept, Heap.teardown_clearHandle, hn] using hp

theorem disposeComposite (c : Nat) : q.Accounts hd (stepDisposeComposite s c) := by
  simp only [stepDisposeComposite]
  split
  · exact ha
  · exact (alike ha (Heap.alike_setComposite ..) rfl).mono fun p hp => List.mem_append_right _ hp

theorem add {c m : Nat} (hm : hd ≠ some m) : q.Accounts hd (stepAdd s c m) := by
  have hk : (s.world.heap.clearHandle m).kept hd = s.world.heap.kept hd := by
    cases hd with
    | none => rfl
    | some n =>
      have hn : n ≠ m := fun he => hm (he ▸ rfl)
      simp [Heap.kept, Heap.teardown_clearHandle, hn]
  have ha' : q.Accounted (s.world.heap.clearHandle m)
      ((s.world.heap.clearHandle m).holdings hd s.frames) := by
    rw [Heap.holdings_congr hk]
    exact Accounted.alike ha (s.world.heap.alike_clearHandle m)
  simp only [stepAdd]
  split
  · exact ha'.mono fun p hp => List.mem_append_right _ hp
  · exact Accounted.alike ha' (Heap.alike_setComposite ..)

end Handles

/-! ## Whole steps -/

theorem command {c : Command F C} (hK : K.Reserves q.code) (hr : q.Regular s) (hc : q.Careful hd s)
    (hs : s.control = .run c) (hg : q.SoundHeap hd s.world.heap) (ha : q.Accounts hd s) :
    q.Accounts hd (stepCommand K s c) := by
  rw [Accounts, hs] at ha
  cases c with
  | set o p v => exact set ha o p v
  | write root p v => simp only [stepCommand, stepWrite]; split <;> exact ha
  | next i v => exact publish ha i v _
  | deliver y v => exact deliver ha hK hg v y
  | subscribe x y => exact subscribe ha hr hs
  | subscribeAll members rest => exact subscribeAll rest ha
  | undo t => exact undo ha
  | undoAll members panic => exact undoAll panic ha
  | dispose m => exact clearHandle ha m
  | disposeComposite c => exact disposeComposite ha c
  | add c m => exact add ha (hc.add c m hs)
  | schedule i t => exact schedule ha i t
  | drain i ran => exact drain ha i ran

/-- A frame that waits for no subscription of the scope. -/
theorem drop {f : Frame F C} {signal : Signal C} (hg : q.SoundHeap hd s.world.heap) {own : Prop} {n : Nat}
    (hm : q.Made s.world.heap own n signal.teardown) (ho : ¬ own)
    (ha : q.Accounted s.world.heap
      (signal.teardown.parts ++ s.world.heap.holdings hd (f :: s.frames))) :
    q.Accounted s.world.heap (f.parts ++ s.world.heap.holdings hd s.frames) := by
  have ha := ha.drop hg.keeps hm ho
  rwa [Heap.holdings, List.flatMap_cons, List.append_assoc] at ha

theorem frame {f : Frame F C} {signal : Signal C} (g : q.Ground hd top s.world.heap (f :: s.frames))
    (hm : q.Made s.world.heap (q.expects top (f :: s.frames)) (floor (f :: s.frames)) signal.teardown)
    (ha : q.Accounted s.world.heap
      (signal.teardown.parts ++ s.world.heap.holdings hd (f :: s.frames))) :
    q.Accounts hd (stepFrame s signal f) := by
  have hf := g.frames.1
  cases f with
  | client c => exact drop g.heap hm id ha
  | subscribed y t => exact drop g.heap hm id ha
  | notifying x rest o v => exact notify (drop g.heap hm id ha) o v rest
  | publishing x rest i v => exact publish (drop g.heap hm id ha) i v rest
  | announcing o p old new =>
    exact notify (s := s.under (.changed o old new) (.pass .done) s.world.heap)
      (drop g.heap hm id ha) o new _
  | changed => exact drop g.heap hm id ha
  | passing next v => exact drop g.heap hm id ha
  | writing => exact drop g.heap hm id ha
  | gathering y members rest =>
    refine ha.mono fun p hp => ?_
    show p ∈ (members ++ [signal.teardown]).flatMap Teardown.parts ++ s.world.heap.holdings hd s.frames
    simp only [Heap.holdings, Frame.parts, List.flatMap_cons, List.mem_append] at hp
    simp only [Heap.holdings, List.flatMap_append, List.flatMap_cons, List.flatMap_nil, List.append_nil,
      List.mem_append]
    tauto
  | relocating gate =>
    refine ha.mono fun p hp => ?_
    show p ∈ (Teardown.relocate gate signal.teardown).parts ++ s.world.heap.holdings hd s.frames
    simpa [Heap.holdings, Frame.parts, or_left_comm] using hp
  | opening i =>
    refine ha.mono fun p hp => ?_
    show p ∈ (Teardown.switch i signal.teardown).parts ++ s.world.heap.holdings hd s.frames
    simpa [Heap.holdings, Frame.parts, or_left_comm] using hp
  | switching i generation inner next =>
    have ha := drop g.heap hm id ha
    simp only [stepFrame]
    split <;> exact ha
  | entering i generation inner =>
    have hp : (i, generation) ∈ turns (.entering i generation inner :: s.frames) := by
      simp [turns, Frame.turn?]
    simp only [stepFrame]
    split
    · next hg =>
      -- the switch now keeps what was made; as it is still running, somebody owns it
      exact ha.enter (g.turns.present _ hp) rfl rfl ((g.turns.latest _ hp).2 hg.symm) g.heap.keeps hm
        (g.turns.running i generation inner List.mem_cons_self hg.symm)
    · exact ha
  | closing i =>
    have hset : (s.world.heap.setSwitch i { s.world.heap.switch i with current := none }).switch i =
        { s.world.heap.switch i with current := none } := by
      rw [Heap.switch_setSwitch, if_pos ⟨rfl, hf.1⟩]
    have htake := (drop g.heap hm id ha).take (i := i)
      (x := { s.world.heap.switch i with current := none }) id
    -- what it kept is owned by the control from now on, and the switch itself need not be owned
    refine Accounted.forget (htake.mono fun p hp => ?_) (congrArg Switch.stopped hset |>.trans hf.2)
      (congrArg Switch.current hset)
    show p ∈ .switch i :: (((s.world.heap.switch i).current.getD .nothing).parts ++
      s.world.heap.holdings hd s.frames)
    simpa [Frame.parts, or_left_comm] using hp
  | undoing rest panic => exact drop g.heap hm id ha
  | draining i ran t => exact drop g.heap hm id ha
  | unwinding message => exact drop g.heap hm id ha

theorem unwind {f : Frame F C} (g : q.Ground hd top s.world.heap (f :: s.frames)) (message : String)
    (hl : ¬ q.Loses f) (ha : q.Accounted s.world.heap (s.world.heap.holdings hd (f :: s.frames))) :
    q.Accounts hd (unwindFrame s message f) := by
  rw [Heap.holdings, List.flatMap_cons, List.append_assoc] at ha
  cases f with
  | relocating gate =>
    refine Accounted.drop (n := 0) ha g.heap.keeps (List.forall_mem_singleton.2 ?_) hl
    exact ⟨id, fun _ => id⟩
  | opening i =>
    refine Accounted.drop (n := 0) ha g.heap.keeps (List.forall_mem_singleton.2 ?_) hl
    exact ⟨⟨Nat.zero_le _, g.frames.1.1.2⟩, id, fun _ => id⟩
  | closing i => exact Accounted.close ha g.frames.1.2 g.heap.keeps hl
  | _ => exact ha

theorem move (m : Move F C) (ha : q.Accounted s.world.heap (s.world.heap.holdings hd s.frames)) :
    q.Accounts hd (stepMove s m) := by
  cases m with
  | perform c code => exact ha.mono fun p hp => List.mem_append_right _ hp
  | _ => exact ha

theorem step (hK : K.Reserves q.code) (hr : q.Regular s) (hc : q.Careful hd s) (h : q.Sound hd top s)
    (ha : q.Accounts hd s) : q.Accounts hd (s.step K) := by
  obtain ⟨c, fs, w⟩ := s
  cases c with
  | run c => exact ha.command hK hr hc rfl h.ground.heap
  | resume code signal =>
    have he := (hK.resume code signal w).1
    exact move (s := ⟨.resume code signal, fs, (K.resume code signal w).1⟩) _
      (edits (s := ⟨.resume code signal, fs, w⟩) ha he h.ground.heap)
  | pass signal =>
    cases fs with
    | nil => exact ha
    | cons f fs => exact frame (s := ⟨.pass signal, fs, w⟩) h.ground h.control ha
  | panic message =>
    cases fs with
    | nil => exact ha
    | cons f fs => exact unwind (s := ⟨.panic message, fs, w⟩) h.ground message (hc.panic _ f fs rfl rfl) ha

end Accounts

end Scope

end DataBinding
