import DataBinding.Proofs.Disposal.Ground
/-!
# Steps keep states sound

A step of a client that reserves the code leads from a sound state to a sound state, if the state is
regular: new switches and gates are in the scope as what they are made for is, only what exists is
watched or undone, and no switch in a deep scope is stopped while it subscribes to its latest inner stream
(`Scope.Regular`, `Scope.Sound.step`).
-/

namespace DataBinding

variable {F C S : Type}

namespace Scope

variable {q : Scope C} {hd : Option Nat} {top own : Prop} {n : Nat} {h h' : Heap F C}
  {fs : List (Frame F C)} {s : State F C S} {K : Client F C S}

/-- What soundness asks of a step. -/
structure Regular (q : Scope C) (s : State F C S) : Prop where
  switch : ∀ x select y, s.control = .run (.subscribe (.switch x select) y) →
    (q.switch s.world.heap.switches.size ↔ q.Covers y)
  gate : ∀ x scheduler y, s.control = .run (.subscribe (.relocate x scheduler) y) →
    (q.gate s.world.heap.gates.size ↔ q.Covers y)
  object : ∀ o p t y, s.control = .run (.subscribe (.watch o p t) y) → o < s.world.heap.objects.size
  subject : ∀ i y, s.control = .run (.subscribe (.subject i) y) → i < s.world.heap.subjects.size
  undo : ∀ i source, s.control = .run (.undo (.switch i source)) → i < s.world.heap.switches.size
  stop : ∀ i source g x, s.control = .run (.undo (.switch i source)) → .entering i g x ∈ s.frames →
    g = (s.world.heap.switch i).generation → q.deep → ¬ q.switch i

namespace Ground

/-! ## Commands -/

theorem goOn (g : q.Ground hd top h' s.frames) {c : Control F C}
    (hc : q.SoundControl h' (q.expects top s.frames) (floor s.frames) c) :
    q.Sound hd top (s.goOn c h') := ⟨g, hc⟩

theorem under {f : Frame F C} (g : q.Ground hd top h' (f :: s.frames)) {c : Control F C}
    (hc : q.SoundControl h' (q.expects top (f :: s.frames)) (floor (f :: s.frames)) c) :
    q.Sound hd top (s.under f c h') := ⟨g, hc⟩

/-- A command has come to its end without a subscription. -/
theorem passes (g : q.Ground hd top h' s.frames) {signal : Signal C} (hs : signal.teardown = .nothing) :
    q.Sound hd top (s.goOn (.pass signal) h') := g.goOn (by
  simp only [SoundControl, hs]
  exact made_nothing)

variable (g : q.Ground hd top s.world.heap s.frames)
include g

theorem notify {l : List (Handler F C)} (hl : ∀ x ∈ l, q.Fits s.world.heap x.observer) (o : ObjectId)
    (v : Value) : q.Sound hd top (stepNotify s o v l) := by
  cases l with
  | nil => exact g.passes rfl
  | cons x rest =>
    exact (g.push (f := .notifying x rest o v) (fun y hy => hl y (List.mem_cons_of_mem _ hy)) rfl).under
      (hl x List.mem_cons_self)

theorem publish {l : List (Observer F C)} (hl : ∀ y ∈ l, q.Fits s.world.heap y) (i : SubjectId)
    (v : Value) : q.Sound hd top (stepPublish s i v l) := by
  cases l with
  | nil => exact g.passes rfl
  | cons x rest =>
    exact (g.push (f := .publishing x rest i v) (fun y hy => hl y (List.mem_cons_of_mem _ hy)) rfl).under
      (hl x List.mem_cons_self)

theorem handlersFor (o : ObjectId) (t : Timing) (p : String) :
    ∀ x ∈ s.world.heap.handlersFor o t p, q.Fits s.world.heap x.observer := fun _ hx =>
  (g.heap.entries (.object o) _ (Heap.mem_roster_handlers ((s.world.heap.handlersFor_sublist o p t).subset hx))).2

theorem observers (i : SubjectId) : ∀ y ∈ s.world.heap.observers i, q.Fits s.world.heap y := by
  intro y hy
  obtain ⟨id, he⟩ := Heap.exists_mem_roster hy
  exact (g.heap.entries (.subject i) _ he).2

theorem set (o : ObjectId) (p : String) (v : Value) : q.Sound hd top (stepSet s o p v) := by
  simp only [stepSet]
  split
  · exact g.passes rfl
  · have g' : q.Ground hd top (s.world.heap.put o p v) s.frames :=
      g.alike (Heap.alike_put ..) rfl rfl
    exact notify (s := s.under (.announcing o p _ v) (.pass .done) _) (g'.push trivial rfl)
      (handlersFor (s := s.goOn (.pass .done) _) g' o .before p) o _

theorem map {next : Observer F C} (hK : K.Reserves q.code) (hy : q.Fits s.world.heap next) (v : Value)
    (f : Mapping F) : q.Sound hd top (stepMap K s next v f) := by
  cases f with
  | apply f =>
    have he := hK.apply f v s.world
    simp only [stepMap]
    exact ⟨g.edits he, hy.later he.later⟩
  | wrap sender p => exact g.goOn hy
  | emptyIfNull =>
    simp only [stepMap]
    split
    · exact g.goOn hy
    · have he : Heap.Edits q.code s.world.heap (s.world.heap.newStream .empty).2 :=
        .single (.stream _ .empty)
      exact (g.edits he).goOn (hy.later he.later)
  | publish i side => exact (g.push (f := .passing next v) hy rfl).under trivial

theorem switching {i : Nat} {next : Observer F C} (hy : q.Fits s.world.heap (.inner i 0 next))
    (inner : Stream F) : q.Sound hd top (stepSwitch s i inner next) := by
  have ht := g.turns.restart inner next hy.1 rfl
  have hl : Heap.Later .any s.world.heap (s.world.heap.setSwitch i { s.world.heap.switch i with
    generation := (s.world.heap.switch i).generation + 1, current := none }) := .setSwitch _ _ i id
  have g' := g.setSwitch (i := i) (x := ⟨_, none, _⟩) ht.tail id nofun
  exact ⟨⟨g'.heap, ⟨Fits.later (y := .inner i 0 next) hl hy, g'.frames⟩, ht⟩, trivial⟩

theorem deliver (hK : K.Reserves q.code) {y : Observer F C} (hy : q.Fits s.world.heap y) (v : Value) :
    q.Sound hd top (stepDeliver K s v y) := by
  cases y with
  | client c => exact g.goOn trivial
  | write root p =>
    simp only [stepDeliver]
    split
    · exact (g.push (f := .writing root) trivial rfl).under trivial
    · exact g.passes rfl
  | map f next =>
    have hy : q.Fits s.world.heap next := hy
    exact g.map hK hy v f
  | filter f next =>
    have he := hK.apply f v s.world
    refine ⟨g.edits he, ?_⟩
    simp only [stepDeliver]
    split
    · exact hy.later he.later
    · exact made_nothing
  | skip i next =>
    simp only [stepDeliver]
    split
    · exact g.goOn hy
    · exact (g.alike (Heap.alike_setCounter ..) rfl rfl).passes rfl
  | distinct i next =>
    have a := s.world.heap.alike_setMemory i v
    simp only [stepDeliver]
    split
    · exact g.passes rfl
    · exact (g.alike a rfl rfl).goOn (Fits.alike (y := next) hy a)
  | outer i select next => exact g.switching hy _
  | inner i generation next =>
    simp only [stepDeliver]
    split
    · exact g.goOn hy.2.2
    · exact g.passes rfl
  | relocate gate scheduler next => exact g.goOn hy
  | slot i k next =>
    have a := s.world.heap.alike_setJoin i ((s.world.heap.join i).set k (some v))
    simp only [stepDeliver]
    split
    · exact (g.alike a rfl rfl).goOn (Fits.alike (y := next) hy a)
    · exact (g.alike a rfl rfl).passes rfl

/-! ## Subscribing -/

theorem watch {o : ObjectId} (ho : o < s.world.heap.objects.size) {y : Observer F C}
    (hy : q.Fits s.world.heap y) (hc : q.Covers y ↔ q.expects top s.frames) (p : String) (t : Timing) :
    q.Sound hd top (stepWatch K s o p t y) := by
  simp only [stepWatch]
  split
  · have a := s.world.heap.enrolls_addHandler ho t p p.isEmpty y
    have hl : Heap.Later .any s.world.heap (s.world.heap.addHandler o t p p.isEmpty y).2 :=
      .of_enrolls a trivial
    have hmade : q.Made (s.world.heap.addHandler o t p p.isEmpty y).2 (q.expects top s.frames)
        (floor s.frames) (.handler o (s.world.heap.nextHandler o)) :=
      made_handler (typed_of_enrolls g.heap a hc)
    exact ((g.enrolls a hy rfl rfl).push (f := .subscribed y _) hmade rfl).under (hy.later hl)
  · exact g.passes rfl

theorem listen {i : SubjectId} (hi : i < s.world.heap.subjects.size) {y : Observer F C}
    (hy : q.Fits s.world.heap y) (hc : q.Covers y ↔ q.expects top s.frames) :
    q.Sound hd top (stepListen K s i y) := by
  simp only [stepListen]
  split
  · have a := s.world.heap.enrolls_addObserver hi y
    exact (g.enrolls a hy rfl rfl).goOn (made_observer (typed_of_enrolls g.heap a hc))
  · exact g.passes rfl

/-- A value is delivered for a subscription that has nothing to undo. -/
theorem subscribed {y : Observer F C} (hy : q.Fits s.world.heap y) (v : Value) :
    q.Sound hd top (s.under (.subscribed y .nothing) (.run (.deliver y v)) s.world.heap) :=
  (g.push (f := .subscribed y .nothing) made_nothing rfl).under hy

theorem subscribe {y : Observer F C} {x : Stream F} (hr : q.Regular s)
    (hs : s.control = .run (.subscribe x y)) (hy : q.Fits s.world.heap y)
    (hc : q.Covers y ↔ q.expects top s.frames) : q.Sound hd top (stepSubscribe K s y x) := by
  cases x with
  | empty => exact g.passes rfl
  | just v => exact g.subscribed hy v
  | watch o p t => exact g.watch (hr.object o p t y hs) hy hc p t
  | constant root p => exact g.subscribed hy _
  | subject i => exact g.listen (hr.subject i y hs) hy hc
  | map source f => exact g.goOn ⟨hy, hc⟩
  | filter source f => exact g.goOn ⟨hy, hc⟩
  | skip source m =>
    have a := s.world.heap.alike_newCounter m
    exact (g.alike a rfl rfl).goOn ⟨Fits.alike (y := y) hy a, hc⟩
  | distinct source =>
    have a := s.world.heap.alike_newMemory
    exact (g.alike a rfl rfl).goOn ⟨Fits.alike (y := y) hy a, hc⟩
  | switch source select =>
    have hq := hr.switch source select y hs
    have hl : Heap.Later .any s.world.heap s.world.heap.newSwitch.2 := .newSwitch _ trivial
    refine (g.newSwitch.push (f := .opening s.world.heap.switches.size)
      ⟨⟨g.turns.floor_le, ?_⟩, hq.trans hc⟩ rfl).under ⟨⟨?_, hq, hy.later hl⟩, ?_⟩
    · simp [Heap.newSwitch]
    · simp [Heap.newSwitch]
    · exact and_congr Iff.rfl hq.symm
  | relocate source scheduler =>
    have hq := hr.gate source scheduler y hs
    have hl : Heap.Later .any s.world.heap s.world.heap.newGate.2 := .newGate _ trivial
    exact (g.newGate.push (f := .relocating s.world.heap.gates.size) (hq.trans hc) rfl).under
      ⟨⟨hq, hy.later hl⟩, and_congr Iff.rfl hq.symm⟩
  | merge sources =>
    refine g.goOn ⟨List.forall_mem_nil _, fun p hp => ?_⟩
    obtain ⟨x, -, rfl⟩ := List.mem_map.1 hp
    exact ⟨hy, hc⟩
  | combineLatest sources =>
    have a := s.world.heap.alike_newJoin sources.length
    refine (g.alike a rfl rfl).goOn ⟨List.forall_mem_nil _, fun p hp => ?_⟩
    obtain ⟨k, hk, rfl⟩ := List.mem_mapIdx.1 hp
    exact ⟨Fits.alike (y := y) hy a, hc⟩

theorem subscribeAll {members : List (Teardown C)} {rest : List (Stream F × Observer F C)}
    (hm : ∀ t ∈ members, q.Made s.world.heap (q.expects top s.frames) (floor s.frames) t)
    (hr : q.FitsAll s.world.heap (q.expects top s.frames) rest) :
    q.Sound hd top (stepSubscribeAll s members rest) := by
  cases rest with
  | nil => exact g.goOn (made_all hm)
  | cons p rest =>
    exact (g.push (f := .gathering p.2 members rest)
      ⟨hm, fun p hp => hr p (List.mem_cons_of_mem _ hp)⟩ rfl).under (hr p List.mem_cons_self)

/-! ## Undoing -/

theorem undo (hr : q.Regular s) {t : Teardown C} (hs : s.control = .run (.undo t)) :
    q.Sound hd top (stepUndo s t) := by
  cases t with
  | nothing => exact g.passes rfl
  | handler o id => exact (g.strikes (Heap.strikes_removeHandler _ o id) rfl rfl).passes rfl
  | observer i id => exact (g.strikes (Heap.strikes_removeObserver _ i id) rfl rfl).passes rfl
  | relocate gate source => exact (g.shutGate gate).goOn trivial
  | switch i source =>
    have ht : q.Turns (s.world.heap.setSwitch i { s.world.heap.switch i with stopped := true })
        s.frames := by
      refine g.turns.set rfl (fun p hp he hg => ?_) fun g x hm hg hd hq => ?_
      · exact he ▸ (g.turns.latest p hp).2 (he ▸ hg)
      · exact absurd hq (hr.stop i source g x hs hm hg hd)
    have hi := hr.undo i source hs
    exact ((g.setSwitch ht (fun _ => rfl) fun c hc => g.heap.keeps i c hc).push (f := .closing i)
      ⟨by simpa using hi, by simp [Heap.switch_setSwitch, hi]⟩ rfl).under trivial
  | all members => exact g.goOn trivial
  | composite c => exact g.goOn trivial
  | client code => exact g.goOn trivial

theorem undoAll (members : List (Teardown C)) (panic : Option String) :
    q.Sound hd top (stepUndoAll s panic members) := by
  cases members with
  | nil =>
    cases panic with
    | none => exact g.passes rfl
    | some m => exact g.goOn trivial
  | cons t rest => exact (g.push (f := .undoing rest panic) trivial rfl).under trivial

theorem disposeComposite (c : Nat) : q.Sound hd top (stepDisposeComposite s c) := by
  simp only [stepDisposeComposite]
  split
  · exact g.passes rfl
  · exact (g.alike (Heap.alike_setComposite ..) rfl rfl).goOn trivial

theorem add (c m : Nat) : q.Sound hd top (stepAdd s c m) := by
  simp only [stepAdd]
  split
  · exact (g.clearHandle m).goOn trivial
  · exact ((g.clearHandle m).alike (Heap.alike_setComposite ..) rfl rfl).passes rfl

/-! ## Schedulers -/

theorem task {t : Task F C} (ht : q.FitsTask s.world.heap t) : q.Sound hd top (stepTask s t) := by
  cases t with
  | deliver gate y v =>
    simp only [stepTask]
    split
    · exact g.goOn ht.2
    · exact g.passes rfl
  | client c => exact g.goOn trivial

theorem schedule {t : Task F C} (ht : q.FitsTask s.world.heap t) (i : SchedulerId) :
    q.Sound hd top (stepSchedule s i t) := by
  simp only [stepSchedule]
  split
  · next tasks hts =>
    refine (g.setTasks i fun u hu => ?_).passes rfl
    rcases List.mem_append.1 hu with hu | hu
    · exact g.heap.tasks i tasks hts u hu
    · exact (List.mem_singleton.1 hu) ▸ ht
  · exact g.task ht

theorem drain (i : SchedulerId) (ran : Nat) : q.Sound hd top (stepDrain s i ran) := by
  simp only [stepDrain]
  split
  · next t tasks hts =>
    have hall := g.heap.tasks i _ hts
    have g' := g.setTasks i fun u hu => hall u (List.mem_cons_of_mem _ hu)
    exact task (s := s.under (.draining i ran t) (.pass .done) _) (g'.push trivial rfl)
      (FitsTask.later (.of_alike (N := .any) (Heap.alike_setTasks ..)) (hall t List.mem_cons_self))
  · exact g.passes rfl

end Ground

/-! ## Whole steps -/

theorem soundControl_of_outside {command : Command F C} (hc : command.Outside q.code) (ho : ¬ own) :
    q.SoundControl h own n (.run command) := by
  have hy : ∀ y : Observer F C, y.Foreign q.code → q.Fits h y ∧ (q.Covers y ↔ own) := fun y hy =>
    ⟨fits_of_foreign hy, iff_of_false (covers_of_foreign hy) ho⟩
  cases command with
  | deliver y v => exact (hy y hc).1
  | subscribe x y => exact hy y hc
  | subscribeAll members rest => exact ⟨hc.1 ▸ nofun, fun p hp => hy p.2 (hc.2 p hp)⟩
  | schedule i t =>
    cases t with
    | deliver => exact hc.elim
    | client => trivial
  | _ => trivial

namespace Sound

theorem command {c : Command F C} (hK : K.Reserves q.code) (hr : q.Regular s)
    (hs : s.control = .run c) (h : q.Sound hd top s) : q.Sound hd top (stepCommand K s c) := by
  obtain ⟨g, hc⟩ := h
  rw [hs] at hc
  cases c with
  | set o p v => exact g.set o p v
  | write root p v =>
    simp only [stepCommand, stepWrite]
    split
    · exact g.goOn trivial
    · exact g.passes rfl
  | next i v => exact g.publish (g.observers i) i v
  | deliver y v => exact g.deliver hK hc v
  | subscribe x y => exact g.subscribe hr hs hc.1 hc.2
  | subscribeAll members rest => exact g.subscribeAll hc.1 hc.2
  | undo t => exact g.undo hr hs
  | undoAll members panic => exact g.undoAll members panic
  | dispose m => exact (g.clearHandle m).goOn trivial
  | disposeComposite c => exact g.disposeComposite c
  | add c m => exact g.add c m
  | schedule i t => exact g.schedule hc i
  | drain i ran => exact g.drain i ran

theorem frame {f : Frame F C} {signal : Signal C} (g : q.Ground hd top s.world.heap (f :: s.frames))
    (hc : q.Made s.world.heap (q.expects top (f :: s.frames)) (floor (f :: s.frames)) signal.teardown) :
    q.Sound hd top (stepFrame s signal f) := by
  have hf := g.frames.1
  cases f with
  | client c => exact g.pop.goOn trivial
  | subscribed y t => exact g.pop.goOn hf
  | notifying x rest o v => exact g.pop.notify hf o v
  | publishing x rest i v => exact g.pop.publish hf i v
  | announcing o p old new =>
    exact Ground.notify (s := s.under (.changed o old new) (.pass .done) s.world.heap)
      (g.pop.push trivial rfl) (g.pop.handlersFor o .after p) o new
  | changed => exact g.pop.passes rfl
  | passing next v => exact g.pop.goOn hf
  | writing => exact g.pop.passes rfl
  | gathering y members rest =>
    refine g.pop.goOn ⟨fun t ht => ?_, hf.2⟩
    rcases List.mem_append.1 ht with ht | ht
    · exact hf.1 t ht
    · exact (List.mem_singleton.1 ht) ▸ hc
  | relocating gate =>
    refine g.pop.goOn fun p hp => ?_
    rcases List.mem_cons.1 ((Teardown.parts_relocate gate _) ▸ hp) with rfl | hp
    · exact ⟨hf.1, fun _ => hf.2⟩
    · exact hc.outer hf p hp
  | opening i =>
    refine g.pop.goOn fun p hp => ?_
    rcases List.mem_cons.1 ((Teardown.parts_switch i _) ▸ hp) with rfl | hp
    · exact ⟨hf.1, hf.2.1, fun _ => hf.2.2⟩
    · exact hc.outer hf.2 p hp
  | switching i generation inner next =>
    simp only [stepFrame]
    split
    · exact g.pop.passes rfl
    · next hs =>
      have ht := g.turns.enter (by simpa using hs)
      exact ⟨⟨g.heap, ⟨trivial, g.frames.2⟩, ht⟩, hf, and_congr Iff.rfl hf.2.1.symm⟩
  | entering i generation inner =>
    simp only [stepFrame]
    split
    · next hg =>
      have ht : q.Turns (s.world.heap.setSwitch i { s.world.heap.switch i with
          current := some signal.teardown }) s.frames := by
        refine g.turns.tail.set rfl (fun p hp he hp' => ?_) fun j x hm hj => ?_
        -- turns of one switch have different numbers, so no other one is the latest
        · have hlt := (List.pairwise_cons.1 g.turns.ordered).1 p hp he.symm
          exact absurd (hp'.trans hg) (Nat.ne_of_lt hlt)
        · exact g.turns.running i j x (List.mem_cons_of_mem _ hm) hj
      refine (g.pop.setSwitch ht id fun c hi => ?_).passes rfl
      cases hi
      exact hc
    · exact g.pop.goOn trivial
  | closing i =>
    have ht : q.Turns (s.world.heap.setSwitch i { s.world.heap.switch i with current := none })
        s.frames := g.turns.tail.set rfl (fun _ _ _ _ => rfl) fun j x hm hj =>
      g.turns.running i j x (List.mem_cons_of_mem _ hm) hj
    exact (g.pop.setSwitch ht id fun c hc => by cases hc).goOn trivial
  | undoing rest panic => exact g.pop.goOn trivial
  | draining i ran t => exact g.pop.goOn trivial
  | unwinding message => exact g.pop.goOn trivial

theorem unwind {f : Frame F C} (g : q.Ground hd top s.world.heap (f :: s.frames)) (message : String) :
    q.Sound hd top (unwindFrame s message f) := by
  cases f with
  | subscribed y t => exact (g.pop.push (f := .unwinding message) trivial rfl).under trivial
  | gathering y members rest => exact (g.pop.push (f := .unwinding message) trivial rfl).under trivial
  | _ => exact g.pop.goOn trivial

theorem move {m : Move F C} (g : q.Ground hd top s.world.heap s.frames) (hm : m.Outside q.code) :
    q.Sound hd top (stepMove s m) := by
  cases m with
  | finish => exact g.passes rfl
  | perform c code =>
    exact (g.push (f := .client code) trivial rfl).under (soundControl_of_outside hm id)
  | goOn code => exact g.goOn trivial
  | panic message => exact g.goOn trivial

theorem step (hK : K.Reserves q.code) (hr : q.Regular s) (h : q.Sound hd top s) :
    q.Sound hd top (s.step K) := by
  obtain ⟨c, fs, w⟩ := s
  cases c with
  | run c => exact h.command hK hr rfl
  | resume code signal =>
    obtain ⟨he, hm⟩ := hK.resume code signal w
    exact move (s := ⟨.resume code signal, fs, (K.resume code signal w).1⟩) (h.ground.edits he) hm
  | pass signal =>
    cases fs with
    | nil => exact h
    | cons f fs => exact frame (s := ⟨.pass signal, fs, w⟩) h.ground h.control
  | panic message =>
    cases fs with
    | nil => exact h
    | cons f fs => exact unwind (s := ⟨.panic message, fs, w⟩) h.ground message

end Sound

end Scope

end DataBinding
