import DataBinding.Proofs.Machine.Deliveries
import DataBinding.Proofs.Wrapped.Alive
import DataBinding.Proofs.Wrapped.Heaps
/-!
# Steps of both runs

Both runs do the same with a command, as long as the second run does not wrap there, and with a frame that goes on
(`Wrapping.linked_frame`). What is delivered and what is subscribed to may be wrapped (`Wrapping.linked_deliver`).
-/

namespace DataBinding

variable {F C S : Type} {g : Wrapping F C S} {before : List Value} {w w' : World F C S} {h h' : Heap F C}

open State

namespace Wrapping

/-! ## Worlds -/

namespace Joint

variable (hj : g.Joint before w w')
include hj

theorem withHeap (hh : h.Wraps g h') : g.Joint before (w.withHeap h) (w'.withHeap h') := ⟨hh, hj.refs, hj.seen⟩

variable (hg : g.Sound)
include hg

/-- Code that notes nothing is resumed in both runs. -/
theorem resume {c : C} {signal : Signal C} (hs : c = g.code → signal.values = []) : ∃ w₁ w₁',
    g.client.Returns c signal w w₁ ∧ g.client.Returns c signal w' w₁' ∧ g.Joint before w₁ w₁' := by
  obtain ⟨w₁, hr, hheap, hrefs, hcode, hother⟩ := hg.client.resume c signal w
  obtain ⟨w₁', hr', hheap', hrefs', hcode', hother'⟩ := hg.client.resume c signal w'
  have hseen : g.seen w₁.client = g.seen w.client ∧ g.seen w₁'.client = g.seen w'.client := by
    by_cases he : c = g.code
    · rw [hcode he, hcode' he, hs he, List.append_nil, List.append_nil]
      exact ⟨rfl, rfl⟩
    · exact ⟨hother he, hother' he⟩
  refine ⟨w₁, w₁', hr, hr', ?_, ?_, ?_⟩
  · rw [hheap, hheap']
    exact hj.heap
  · rw [hrefs, hrefs', hj.refs]
  · rw [hseen.1, hseen.2]
    exact hj.seen

/-- A value is noted, in the second run what it shows instead. -/
theorem note {v v' : Value} (hv : g.Shows v v') : ∃ w₁ w₁', g.client.Returns g.code (.value v) w w₁ ∧
    g.client.Returns g.code (.value v') w' w₁' ∧ g.Joint before w₁ w₁' := by
  obtain ⟨w₁, hr, hheap, hrefs, hcode, -⟩ := hg.client.resume g.code (.value v) w
  obtain ⟨w₁', hr', hheap', hrefs', hcode', -⟩ := hg.client.resume g.code (.value v') w'
  obtain ⟨vs, vs', hs, hs', hvs⟩ := hj.seen
  refine ⟨w₁, w₁', hr, hr', ?_, ?_, vs ++ [v], vs' ++ [v'], ?_, ?_, List.rel_append hvs (.cons hv .nil)⟩
  · rw [hheap, hheap']
    exact hj.heap
  · rw [hrefs, hrefs', hj.refs]
  · rw [hcode rfl, hs, List.append_assoc]
    rfl
  · rw [hcode' rfl, hs', List.append_assoc]
    rfl

/-- Both runs apply the same function. -/
theorem apply (f : F) (v : Value) : ∃ u w₁ w₁', g.client.apply f v w = (u, w₁) ∧ g.client.apply f v w' = (u, w₁') ∧
    g.Joint before w₁ w₁' := by
  obtain ⟨u, xs, hf⟩ := hg.client.apply f v w
  exact ⟨u, _, _, hf w (.refl _) rfl, hf w' hj.heap.agrees hj.heap.cells.streams, hj.withHeap (hj.heap.grown xs)⟩

end Joint

/-! ## The same step -/

section Same

variable {s s' : State F C S} (hf : List.Forall₂ (Frame.Wraps g) s.frames s'.frames)
  (hj : g.Joint before s.world s'.world)
include hf hj

theorem linked_goOn (hh : h.Wraps g h') {c c' : Control F C} (hc : c.Wraps g c') :
    g.Linked before (s.goOn c h) (s'.goOn c' h') := ⟨hc, hf, hj.withHeap hh⟩

theorem linked_under (hh : h.Wraps g h') {f f' : Frame F C} (hfirst : f.Wraps g f') {c c' : Control F C}
    (hc : c.Wraps g c') : g.Linked before (s.under f c h) (s'.under f' c' h') := ⟨hc, .cons hfirst hf, hj.withHeap hh⟩

theorem linked_notify (o : ObjectId) (v : Value) {l l' : List (Handler F C)}
    (hl : List.Forall₂ (Handler.Wraps g) l l') : g.Linked before (stepNotify s o v l) (stepNotify s' o v l') := by
  cases hl with
  | nil => exact linked_goOn hf hj hj.heap (.pass _)
  | cons hx hrest =>
    simp only [stepNotify, hx.reportsOwner]
    exact linked_under hf hj hj.heap (.notifying o v hx hrest) (.run (.deliver _ hx.observer))

theorem linked_notify_under (hh : h.Wraps g h') {f f' : Frame F C} (hfirst : f.Wraps g f') (o : ObjectId) (v : Value)
    {c : Control F C} {l l' : List (Handler F C)} (hl : List.Forall₂ (Handler.Wraps g) l l') :
    g.Linked before (stepNotify (s.under f c h) o v l) (stepNotify (s'.under f' c h') o v l') := by
  have hfs : List.Forall₂ (Frame.Wraps g) (s.under f c h).frames (s'.under f' c h').frames := .cons hfirst hf
  have hw : g.Joint before (s.under f c h).world (s'.under f' c h').world := hj.withHeap hh
  exact linked_notify hfs hw o v hl

theorem linked_publish (j : SubjectId) (v : Value) {l l' : List (Observer F C)}
    (hl : List.Forall₂ (Observer.Wraps g) l l') : g.Linked before (stepPublish s j v l) (stepPublish s' j v l') := by
  cases hl with
  | nil => exact linked_goOn hf hj hj.heap (.pass _)
  | cons hx hrest => exact linked_under hf hj hj.heap (.publishing j v hx hrest) (.run (.deliver v hx))

theorem linked_set (o : ObjectId) (p : String) (v : Value) :
    g.Linked before (stepSet s o p v) (stepSet s' o p v) := by
  have hw := hj.heap
  simp only [stepSet, hw.agrees.get]
  split
  · exact linked_goOn hf hj hw (.pass _)
  · have hput := hw.put o p v
    exact linked_notify_under hf hj hput (.announcing o p _ v) o _ (hput.handlersFor o .before p)

theorem linked_write (root : ObjectId) (path : Path) (v : Value) :
    g.Linked before (stepWrite s root path v) (stepWrite s' root path v) := by
  have hw := hj.heap
  simp only [stepWrite, hw.agrees.target?]
  split
  · exact linked_goOn hf hj hw (.run (.set _ _ v))
  · exact linked_goOn hf hj hw (.pass _)

theorem linked_switch (i : Nat) (inner : Stream F) {x y : Observer F C} (hx : x.Wraps g y) :
    g.Linked before (stepSwitch s i inner x) (stepSwitch s' i inner y) := by
  have hw := hj.heap
  have hi : s'.world.heap.switch i = s.world.heap.switch i := by simp only [Heap.switch, hw.cells.switches]
  simp only [stepSwitch, hi]
  exact linked_under hf hj (hw.setSwitch i _) (.switching i _ inner hx) (.run (.undo _))

theorem linked_task {t u : Task F C} (ht : t.Wraps g u) :
    g.Linked before (stepTask s t) (stepTask s' u) := by
  have hw := hj.heap
  cases ht with
  | deliver i v hx =>
    have hi : s'.world.heap.gateOpen i = s.world.heap.gateOpen i := by simp only [Heap.gateOpen, hw.cells.gates]
    simp only [stepTask, hi]
    split
    · exact linked_goOn hf hj hw (.run (.deliver v hx))
    · exact linked_goOn hf hj hw (.pass _)
  | client c => exact linked_goOn hf hj hw (.resume fun _ => rfl)

theorem linked_schedule (i : SchedulerId) {t u : Task F C} (ht : t.Wraps g u) :
    g.Linked before (stepSchedule s i t) (stepSchedule s' i u) := by
  have hw := hj.heap
  have hi := hw.tasks i
  simp only [stepSchedule]
  generalize s.world.heap.tasks? i = l, s'.world.heap.tasks? i = l' at hi
  cases hi with
  | none => exact linked_task hf hj ht
  | some hl => exact linked_goOn hf hj (hw.setTasks i (List.rel_append hl (.cons ht .nil))) (.pass _)

theorem linked_undo (t : Teardown C) : g.Linked before (stepUndo s t) (stepUndo s' t) := by
  have hw := hj.heap
  cases t with
  | nothing => exact linked_goOn hf hj hw (.pass _)
  | handler o id => exact linked_goOn hf hj (hw.removeHandler o id) (.pass _)
  | observer j id => exact linked_goOn hf hj (hw.removeObserver j id) (.pass _)
  | relocate i t => exact linked_goOn hf hj (hw.shutGate i) (.run (.undo t))
  | switch i t =>
    have hi : s'.world.heap.switch i = s.world.heap.switch i := by simp only [Heap.switch, hw.cells.switches]
    simp only [stepUndo, hi]
    exact linked_under hf hj (hw.setSwitch i _) (.closing i) (.run (.undo t))
  | all ms => exact linked_goOn hf hj hw (.run (.undoAll ms))
  | composite i => exact linked_goOn hf hj hw (.run (.disposeComposite i))
  | client c => exact linked_goOn hf hj hw (.resume fun _ => rfl)

theorem linked_undoAll (ms : List (Teardown C)) :
    g.Linked before (stepUndoAll s none ms) (stepUndoAll s' none ms) := by
  cases ms with
  | nil => exact linked_goOn hf hj hj.heap (.pass _)
  | cons t rest => exact linked_under hf hj hj.heap (.undoing rest) (.run (.undo t))

theorem linked_disposeComposite (i : Nat) :
    g.Linked before (stepDisposeComposite s i) (stepDisposeComposite s' i) := by
  have hw := hj.heap
  have hi : s'.world.heap.composite i = s.world.heap.composite i := by
    simp only [Heap.composite, hw.cells.composites]
  simp only [stepDisposeComposite, hi]
  split
  · exact linked_goOn hf hj hw (.pass _)
  · exact linked_goOn hf hj (hw.setComposite i _) (.run (.undoAll _))

theorem linked_subscribeAll (ms : List (Teardown C)) {rest rest' : List (Stream F × Observer F C)}
    (hrest : List.Forall₂ (Request.Wraps g) rest rest') :
    g.Linked before (stepSubscribeAll s ms rest) (stepSubscribeAll s' ms rest') := by
  cases hrest with
  | nil => exact linked_goOn hf hj hj.heap (.pass _)
  | @cons e e' _ _ he hrest => exact linked_under hf hj hj.heap (.gathering ms he hrest) (.run (.subscribe he))

/-- Both runs go on with what a frame has left to do. -/
theorem linked_frame (signal : Signal C) {f f' : Frame F C} (hfirst : f.Wraps g f') :
    g.Linked before (stepFrame s signal f) (stepFrame s' signal f') := by
  have hw := hj.heap
  have hswitch : ∀ i, s'.world.heap.switch i = s.world.heap.switch i := fun i => by
    simp only [Heap.switch, hw.cells.switches]
  cases hfirst with
  | subscribed t hx => exact linked_goOn hf hj hw (.pass _)
  | notifying o v hx hrest => exact linked_notify hf hj o v hrest
  | publishing j v hx hrest => exact linked_publish hf hj j v hrest
  | announcing o p old new =>
    exact linked_notify_under hf hj hw (.changed o old new) o new (hw.handlersFor o .after p)
  | changed o old new => exact linked_goOn hf hj hw (.pass _)
  | passing v hx => exact linked_goOn hf hj hw (.run (.deliver v hx))
  | writing root => exact linked_goOn hf hj hw (.pass _)
  | gathering ms he hrest => exact linked_goOn hf hj hw (.run (.subscribeAll _ hrest))
  | relocating i => exact linked_goOn hf hj hw (.pass _)
  | opening i => exact linked_goOn hf hj hw (.pass _)
  | switching i n inner hx =>
    simp only [stepFrame, hswitch]
    split
    · exact linked_goOn hf hj hw (.pass _)
    · exact linked_under hf hj hw (.entering i n inner) (.run (.subscribe (.same (.inner i n hx))))
  | entering i n inner =>
    simp only [stepFrame, hswitch]
    split
    · exact linked_goOn hf hj (hw.setSwitch i _) (.pass _)
    · exact linked_goOn hf hj hw (.run (.undo _))
  | closing i =>
    simp only [stepFrame, hswitch]
    exact linked_goOn hf hj (hw.setSwitch i _) (.run (.undo _))
  | undoing ms => exact linked_goOn hf hj hw (.run (.undoAll ms))

variable (halive : ∀ n, s'.alive g.client n = s.alive g.client n)
include halive

theorem linked_watch (o : ObjectId) (p : String) (t : Timing) {x y : Observer F C} (hx : x.Wraps g y) :
    g.Linked before (stepWatch g.client s o p t x) (stepWatch g.client s' o p t y) := by
  have hw := hj.heap
  have hadd := hw.addHandler o t p p.isEmpty hx
  simp only [stepWatch, halive]
  split
  · rw [hw.fst_addHandler o t p p.isEmpty x y, hadd.read]
    exact linked_under hf hj hadd (.subscribed _ hx) (.run (.deliver _ hx))
  · exact linked_goOn hf hj hw (.pass _)

theorem linked_listen (j : SubjectId) {x y : Observer F C} (hx : x.Wraps g y) :
    g.Linked before (stepListen g.client s j x) (stepListen g.client s' j y) := by
  have hw := hj.heap
  simp only [stepListen, halive]
  split
  · rw [hw.fst_addObserver j x y]
    exact linked_goOn hf hj (hw.addObserver j hx) (.pass _)
  · exact linked_goOn hf hj hw (.pass _)

theorem linked_subscribe (z : Stream F) {x y : Observer F C} (hx : x.Wraps g y) :
    g.Linked before (stepSubscribe g.client s x z) (stepSubscribe g.client s' y z) := by
  have hw := hj.heap
  cases z with
  | empty => exact linked_goOn hf hj hw (.pass _)
  | just v => exact linked_under hf hj hw (.subscribed _ hx) (.run (.deliver v hx))
  | watch o p t => exact linked_watch hf hj halive o p t hx
  | constant root path =>
    have hread : s'.world.heap.readPath root path = s.world.heap.readPath root path := hw.agrees.readFrom _ _
    simp only [stepSubscribe, halive, hread]
    exact linked_under hf hj hw (.subscribed _ hx) (.run (.deliver _ hx))
  | subject j => exact linked_listen hf hj halive j hx
  | map z f => exact linked_goOn hf hj hw (.run (.subscribe (.same (.map f hx))))
  | filter z f => exact linked_goOn hf hj hw (.run (.subscribe (.same (.filter f hx))))
  | skip z n =>
    have hi : (s'.world.heap.newCounter n).1 = (s.world.heap.newCounter n).1 := by
      simp only [Heap.newCounter, hw.cells.counters]
    simp only [stepSubscribe, hi]
    exact linked_goOn hf hj (hw.newCounter n) (.run (.subscribe (.same (.skip _ hx))))
  | distinct z =>
    have hi : s'.world.heap.newMemory.1 = s.world.heap.newMemory.1 := by
      simp only [Heap.newMemory, hw.cells.memories]
    simp only [stepSubscribe, hi]
    exact linked_goOn hf hj hw.newMemory (.run (.subscribe (.same (.distinct _ hx))))
  | switch z select =>
    have hi : s'.world.heap.newSwitch.1 = s.world.heap.newSwitch.1 := by
      simp only [Heap.newSwitch, hw.cells.switches]
    simp only [stepSubscribe, hi]
    exact linked_under hf hj hw.newSwitch (.opening _) (.run (.subscribe (.same (.outer _ select hx))))
  | relocate z i =>
    have hi : s'.world.heap.newGate.1 = s.world.heap.newGate.1 := by simp only [Heap.newGate, hw.cells.gates]
    simp only [stepSubscribe, hi]
    exact linked_under hf hj hw.newGate (.relocating _) (.run (.subscribe (.same (.relocate _ i hx))))
  | merge zs =>
    have hzs : List.Forall₂ (Request.Wraps g) (zs.map (·, x)) (zs.map (·, y)) :=
      List.forall₂_map_left_iff.2 (List.forall₂_map_right_iff.2 (List.forall₂_same.2 fun _ _ => .same hx))
    exact linked_goOn hf hj hw (.run (.subscribeAll [] hzs))
  | combineLatest zs =>
    have hi : (s'.world.heap.newJoin zs.length).1 = s.world.heap.joins.size := hw.joins.size
    have hne : g.join ≠ some s.world.heap.joins.size := fun he => Nat.lt_irrefl _ (hw.joins.below _ he)
    simp only [stepSubscribe, hi]
    refine linked_goOn hf hj (hw.newJoin zs.length) (.run (.subscribeAll [] ?_))
    exact forall₂_mapIdx (List.forall₂_same.2 fun _ _ => rfl) fun k _ _ he => he ▸ .same (.slot k hne hx)

variable (hg : g.Sound)
include hg

theorem linked_map (f : Mapping F) {x y : Observer F C} (hx : x.Wraps g y) (v : Value) :
    g.Linked before (stepMap g.client s x v f) (stepMap g.client s' y v f) := by
  have hw := hj.heap
  cases f with
  | apply f =>
    obtain ⟨u, w₁, w₁', he, he', hj₁⟩ := hj.apply hg f v
    simp only [stepMap, he, he']
    exact ⟨.run (.deliver u hx), hf, hj₁⟩
  | wrap sender property =>
    simp only [stepMap, halive]
    exact linked_goOn hf hj hw (.run (.deliver _ hx))
  | emptyIfNull =>
    have hi : s'.world.heap.streams.size = s.world.heap.streams.size := by rw [hw.cells.streams]
    cases v <;> simp only [stepMap, Heap.newStream, hi]
    case stream => exact linked_goOn hf hj hw (.run (.deliver _ hx))
    all_goals exact linked_goOn hf hj (hw.newStream .empty) (.run (.deliver _ hx))
  | publish j side => exact linked_under hf hj hw (.passing v hx) (.run (.next j _))

/-- Both runs do the same with what is delivered, but where the second run wraps it. -/
theorem linked_deliver {x y : Observer F C} (hx : x.Wraps g y) (v : Value) :
    g.Ends x y ∨ g.Linked before (stepDeliver g.client s v x) (stepDeliver g.client s' v y) := by
  have hw := hj.heap
  cases hx with
  | ends he => exact .inl he
  | client hc => exact .inr (linked_goOn hf hj hw (.resume fun he => absurd he hc))
  | write root path =>
    refine .inr ?_
    simp only [stepDeliver, halive]
    split
    · exact linked_under hf hj hw (.writing root) (.run (.write root path v))
    · exact linked_goOn hf hj hw (.pass _)
  | map f hx => exact .inr (linked_map hf hj halive hg f hx v)
  | filter f hx =>
    obtain ⟨u, w₁, w₁', he, he', hj₁⟩ := hj.apply hg f v
    refine .inr ?_
    simp only [stepDeliver, he, he']
    split
    · exact ⟨.run (.deliver v hx), hf, hj₁⟩
    · exact ⟨.pass _, hf, hj₁⟩
  | skip i hx =>
    have hi : s'.world.heap.counter i = s.world.heap.counter i := by simp only [Heap.counter, hw.cells.counters]
    refine .inr ?_
    simp only [stepDeliver, hi]
    split
    · exact linked_goOn hf hj hw (.run (.deliver v hx))
    · exact linked_goOn hf hj (hw.setCounter i _) (.pass _)
  | distinct i hx =>
    have hi : s'.world.heap.memory i = s.world.heap.memory i := by simp only [Heap.memory, hw.cells.memories]
    refine .inr ?_
    simp only [stepDeliver, hi]
    split
    · exact linked_goOn hf hj hw (.pass _)
    · exact linked_goOn hf hj (hw.setMemory i v) (.run (.deliver v hx))
  | outer i select hx =>
    refine .inr ?_
    simp only [stepDeliver, hw.inner]
    exact linked_switch hf hj i _ hx
  | inner i generation hx =>
    have hi : s'.world.heap.switch i = s.world.heap.switch i := by simp only [Heap.switch, hw.cells.switches]
    refine .inr ?_
    simp only [stepDeliver, hi]
    split
    · exact linked_goOn hf hj hw (.run (.deliver v hx))
    · exact linked_goOn hf hj hw (.pass _)
  | relocate i scheduler hx => exact .inr (linked_goOn hf hj hw (.run (.schedule scheduler (.deliver i v hx))))
  | @slot j k _ _ hne hx =>
    refine .inr ?_
    simp only [stepDeliver, hw.joins.others j hne]
    split
    · exact linked_goOn hf hj (hw.setJoin hne _) (.run (.deliver _ hx))
    · exact linked_goOn hf hj (hw.setJoin hne _) (.pass _)

end Same

end Wrapping

end DataBinding
