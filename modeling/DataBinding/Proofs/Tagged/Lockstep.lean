import DataBinding.Proofs.Machine.Completes
import DataBinding.Proofs.Tagged.Bare
/-!
# Steps without tags

Away from the tags a step can as well be made without them: it leaves the same control, the same frames and the
same heap. There is one lemma for each kind of step (`State.set_bare`, `State.subscribe_bare` and so on). Client
code goes on in the same way if it does not look at the changes (`Client.Blind`), and the same things are alive if
those who observe them keep nothing (`Client.Listens`).

A state and its shadow, which is the state without the tags, therefore step together (`Shadow.step`). Where the next
step is at a tag, only the state itself makes it.
-/

namespace DataBinding

variable {F C S : Type} {g : Tagging} {k : S}

namespace State

variable {K : Client F C S} (s : State F C S)

theorem notify_bare (o : ObjectId) (v : Value) (l : List (Handler F C)) :
    (stepNotify s o v l).bare g k = stepNotify (s.bare g k) o v (l.map (·.bare g)) := by
  cases l <;> rfl

theorem publish_bare (i : SubjectId) (v : Value) (l : List (Observer F C)) :
    (stepPublish s i v l).bare g k = stepPublish (s.bare g k) i v (l.map (·.bare g)) := by
  cases l <;> rfl

theorem set_bare (o : ObjectId) (p : String) (v : Value) :
    (stepSet s o p v).bare g k = stepSet (s.bare g k) o p v := by
  have hget : (s.bare g k).world.heap.get o p = s.world.heap.get o p := Heap.get_bare ..
  simp only [stepSet, hget]
  split
  · rfl
  · rw [notify_bare, ← Heap.handlersFor_bare, Heap.put_bare]
    simp only [under, bare, World.withHeap, Heap.put_bare]
    rfl

theorem write_bare (root : ObjectId) (path : Path) (v : Value) :
    (stepWrite s root path v).bare g k = stepWrite (s.bare g k) root path v := by
  have ht : (s.bare g k).world.heap.target? root path = s.world.heap.target? root path :=
    Heap.target?_bare ..
  simp only [stepWrite, ht]
  split <;> rfl

/-- A stream that names only subjects below is subscribed to by the observer without tags. -/
theorem goOn_subscribe_bare (x : Stream F) (hx : x.Within (· < g.subject)) (y : Observer F C) (h : Heap F C) :
    (s.goOn (.run (.subscribe x y)) h).bare g k =
      (s.bare g k).goOn (.run (.subscribe x (y.bare g))) (h.bare g) := by
  simp only [goOn, bare, Control.bare, Command.bare, Tagging.bare_of_below hx]
  rfl

theorem under_subscribe_bare (f : Frame F C) (x : Stream F) (hx : x.Within (· < g.subject)) (y : Observer F C)
    (h : Heap F C) : (s.under f (.run (.subscribe x y)) h).bare g k =
      (s.bare g k).under (f.bare g) (.run (.subscribe x (y.bare g))) (h.bare g) := by
  simp only [under, bare, Control.bare, Command.bare, Tagging.bare_of_below hx]
  rfl

section Alive
variable (ha : ∀ n, n ≠ .subject g.subject → (s.bare g k).alive K n = s.alive K n)
include ha

theorem watch_bare (o : ObjectId) (p : String) (t : Timing) (y : Observer F C) :
    (stepWatch K s o p t y).bare g k = stepWatch K (s.bare g k) o p t (y.bare g) := by
  have hadd := Heap.addHandler_bare (g := g) s.world.heap o t p p.isEmpty y
  simp only [stepWatch, ha (.object o) (Node.object_ne o _)]
  split
  · have hworld : (s.bare g k).world.heap = s.world.heap.bare g := rfl
    rw [hworld, hadd]
    simp only [Heap.read_bare]
    rfl
  · rfl

theorem listen_bare {i : SubjectId} (hi : i < g.subject) (y : Observer F C) :
    (stepListen K s i y).bare g k = stepListen K (s.bare g k) i (y.bare g) := by
  have hadd := Heap.addObserver_bare s.world.heap hi y
  have hne : Node.subject i ≠ .subject g.subject := fun he => Nat.ne_of_lt hi (Node.subject.inj he)
  simp only [stepListen, ha _ hne]
  split
  · have hworld : (s.bare g k).world.heap = s.world.heap.bare g := rfl
    rw [hworld, hadd]
    rfl
  · rfl

theorem subscribe_bare {x : Stream F} (hx : x.Within (· < g.subject)) (y : Observer F C) :
    (stepSubscribe K s y x).bare g k = stepSubscribe K (s.bare g k) (y.bare g) x := by
  cases x with
  | empty | just => rfl
  | watch o p t => exact watch_bare s ha o p t y
  | constant root path =>
    have hread : (s.bare g k).world.heap.readPath root path = s.world.heap.readPath root path :=
      Heap.readPath_bare ..
    simp only [stepSubscribe, ha (.object root) (Node.object_ne root _), hread]
    rfl
  | subject i => exact listen_bare s ha hx y
  | map x f =>
    simp only [stepSubscribe]
    rw [goOn_subscribe_bare s x hx.1, Observer.bare, Tagging.marks_eq_false hx.2]
    rfl
  | filter x f => exact goOn_subscribe_bare s x hx _ _
  | skip x n => exact goOn_subscribe_bare s x hx _ _
  | distinct x => exact goOn_subscribe_bare s x hx _ _
  | switch x select => exact under_subscribe_bare s _ x hx _ _
  | relocate x i => exact under_subscribe_bare s _ x hx _ _
  | merge xs =>
    have hpairs : (xs.map (·, y)).map g.bare = xs.map (·, y.bare g) := by
      rw [List.map_map]
      exact List.map_congr_left fun x hm => Tagging.bare_of_below (Stream.allWithin_iff.1 hx x hm) y
    simp only [stepSubscribe, goOn, bare, Control.bare, Command.bare, hpairs]
    rfl
  | combineLatest xs =>
    have hpairs : (xs.mapIdx fun i x => (x, Observer.slot s.world.heap.joins.size i y)).map g.bare =
        xs.mapIdx fun i x => (x, .slot s.world.heap.joins.size i (y.bare g)) := by
      refine List.ext_getElem (by simp) fun i hi hi' => ?_
      simp only [List.getElem_map, List.getElem_mapIdx]
      exact Tagging.bare_of_below (Stream.allWithin_iff.1 hx _ (List.getElem_mem _)) _
    simp only [stepSubscribe, Heap.newJoin, goOn, bare, Control.bare, Command.bare, hpairs]
    rfl

end Alive

theorem subscribeAll_bare (ts : List (Teardown C)) (l : List (Stream F × Observer F C)) :
    (stepSubscribeAll s ts l).bare g k = stepSubscribeAll (s.bare g k) ts (l.map g.bare) := by
  cases l with
  | nil => rfl
  | cons e rest =>
    simp only [stepSubscribeAll, List.map_cons, Tagging.snd_bare]
    simp only [under, bare, List.map_cons, Frame.bare, Control.bare, Command.bare, Tagging.snd_bare]
    rfl

theorem undo_bare (t : Teardown C) : (stepUndo s t).bare g k = stepUndo (s.bare g k) t := by
  cases t with
  | handler o id =>
    simp only [stepUndo, goOn, bare, World.withHeap, Heap.removeHandler_bare]
    rfl
  | observer i id =>
    simp only [stepUndo, goOn, bare, World.withHeap, Heap.removeObserver_bare]
    rfl
  | _ => rfl

theorem undoAll_bare (panic : Option String) (ts : List (Teardown C)) :
    (stepUndoAll s panic ts).bare g k = stepUndoAll (s.bare g k) panic ts := by
  cases ts with
  | nil => cases panic <;> rfl
  | cons t rest => rfl

theorem disposeComposite_bare (c : Nat) :
    (stepDisposeComposite s c).bare g k = stepDisposeComposite (s.bare g k) c := by
  have hc : (s.bare g k).world.heap.composite c = s.world.heap.composite c := rfl
  simp only [stepDisposeComposite, hc]
  split <;> rfl

theorem add_bare (c n : Nat) : (stepAdd s c n).bare g k = stepAdd (s.bare g k) c n := by
  have hc : ((s.bare g k).world.heap.clearHandle n).composite c = (s.world.heap.clearHandle n).composite c :=
    rfl
  simp only [stepAdd, hc]
  split <;> rfl

theorem task_bare (t : Task F C) : (stepTask s t).bare g k = stepTask (s.bare g k) (t.bare g) := by
  cases t with
  | deliver i y v =>
    have hi : (s.bare g k).world.heap.gateOpen i = s.world.heap.gateOpen i := rfl
    simp only [stepTask, Task.bare, hi]
    split <;> rfl
  | client code => rfl

theorem schedule_bare (i : SchedulerId) (t : Task F C) :
    (stepSchedule s i t).bare g k = stepSchedule (s.bare g k) i (t.bare g) := by
  have ht : (s.bare g k).world.heap.tasks? i = (s.world.heap.tasks? i).map (List.map (·.bare g)) :=
    Heap.tasks?_bare ..
  simp only [stepSchedule, ht]
  cases s.world.heap.tasks? i with
  | none => exact task_bare s t
  | some tasks =>
    simp only [goOn, bare, World.withHeap, Heap.setTasks_bare, List.map_append]
    rfl

theorem drain_bare (i : SchedulerId) (ran : Nat) :
    (stepDrain s i ran).bare g k = stepDrain (s.bare g k) i ran := by
  have ht : (s.bare g k).world.heap.tasks? i = (s.world.heap.tasks? i).map (List.map (·.bare g)) :=
    Heap.tasks?_bare ..
  simp only [stepDrain, ht]
  rcases s.world.heap.tasks? i with - | - | ⟨t, tasks⟩
  · rfl
  · rfl
  · simp only [Option.map_some, List.map_cons, task_bare]
    simp only [under, bare, World.withHeap, Heap.setTasks_bare]
    rfl

/-! ## Frames -/

theorem frame_bare (signal : Signal C) {f : Frame F C} (hf : (f.bare g).Within (.below g.subject)) :
    (stepFrame s signal f).bare g k = stepFrame (s.bare g k) signal (f.bare g) := by
  cases f with
  | notifying r rest o v => exact notify_bare s o v rest
  | publishing y rest i v => exact publish_bare s i v rest
  | announcing o p old new =>
    have hl : (s.bare g k).world.heap.handlersFor o .after p =
        (s.world.heap.handlersFor o .after p).map (·.bare g) := Heap.handlersFor_bare ..
    simp only [Frame.bare, stepFrame, hl]
    exact notify_bare (s.under (.changed o old new) (.pass .done) s.world.heap) o new _
  | switching i n inner next =>
    have hi : (s.bare g k).world.heap.switch i = s.world.heap.switch i := rfl
    simp only [Frame.bare, stepFrame, hi]
    split
    · rfl
    · exact under_subscribe_bare s (.entering i n inner) inner hf.1 (.inner i n next) _
  | entering i n inner =>
    have hi : (s.bare g k).world.heap.switch i = s.world.heap.switch i := rfl
    simp only [Frame.bare, stepFrame, hi]
    split <;> rfl
  | _ => rfl

theorem unwind_bare (message : String) (f : Frame F C) :
    (unwindFrame s message f).bare g k = unwindFrame (s.bare g k) message (f.bare g) := by
  cases f <;> rfl

theorem move_bare (m : Move F C) : (stepMove s m).bare g k = stepMove (s.bare g k) (m.bare g) := by
  cases m <;> rfl

end State

/-! ## Clients -/

/-- The client goes on without the tags as it does with them, up to what it notes of the changes, and holds
the same; it leaves the subject of the changes alone. -/
structure Client.Blind (K : Client F C S) (g : Tagging) (Like : S → S → Prop) : Prop where
  apply : ∀ f v w k, Like k w.client → ∃ k', Like k' (K.apply f v w).2.client ∧
    K.apply f v ⟨w.heap.bare g, k⟩ = ((K.apply f v w).1, ⟨(K.apply f v w).2.heap.bare g, k'⟩)
  resume : ∀ code signal w k, Like k w.client → ∃ k', Like k' (K.resume code signal w).1.client ∧
    K.resume code signal ⟨w.heap.bare g, k⟩ =
      (⟨(K.resume code signal w).1.heap.bare g, k'⟩, (K.resume code signal w).2.bare g)
  applied : ∀ f v w codes, w.heap.Publishes g codes → (K.apply f v w).2.heap.Publishes g codes
  resumed : ∀ code signal w codes, w.heap.Publishes g codes →
    (K.resume code signal w).1.heap.Publishes g codes
  refs : ∀ k k', Like k k' → ∀ n, n ∈ K.refs k ↔ n ∈ K.refs k'

variable {K : Client F C S} {Like : S → S → Prop} {codes : List C}

section Deliver

variable (hK : K.Blind g Like) {s : State F C S} (hlike : Like k s.world.client)
  (ha : ∀ n, n ≠ .subject g.subject → (s.bare g k).alive K n = s.alive K n)
include hK hlike ha

namespace State

theorem map_bare {f : Mapping F} (y : Observer F C) (v : Value) : ∃ k',
    Like k' (stepMap K s y v f).world.client ∧
      (stepMap K s y v f).bare g k' = stepMap K (s.bare g k) (y.bare g) v f := by
  cases f with
  | apply f =>
    obtain ⟨k', hl, he⟩ := hK.apply f v s.world k hlike
    refine ⟨k', hl, ?_⟩
    simp only [stepMap, bare, he]
    rfl
  | wrap o p =>
    refine ⟨k, hlike, ?_⟩
    simp only [stepMap, ha (.object o) (Node.object_ne o _)]
    rfl
  | emptyIfNull =>
    refine ⟨k, ?_⟩
    cases v <;> exact ⟨hlike, rfl⟩
  | publish i side => exact ⟨k, hlike, rfl⟩

/-- A value is delivered without the tags, if it is not one to be published. -/
theorem deliver_bare {y : Observer F C} (hy : ∀ f next, y = .map f next → g.marks f next = false) (v : Value) :
    ∃ k', Like k' (stepDeliver K s v y).world.client ∧
      (stepDeliver K s v y).bare g k' = stepDeliver K (s.bare g k) v (y.bare g) := by
  cases y with
  | map f next =>
    simp only [Observer.bare, hy f next rfl]
    exact map_bare hK hlike ha next v
  | filter f next =>
    obtain ⟨k', hl, he⟩ := hK.apply f v s.world k hlike
    refine ⟨k', hl, ?_⟩
    simp only [stepDeliver, Observer.bare, bare, he]
    congr 1
    split <;> rfl
  | client code => exact ⟨k, hlike, rfl⟩
  | write root path =>
    refine ⟨k, ?_⟩
    simp only [stepDeliver, Observer.bare, ha (.object root) (Node.object_ne root _)]
    split <;> exact ⟨hlike, rfl⟩
  | skip i next =>
    have hi : (s.bare g k).world.heap.counter i = s.world.heap.counter i := rfl
    refine ⟨k, ?_⟩
    simp only [stepDeliver, Observer.bare, hi]
    cases s.world.heap.counter i <;> exact ⟨hlike, rfl⟩
  | distinct i next =>
    have hi : (s.bare g k).world.heap.memory i = s.world.heap.memory i := rfl
    refine ⟨k, ?_⟩
    simp only [stepDeliver, Observer.bare, hi]
    split <;> exact ⟨hlike, rfl⟩
  | outer i select next =>
    refine ⟨k, hlike, ?_⟩
    cases select <;> cases v <;> rfl
  | inner i n next =>
    have hi : (s.bare g k).world.heap.switch i = s.world.heap.switch i := rfl
    refine ⟨k, ?_⟩
    simp only [stepDeliver, Observer.bare, hi]
    split <;> exact ⟨hlike, rfl⟩
  | relocate i scheduler next => exact ⟨k, hlike, rfl⟩
  | slot i n next =>
    have hi : (s.bare g k).world.heap.join i = s.world.heap.join i := rfl
    refine ⟨k, ?_⟩
    simp only [stepDeliver, Observer.bare, hi]
    split <;> exact ⟨hlike, rfl⟩

end State

end Deliver

/-! ## Who observes the changes -/

namespace Heap.Publishes

variable {h : Heap F C} (hh : h.Publishes g codes)
include hh

theorem of_subjects {h' : Heap F C} (hs : h'.subjects = h.subjects) : h'.Publishes g codes :=
  ⟨hs ▸ hh.last, by simpa only [Heap.observers, hs] using hh.observers⟩

theorem addObserver {i : SubjectId} (hi : i < g.subject) (y : Observer F C) :
    (h.addObserver i y).2.Publishes g codes := by
  refine ⟨by simpa [Heap.addObserver] using hh.last, ?_⟩
  have hne : i ≠ g.subject := Nat.ne_of_lt hi
  simpa [Heap.observers, Heap.addObserver, Array.getElem?_modify, hne] using hh.observers

theorem removeObserver {i : SubjectId} (hi : i < g.subject) (id : Nat) :
    (h.removeObserver i id).Publishes g codes := by
  refine ⟨by simpa [Heap.removeObserver] using hh.last, ?_⟩
  have hne : i ≠ g.subject := Nat.ne_of_lt hi
  simpa [Heap.observers, Heap.removeObserver, Array.getElem?_modify, hne] using hh.observers

end Heap.Publishes

namespace State

variable {s : State F C S} (hs : s.world.heap.Publishes g codes)
include hs

theorem publishes_deliver (hK : K.Blind g Like) (y : Observer F C) (v : Value) :
    (stepDeliver K s v y).world.heap.Publishes g codes := by
  cases y with
  | map f next =>
    cases f with
    | apply f => exact hK.applied f v s.world codes hs
    | emptyIfNull => cases v <;> exact hs.of_subjects rfl
    | _ => exact hs
  | filter f next => exact hK.applied f v s.world codes hs
  | _ =>
    simp only [stepDeliver, stepSwitch]
    repeat' split
    all_goals exact hs.of_subjects rfl

theorem publishes_subscribe {x : Stream F} (hx : ∀ i, x = .subject i → i < g.subject) (y : Observer F C) :
    (stepSubscribe K s y x).world.heap.Publishes g codes := by
  cases x with
  | subject i =>
    simp only [stepSubscribe, stepListen]
    split
    · exact hs.addObserver (hx i rfl) y
    · exact hs
  | watch o p t =>
    simp only [stepSubscribe, stepWatch]
    split
    · exact hs.of_subjects rfl
    · exact hs
  | _ => exact hs.of_subjects rfl

theorem publishes_undo {t : Teardown C} (ht : t.Within (· < g.subject)) :
    (stepUndo s t).world.heap.Publishes g codes := by
  cases t with
  | observer i id => exact hs.removeObserver ht id
  | _ => exact hs.of_subjects rfl

theorem publishes_command (hK : K.Blind g Like) {c : Command F C} (hc : (c.bare g).Within (.below g.subject)) :
    (stepCommand K s c).world.heap.Publishes g codes := by
  cases c with
  | deliver y v => exact publishes_deliver hs hK y v
  | subscribe x y =>
    refine publishes_subscribe hs (fun i hx => ?_) y
    subst hx
    exact (Vocabulary.pair_below.1 hc).1
  | undo t => exact publishes_undo hs hc
  | subscribeAll ts rest => cases rest <;> exact hs
  | undoAll ts panic => cases ts <;> exact hs
  | next i v =>
    simp only [stepCommand, world_publish]
    exact hs
  | _ =>
    simp only [stepCommand, stepSet, stepWrite, stepDisposeComposite, stepAdd, stepSchedule, stepDrain]
    repeat' split
    all_goals first
      | exact hs.of_subjects rfl
      | simp only [world_notify, world_task]; exact hs.of_subjects rfl

theorem publishes_frame (signal : Signal C) (f : Frame F C) :
    (stepFrame s signal f).world.heap.Publishes g codes := by
  cases f with
  | notifying | publishing | announcing =>
    simp only [stepFrame, world_notify, world_publish]
    exact hs
  | _ =>
    simp only [stepFrame]
    repeat' split
    all_goals exact hs.of_subjects rfl

omit hs in
theorem world_unwind (s : State F C S) (message : String) (f : Frame F C) :
    (unwindFrame s message f).world = s.world := by
  cases f <;> rfl

omit hs in
theorem world_move (s : State F C S) (m : Move F C) : (stepMove s m).world = s.world := by
  cases m <;> rfl

end State

/-! ## Steps -/

/-- The first state is the second one without its tags, and names no subject that the tags bring. -/
structure Shadow (K : Client F C S) (g : Tagging) (Like : S → S → Prop) (codes : List C)
    (s t : State F C S) : Prop where
  bare : t.bare g s.world.client = s
  client : Like s.world.client t.world.client
  below : s.Within (.below g.subject)
  publishes : t.world.heap.Publishes g codes

/-- The code only notes what it is given, and keeps nothing alive: it holds nothing but what the client
holds. -/
structure Client.Listens (K : Client F C S) (Like : S → S → Prop) (code : C) : Prop where
  notes : ∀ v w, ∃ w', K.Returns code (.value v) w w' ∧ w'.heap = w.heap ∧
    ∀ k, Like k w.client → Like k w'.client
  held : ∀ k k', Like k k' → K.codeRefs code ⊆ K.refs k

namespace State

/-- Only supplied functions change the state of the client by a command. -/
theorem client_command (s : State F C S) {c : Command F C} (hc : ∀ y v, c ≠ .deliver y v) :
    (stepCommand K s c).world.client = s.world.client := by
  cases c with
  | deliver y v => exact absurd rfl (hc y v)
  | next i v => simp only [stepCommand, world_publish]
  | subscribe x y =>
    cases x <;> simp only [stepCommand, stepSubscribe, stepWatch, stepListen]
    all_goals
      repeat' split
      all_goals rfl
  | subscribeAll ts rest => cases rest <;> rfl
  | undo t => cases t <;> rfl
  | undoAll ts panic => cases ts <;> rfl
  | _ =>
    simp only [stepCommand, stepSet, stepWrite, stepDisposeComposite, stepAdd, stepSchedule, stepDrain]
    repeat' split
    all_goals first
      | rfl
      | simp only [world_notify, world_task, under, World.withHeap]

theorem client_frame (s : State F C S) (signal : Signal C) (f : Frame F C) :
    (stepFrame s signal f).world.client = s.world.client := by
  cases f with
  | notifying | publishing => simp only [stepFrame, world_notify, world_publish]
  | announcing =>
    simp only [stepFrame, world_notify]
    rfl
  | _ =>
    simp only [stepFrame]
    repeat' split
    all_goals rfl

/-- A command other than a delivery is made without the tags. -/
theorem command_bare {s : State F C S}
    (ha : ∀ n, n ≠ .subject g.subject → (s.bare g k).alive K n = s.alive K n) {c : Command F C}
    (hc : (c.bare g).Within (.below g.subject)) (ht : ¬ c.AtTag g.reserved) (hn : ∀ y v, c ≠ .deliver y v) :
    (stepCommand K s c).bare g k = stepCommand K (s.bare g k) (c.bare g) := by
  cases c with
  | deliver y v => exact absurd rfl (hn y v)
  | set o p v => exact set_bare s o p v
  | write root path v => exact write_bare s root path v
  | next i v =>
    have hi : (s.bare g k).world.heap.observers i = (s.world.heap.observers i).map (·.bare g) :=
      Heap.observers_bare _ hc
    simp only [Command.bare, stepCommand, hi]
    exact publish_bare s i v _
  | subscribe x y =>
    have hpair : g.bare (x, y) = (x, y.bare g) := by
      cases x with
      | map x f =>
        have hm : g.marks f y = false := by simpa [Command.AtTag, Tagging.reserved] using ht
        simp [Tagging.bare, hm]
      | _ => rfl
    simp only [Command.bare, hpair] at hc ⊢
    exact subscribe_bare s ha (Vocabulary.pair_below.1 hc).1 y
  | subscribeAll ts rest => exact subscribeAll_bare s ts rest
  | undo t => exact undo_bare s t
  | undoAll ts panic => exact undoAll_bare s panic ts
  | dispose n => rfl
  | disposeComposite c => exact disposeComposite_bare s c
  | add c n => exact add_bare s c n
  | schedule i t => exact schedule_bare s i t
  | drain i ran => exact drain_bare s i ran

end State

namespace Shadow

variable {s t : State F C S}

theorem alive (hK : K.Blind g Like) (hl : ∀ c ∈ codes, K.Listens Like c)
    (h : Shadow K g Like codes s t) (n : Node)
    (hn : n ≠ .subject g.subject) : (t.bare g s.world.client).alive K n = t.alive K n :=
  State.alive_bare K hn (hK.refs _ _ h.client) h.publishes fun c hc => (hl c hc).held _ _ h.client

/-- Away from the tags both make the same step. -/
theorem step (hK : K.Blind g Like) (hc : K.Confined (.below g.subject)) (hl : ∀ c ∈ codes, K.Listens Like c)
    (h : Shadow K g Like codes s t) (ht : ∀ c, t.control = .run c → ¬ c.AtTag g.reserved) :
    Shadow K g Like codes (s.step K) (t.step K) := by
  have ha := h.alive hK hl
  have hbelow := h.below.step hc fun c _ => c.not_atTag_below
  obtain ⟨hbare, hlike, hb, hp⟩ := h
  obtain ⟨k, hk⟩ : ∃ k, k = s.world.client := ⟨_, rfl⟩
  rw [← hk] at ha hbare hlike
  -- only the clients may differ, so that of the step without the tags is to be found
  suffices hnext : ∃ k', Like k' (t.step K).world.client ∧ (t.step K).bare g k' = s.step K ∧
      (t.step K).world.heap.Publishes g codes by
    obtain ⟨k', hl, he, hp'⟩ := hnext
    have hk' : k' = (s.step K).world.client := by rw [← he]; rfl
    exact ⟨hk' ▸ he, hk' ▸ hl, hbelow, hp'⟩
  subst hbare
  obtain ⟨c, fs, w⟩ := t
  cases c with
  | run c =>
    -- of all commands only a delivery may call a function of the client
    by_cases hn : ∃ y v, c = .deliver y v
    · obtain ⟨y, v, rfl⟩ := hn
      have hy : ∀ f next, y = .map f next → g.marks f next = false := by
        rintro f next rfl
        simpa [Command.AtTag, Tagging.reserved] using ht _ rfl
      obtain ⟨k', hl, he⟩ := State.deliver_bare hK hlike ha hy v
      exact ⟨k', hl, he, State.publishes_deliver hp hK y v⟩
    · have hn' : ∀ y v, c ≠ .deliver y v := fun y v he => hn ⟨y, v, he⟩
      refine ⟨k, ?_, State.command_bare ha hb.control (ht c rfl) hn', State.publishes_command hp hK hb.control⟩
      have hclient := State.client_command (K := K) ⟨.run c, fs, w⟩ hn'
      exact hclient ▸ hlike
  | resume code signal =>
    obtain ⟨k', hl, he⟩ := hK.resume code signal w k hlike
    have hmove := State.move_bare (g := g) (k := k') ⟨.resume code signal, fs, (K.resume code signal w).1⟩
      (K.resume code signal w).2
    have hworld := State.world_move ⟨.resume code signal, fs, (K.resume code signal w).1⟩
      (K.resume code signal w).2
    refine ⟨k', ?_, ?_, ?_⟩
    · rw [State.step, hworld]
      exact hl
    · refine hmove.trans ?_
      simp only [State.step, State.bare, Control.bare, he]
    · rw [State.step, hworld]
      exact hK.resumed code signal w codes hp
  | pass signal =>
    cases fs with
    | nil => exact ⟨k, hlike, rfl, hp⟩
    | cons f rest =>
      refine ⟨k, ?_, State.frame_bare ⟨.pass signal, rest, w⟩ signal ?_,
        State.publishes_frame (s := ⟨.pass signal, rest, w⟩) hp signal f⟩
      · have hclient := State.client_frame ⟨.pass signal, rest, w⟩ signal f
        exact hclient ▸ hlike
      · exact (List.forall_mem_cons.1 hb.rests.frames).1
  | panic message =>
    cases fs with
    | nil => exact ⟨k, hlike, rfl, hp⟩
    | cons f rest =>
      have hworld := State.world_unwind ⟨.panic message, rest, w⟩ message f
      refine ⟨k, ?_, State.unwind_bare ⟨.panic message, rest, w⟩ message f, ?_⟩
      · rw [State.step, hworld]
        exact hlike
      · rw [State.step, hworld]
        exact hp

end Shadow

end DataBinding
