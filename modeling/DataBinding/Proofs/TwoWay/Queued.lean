import DataBinding.Proofs.TwoWay.Activation
import DataBinding.Proofs.TwoWay.Queue
import DataBinding.Proofs.TwoWay.Effects
/-!
# Two-way bindings on a queue

When a two-way binding on a queue is activated, nothing is written yet: the first value of the source is
left as a task, and the one value that is left out of what is read back from the target is the value that
the target has held before. So the echo of the first write is not the value left out, as it is without a
scheduler, and comes back once the queue is drained.

`CallSite.drain_spares_source`: the drain leaves the source as it was where nothing is brought back, or
what is brought back equals what the source holds; otherwise it stores that in the source.
`CallSite.drain_echoes`: a name is given in capitals where only the field that shows it should be.
-/

namespace DataBinding

variable {F C S : Type} {K : Client F C S} {h h' h'' : Heap F C} {k : S} {i : SchedulerId}
  {o o' : ObjectId} {p p' : String} {map : Value → Value} {ts : List (Task F C)} {caps : Capabilities}
  {path : Path} {y : Observer F C}

open State

/-! ## One observer more -/

namespace Heap

/-- The property is watched by this observer, if at all, and nothing else has changed. -/
structure Watched (watched : Bool) (o : ObjectId) (p : String) (y : Observer F C) (h h' : Heap F C) :
    Prop where
  size : h'.objects.size = h.objects.size
  get : ∀ a q, h'.get a q = h.get a q
  supports : ∀ a t, h'.supports a t = h.supports a t
  handlers : ∀ a, h'.handlers a = h.handlers a ++
    if a = o ∧ watched = true then [⟨h.nextHandler o, .after, p, false, y⟩] else []
  opens : h.StaysOpen h'

/-- Watch a property, or not. -/
def watchedIf (h : Heap F C) (watched : Bool) (o : ObjectId) (p : String) (y : Observer F C) : Heap F C :=
  if watched then (h.addHandler o .after p false y).2 else h

@[simp] theorem counters_watchedIf (watched : Bool) : (h.watchedIf watched o p y).counters = h.counters := by
  unfold watchedIf
  split <;> rfl

@[simp] theorem gates_watchedIf (watched : Bool) : (h.watchedIf watched o p y).gates = h.gates := by
  unfold watchedIf
  split <;> rfl

@[simp] theorem schedulers_watchedIf (watched : Bool) :
    (h.watchedIf watched o p y).schedulers = h.schedulers := by
  unfold watchedIf
  split <;> rfl

@[simp] theorem subjects_watchedIf (watched : Bool) : (h.watchedIf watched o p y).subjects = h.subjects := by
  unfold watchedIf
  split <;> rfl

theorem watched_watchedIf (ho : o < h.objects.size) (watched : Bool) :
    h.Watched watched o p y (h.watchedIf watched o p y) := by
  refine ⟨?_, ?_, ?_, ?_, .of_eq (by simp) (by simp) (by simp)⟩
  all_goals unfold watchedIf; split
  · exact size_addHandler ..
  · rfl
  · exact fun _ _ => get_addHandler ..
  · exact fun _ _ => rfl
  · exact fun _ _ => supports_addHandler ..
  · exact fun _ _ => rfl
  · intro a
    rw [handlers_addHandler _ _ _ _ _ _ _ ho]
    split <;> simp_all
  · simp_all

/-- What is done to cells before and after does not matter, as long as gates and counters stay open. -/
theorem Watched.of_objects {h₁ h₂ : Heap F C} {watched : Bool} (hw : h₁.Watched watched o p y h₂)
    (ho : h₁.objects = h.objects) (ho' : h'.objects = h₂.objects) (hs : h.StaysOpen h') :
    h.Watched watched o p y h' := by
  have hget := hw.get
  have hsupports := hw.supports
  have hhandlers := hw.handlers
  refine ⟨?_, ?_, ?_, ?_, hs⟩
  · rw [ho', hw.size, ho]
  · simpa only [Heap.get, ho, ho'] using hget
  · simpa only [Heap.supports, ho, ho'] using hsupports
  · simpa only [Heap.handlers, nextHandler, ho, ho'] using hhandlers

/-- Its only handler leaves the values of a property on the queue. -/
theorem queues_of_handlers {watched : Bool} {n : Nat} (ho : o < h.objects.size)
    (hs : h.supports o .after = true)
    (hx : h.handlers o = if watched then [⟨n, .after, p, false, y⟩] else [])
    (hy : y.Queues K h i o' p' map) : h.Queues K i watched o p o' p' map := by
  refine ⟨ho, ?_, fun hw => ⟨⟨n, .after, p, false, y⟩, ?_, rfl, hy⟩, fun hw => ?_⟩
  · rw [handlersFor_eq, hx]
    cases watched <;> simp
  · simp [handlersFor_eq, hx, hw, hs]
  · simp [handlersFor_eq, hx, hw]

end Heap

/-! ## Subscriptions -/

section Subscribe

/-- Subscribing to a property leads to the delivery of its value, whether it is watched or read once. -/
theorem stores_subscribe_observed (hl : path.links = []) (hn : path.root.property ≠ "")
    (ho : Node.object o ∈ K.refs k) (y : Observer F C) (fs : List (Frame F C)) :
    ∃ t, Stores K ⟨.run (.subscribe (path.observed .after caps o) y), fs, h, k⟩ []
      ⟨.run (.deliver y (h.get o path.root.property)), .subscribed y t :: fs,
        h.watchedIf (caps.supports path.rootType .after) o path.root.property y, k⟩ := by
  cases hc : caps.supports path.rootType .after with
  | true =>
    have hobserved : (path.observed .after caps o : Stream F) = .watch o path.root.property .after := by
      simp [Path.observed, hc, Path.stream, Path.LeavesOut, Path.followed, hl]
    rw [hobserved]
    exact ⟨_, stores_subscribe_watch [] y hn ho fs⟩
  | false =>
    have hobserved : (path.observed .after caps o : Stream F) = .constant o path := by
      simp [Path.observed, hc]
    have halive : (⟨.run (.subscribe (.constant o path) y), fs, h, k⟩ : State F C S).alive K
        (.object o) = true := alive_of_kept K (fun _ hm => hm) (.inl ho)
    have hread : h.readPath o path = h.get o path.root.property := by
      simp [Heap.readPath, Path.segments, hl, Heap.readFrom, Heap.read, hn]
    refine ⟨.nothing, ?_⟩
    rw [hobserved]
    refine .go id rfl ?_
    simp only [State.step, stepCommand, stepSubscribe, halive, if_true, hread]
    exact .refl _

/-- A stream on its way to a queue gets a gate. -/
theorem stores_subscribe_carried (x : Stream F) (convert : Option F) (tag : Option (SubjectId × Side))
    (y : Observer F C) (fs : List (Frame F C)) :
    Stores K ⟨.run (.subscribe (x.carried convert (some i) tag) y), fs, h, k⟩ []
      ⟨.run (.subscribe x (.mapped (Mapping.stages convert none) (.relocate h.gates.size i
          (.mapped (Mapping.stages none tag) y)))), .relocating h.gates.size :: fs, h.newGate.2, k⟩ :=
  (stores_subscribe_mapped _ _ y fs ⟨h, k⟩).after (.go id rfl (stores_subscribe_mapped _ x _ _ _))

theorem Heap.gateOpen_newGate_self (h : Heap F C) : h.newGate.2.gateOpen h.gates.size = true := by
  simp [newGate, gateOpen]

theorem Heap.opens_newGate (h : Heap F C) : h.StaysOpen h.newGate.2 := by
  refine ⟨rfl, fun _ hc => hc, fun g hg => ?_⟩
  simp only [gateOpen, newGate, Array.getElem?_push]
  split
  · rfl
  · exact hg

variable {convert : Option F} {tag : Option (SubjectId × Side)}
  (hsome : ∀ f, convert = some f → ∀ v w, K.apply f v w = (map v, w))
  (hnone : convert = none → ∀ v, map v = v)
  (htag : ∀ h' : Heap F C, h'.subjects = h.subjects → ∀ t, tag = some t → h'.observers t.1 = [])
include hsome hnone htag

/-- A direction leaves converted values on the queue. -/
theorem Observer.queues_carried (hl : path.links = []) (hn : path.root.property ≠ "") {g : Nat}
    (hg : h.gateOpen g = true) :
    (Observer.mapped (Mapping.stages convert none) (.relocate g i
      (.mapped (Mapping.stages none tag) (.write o path)))).Queues K h i o path.root.property map := by
  have hgate : (Observer.relocate g i (.mapped (Mapping.stages none tag) (.write o path))).Queues K h i o
      path.root.property id :=
    .relocate hg fun h' hs => Observer.carries_mapped hl hn nofun (fun _ _ => rfl) (htag h' hs)
  cases convert with
  | none =>
    obtain rfl : map = id := funext (hnone rfl)
    exact hgate
  | some f =>
    have happly := Observer.Queues.apply (hsome f rfl) hgate
    exact happly

/-- A property is subscribed to, and its value is left on the queue. -/
theorem stores_forward_queued (caps : Capabilities) (o' : ObjectId) {path' : Path} (hl : path.links = []) (hn : path.root.property ≠ "")
    (hl' : path'.links = []) (hn' : path'.root.property ≠ "") (hk : Node.object o ∈ K.refs k)
    (ho : o < h.objects.size) (ht : h.tasks? i = some ts) (fs : List (Frame F C)) :
    ∃ t h' task y, Stores K ⟨.run (.subscribe ((path.observed .after caps o).carried convert (some i) tag)
        (.write o' path')), fs, h, k⟩ [] ⟨.pass (.subscription t), fs, h', k⟩ ∧
      h.Watched (caps.supports path.rootType .after) o path.root.property y h' ∧
      y.Queues K h' i o' path'.root.property map ∧ h'.tasks? i = some (ts ++ [task]) ∧
      task.Writes K h' o' path'.root.property (map (h.get o path.root.property)) := by
  obtain ⟨y, hy⟩ : ∃ y : Observer F C, y = .mapped (Mapping.stages convert none) (.relocate h.gates.size i
    (.mapped (Mapping.stages none tag) (.write o' path'))) := ⟨_, rfl⟩
  obtain ⟨h₁, hh₁⟩ : ∃ h₁, h₁ = h.newGate.2.watchedIf (caps.supports path.rootType .after) o
    path.root.property y := ⟨_, rfl⟩
  have hsub := stores_subscribe_carried (K := K) (h := h) (k := k) (i := i) (path.observed .after caps o)
    convert tag (.write o' path') fs
  rw [← hy] at hsub
  obtain ⟨t, hobs⟩ := stores_subscribe_observed (h := h.newGate.2) hl hn hk y
    (.relocating h.gates.size :: fs)
  rw [← hh₁] at hobs
  have hq : y.Queues K h₁ i o' path'.root.property map := by
    rw [hy]
    refine Observer.queues_carried hsome hnone (fun h' hs => htag h' ?_) hl' hn' ?_
    · rw [hs, hh₁, Heap.subjects_watchedIf]
      rfl
    · simpa [hh₁, Heap.gateOpen] using h.gateOpen_newGate_self
  have ht₁ : h₁.tasks? i = some ts := by
    simpa [hh₁, Heap.tasks?, Heap.newGate] using ht
  obtain ⟨task, hw, hs⟩ := hq.stores (k := k) ht₁ (h.get o path.root.property)
    (.subscribed y t :: .relocating h.gates.size :: fs)
  have hopen : h₁.StaysOpen (h₁.setTasks i (ts ++ [task])) := .setTasks ..
  have hopens : h.StaysOpen h₁ := h.opens_newGate.trans (.of_eq (by simp [hh₁]) (by simp [hh₁]) (by simp [hh₁]))
  refine ⟨_, _, task, y, hsub.after (hobs.after (hs.after (.back (.back (.refl _))))), ?_, hq.congr hopen,
    Heap.tasks?_setTasks_self ht₁ _, hw.congr hopen⟩
  exact .of_objects (h.newGate.2.watched_watchedIf ho _) rfl (hh₁ ▸ rfl) (hopens.trans hopen)

/-- A property is subscribed to, and its value is left out. -/
theorem stores_backward_queued (caps : Capabilities) (o' : ObjectId) {path' : Path} (hl : path.links = []) (hn : path.root.property ≠ "")
    (hl' : path'.links = []) (hn' : path'.root.property ≠ "") (hk : Node.object o ∈ K.refs k)
    (ho : o < h.objects.size) (fs : List (Frame F C)) :
    ∃ t h' y, Stores K ⟨.run (.subscribe ((Stream.skip (path.observed .after caps o) 1).carried convert
        (some i) tag) (.write o' path')), fs, h, k⟩ [] ⟨.pass (.subscription t), fs, h', k⟩ ∧
      h.Watched (caps.supports path.rootType .after) o path.root.property y h' ∧
      y.Queues K h' i o' path'.root.property map ∧ h'.schedulers = h.schedulers := by
  obtain ⟨x, hx⟩ : ∃ x : Observer F C, x = .mapped (Mapping.stages convert none) (.relocate h.gates.size i
    (.mapped (Mapping.stages none tag) (.write o' path'))) := ⟨_, rfl⟩
  obtain ⟨h₁, hh₁⟩ : ∃ h₁, h₁ = (h.newGate.2.newCounter 1).2.watchedIf (caps.supports path.rootType .after) o
    path.root.property (.skip h.counters.size x) := ⟨_, rfl⟩
  obtain ⟨h₂, hh₂⟩ : ∃ h₂, h₂ = h₁.setCounter h.counters.size 0 := ⟨_, rfl⟩
  have hsub := stores_subscribe_carried (K := K) (h := h) (k := k) (i := i)
    (.skip (path.observed .after caps o) 1) convert tag (.write o' path') fs
  rw [← hx] at hsub
  obtain ⟨t, hobs⟩ := stores_subscribe_observed (h := (h.newGate.2.newCounter 1).2) hl hn hk
    (.skip h.counters.size x) (.relocating h.gates.size :: fs)
  rw [← hh₁] at hobs
  have hone : h₁.counter h.counters.size = 1 := by
    simp [hh₁, Heap.counter, Heap.newCounter, Heap.newGate]
  -- the counter runs out with the value that the property holds now
  have hskip : Stores K ⟨.run (.deliver (.skip h.counters.size x) (h.get o path.root.property)),
      .subscribed (.skip h.counters.size x) t :: .relocating h.gates.size :: fs, h₁, k⟩ []
      ⟨.pass (.subscription (.relocate h.gates.size t)), fs, h₂, k⟩ := by
    refine .go id rfl ?_
    simp only [State.step, stepCommand, stepDeliver, hone]
    exact .back (.back (hh₂ ▸ .refl _))
  have hopens : h.StaysOpen h₂ := by
    refine h.opens_newGate.trans ⟨by simp [hh₂, hh₁, Heap.setCounter, Heap.newCounter], fun c hc => ?_,
      fun g hg => ?_⟩
    · rw [hh₂, hh₁]
      simp only [Heap.counter, Heap.setCounter, Heap.counters_watchedIf, Heap.newCounter, Heap.newGate,
        Array.getElem?_setIfInBounds, Array.getElem?_push, Array.size_push] at hc ⊢
      split
      · simp
      · simpa [Ne.symm ‹_›] using hc
    · simpa [hh₂, hh₁, Heap.gateOpen, Heap.setCounter, Heap.newCounter] using hg
  have hzero : h₂.counter h.counters.size = 0 := by
    simp [hh₂, hh₁, Heap.counter, Heap.setCounter, Heap.newCounter, Heap.newGate]
  refine ⟨_, h₂, .skip h.counters.size x, hsub.after (.go id rfl (hobs.after hskip)), ?_,
    .skip hzero ?_, by simp [hh₂, hh₁, Heap.setCounter, Heap.newCounter, Heap.newGate]⟩
  · exact .of_objects ((h.newGate.2.newCounter 1).2.watched_watchedIf ho _) rfl (by rw [hh₂, hh₁]; rfl) hopens
  · rw [hx]
    refine Observer.queues_carried hsome hnone (fun h' hs => htag h' (hs.trans hopens.subjects)) hl' hn' ?_
    simpa [hh₂, hh₁, Heap.gateOpen, Heap.setCounter, Heap.newCounter] using h.gateOpen_newGate_self

end Subscribe

/-! ## Activation -/

/-- Two properties are subscribed to, each to be written into the other one by way of the queue. What the
first one holds is on the queue then. -/
theorem stores_activation_queued {path path' : Path} {convert convert' : Option F}
    {tag tag' : Option (SubjectId × Side)} {conv back : Value → Value}
    (hpaths : ∀ q ∈ [path, path'], q.links = [] ∧ q.root.property ≠ "") (hne : o ≠ o')
    (hends : ∀ a ∈ [o, o'], a < h.objects.size ∧ h.supports a .after = true ∧ h.handlers a = [] ∧
      Node.object a ∈ K.refs k) (ht : h.tasks? i = some ts)
    (hconv : (∀ f, convert = some f → ∀ v w, K.apply f v w = (conv v, w)) ∧
      (convert = none → ∀ v, conv v = v))
    (hback : (∀ f, convert' = some f → ∀ v w, K.apply f v w = (back v, w)) ∧
      (convert' = none → ∀ v, back v = v))
    (htag : ∀ h' : Heap F C, h'.subjects = h.subjects → ∀ t, (tag = some t ∨ tag' = some t) →
      h'.observers t.1 = []) :
    ∃ t h' task, Stores K ⟨.run (.subscribeAll []
        [((path.observed .after caps o).carried convert (some i) tag, .write o' path'),
          ((Stream.skip (path'.observed .after caps o') 1).carried convert' (some i) tag',
            .write o path)]), [], h, k⟩ [] ⟨.pass (.subscription t), [], h', k⟩ ∧
      (∀ a q, h'.get a q = h.get a q) ∧ h'.tasks? i = some (ts ++ [task]) ∧
      task.Writes K h' o' path'.root.property (conv (h.get o path.root.property)) ∧
      Queued K h' k i (caps.supports path.rootType .after) (caps.supports path'.rootType .after)
        o path.root.property o' path'.root.property conv back := by
  obtain ⟨hl, hn⟩ := hpaths path (by simp)
  obtain ⟨hl', hn'⟩ := hpaths path' (by simp)
  obtain ⟨ho, hs, hh, hk⟩ := hends o (by simp)
  obtain ⟨ho', hs', hh', hk'⟩ := hends o' (by simp)
  obtain ⟨t₁, h₁, task, y, hforward, hw₁, hy, htasks, hwrites⟩ := stores_forward_queued
    hconv.1 hconv.2 (fun h' hs t he => htag h' hs t (.inl he)) caps o' hl hn hl' hn' hk ho ht
    [.gathering (.write o' path') [] [((Stream.skip (path'.observed .after caps o') 1).carried convert'
      (some i) tag', .write o path)]]
  obtain ⟨t₂, h₂, y', hbackward, hw₂, hy', hsame⟩ := stores_backward_queued (i := i)
    hback.1 hback.2 (fun h' hs t he => htag h' (hs.trans hw₁.opens.subjects) t (.inr he)) caps o hl' hn' hl
    hn hk' (hw₁.size ▸ ho') [.gathering (.write o path) [t₁] []]
  refine ⟨.all [t₁, t₂], h₂, task, ?_, ?_, ?_, hwrites.congr hw₂.opens, ⟨?_, ?_, hne, hk, hk'⟩⟩
  · refine .go id rfl (hforward.after (.back (.go id rfl (hbackward.after (.back (.go id rfl ?_))))))
    exact .refl _
  · exact fun a q => (hw₂.get a q).trans (hw₁.get a q)
  · simpa only [Heap.tasks?, hsame] using htasks
  · refine Heap.queues_of_handlers (n := h.nextHandler o) (y := y) ?_ ?_ ?_ (hy.congr hw₂.opens)
    · rwa [hw₂.size, hw₁.size]
    · rwa [hw₂.supports, hw₁.supports]
    · rw [hw₂.handlers, hw₁.handlers, hh]
      simp [hne]
  · refine Heap.queues_of_handlers (n := h₁.nextHandler o') (y := y') ?_ ?_ ?_ hy'
    · rwa [hw₂.size, hw₁.size]
    · rwa [hw₂.supports, hw₁.supports]
    · rw [hw₂.handlers, hw₁.handlers, hh']
      simp [hne.symm]

/-- The first value of the source is not brought back to it with a change: the target is not watched, or
holds what is written there, or what is brought back equals what the source holds. -/
def BindingPlan.Unechoed (b : BindingPlan) (caps : Capabilities) (conv back : Value → Value)
    (h : Heap F C) (source target : ObjectId) : Prop :=
  let v := h.get source b.sourcePath.root.property
  caps.supports b.targetPath.rootType .after = false ∨
    (h.get target b.targetPath.root.property).eqv (conv v) = true ∨ v.eqv (back (conv v)) = true

/-- When a two-way binding on a queue is activated between two properties of objects that nothing else
listens to, nothing changes until the queue is drained. If the first value is not brought back with a
change, the drain ends and changes no property but the target. Otherwise it comes to store in the source
what the value is converted to and back. -/
theorem CallSite.drain_spares_source {w : World F C S} (s : CallSite) {caps : Capabilities}
    {b : BindingPlan} (hb : s.bindingPlan caps = .ok b)
    (hkind : s.kind = .twoWayBind ∨ s.kind = .taggedBind) (hsched : s.features.scheduler = true)
    (hpaths : ∀ p ∈ s.paths, p.links = [] ∧ p.root.property ≠ "")
    {source target : ObjectId} (hne : source ≠ target)
    (hends : ∀ o ∈ [source, target], o < w.heap.objects.size ∧ w.heap.supports o .after = true ∧
      w.heap.handlers o = [] ∧ Node.object o ∈ K.refs w.client)
    (a : Arguments F) {queue : SchedulerId} (hqueue : a.scheduler = some queue)
    {idle : List (Task F C)} (htasks : w.heap.tasks? queue = some idle)
    (hidle : ∀ task ∈ idle, task.Idle K) {conv back : Value → Value}
    (hconv : a.Supplies K s.features.conversion .converter conv)
    (hback : a.Supplies K s.features.conversion .backConverter back) :
    ∃ x h l t w₁, b.activate source target a w.heap = (.ok x, h) ∧
      Ends K [] (World.start ⟨h, w.client⟩ (.subscribeAll [] x.subscriptions)) l
        ⟨.pass (.subscription t), [], w₁⟩ ∧
      (∀ o p, w₁.heap.get o p = w.heap.get o p) ∧
      (b.Unechoed caps conv back w.heap source target →
        ∃ l n w₂, Ends K [] (w₁.start (.drain queue 0)) l ⟨.pass (.count n), [], w₂⟩ ∧
          ∀ o p, ¬ (o = target ∧ p = b.targetPath.root.property) →
            w₂.heap.get o p = w.heap.get o p) ∧
      (¬ b.Unechoed caps conv back w.heap source target →
        ∃ l e, Leads K [] (w₁.start (.drain queue 0)) l e ∧
          e.control = .run (.set source b.sourcePath.root.property
            (back (conv (w.heap.get source b.sourcePath.root.property)))) ∧
          e.stored? = some (source, b.sourcePath.root.property)) := by
  obtain ⟨mode, -, -, hp, -⟩ := bindingPlan_eq hb
  have hpaths' : ∀ q ∈ [b.sourcePath, b.targetPath], q.links = [] ∧ q.root.property ≠ "" := hp ▸ hpaths
  have hleaf : ∀ q ∈ [b.sourcePath, b.targetPath], q.leaf.property ≠ "" := fun q hq => by
    obtain ⟨hl, hn⟩ := hpaths' q hq
    simpa [Path.leaf, Path.segments, hl] using hn
  have hbi : s.kind.isBidirectional = true := by
    obtain hk | hk := hkind <;> rw [hk] <;> rfl
  obtain ⟨pipeline, changes, hactivate⟩ := BindingPlan.activate_of_pipelines hb hbi
    (fun _ => ⟨queue, hqueue⟩) (Path.observe_eq_observed (hleaf _ (by simp)) a)
    (Path.observe_eq_observed (hleaf _ (by simp)) a) hconv hback w.heap
  rw [hsched, if_pos rfl, hqueue] at hactivate
  have hobjects := BindingPlan.objects_prepared (b := b) w.heap
  have hget : ∀ o q, (b.prepared w.heap).get o q = w.heap.get o q := fun o q => by
    simp only [Heap.get, hobjects]
  have hschedulers : (b.prepared w.heap).schedulers = w.heap.schedulers := by
    unfold BindingPlan.prepared
    split <;> rfl
  obtain ⟨t, h₁, task, hstores, hsame, ht, hwrites, hq⟩ := stores_activation_queued
    (h := b.prepared w.heap) (k := w.client) (i := queue) hpaths' hne
    (by simpa only [Heap.supports, Heap.handlers, hobjects] using hends)
    (by simpa only [Heap.tasks?, hschedulers] using htasks)
    ⟨fun f hf => hconv.apply_of_some hf, hconv.eq_of_none⟩
    ⟨fun f hf => hback.apply_of_some hf, hback.eq_of_none⟩
    (fun h' hs t he => he.elim (BindingPlan.observers_of_tag hs) (BindingPlan.observers_of_tag hs))
  obtain ⟨l, hl, -⟩ := hstores.ends
  have hbefore : ∀ o p, h₁.get o p = w.heap.get o p := fun o p => (hsame o p).trans (hget o p)
  -- tasks that do nothing are run first, and then what the binding has left
  obtain ⟨h₂, rfl, hfirst⟩ := stores_drain_idle (k := w.client) hidle h₁ ht 0 []
  have hq₂ : Queued K (h₁.setTasks queue [task]) w.client queue _ _ source b.sourcePath.root.property
      target b.targetPath.root.property conv back := hq.setTasks _
  have ht₂ := Heap.tasks?_setTasks_self ht [task]
  have hsource : (h₁.setTasks queue [task]).get source b.sourcePath.root.property =
      w.heap.get source b.sourcePath.root.property := hbefore ..
  have htarget : (h₁.setTasks queue [task]).get target b.targetPath.root.property =
      w.heap.get target b.targetPath.root.property := hbefore ..
  have hw₂ := hwrites.congr (.setTasks h₁ queue [task])
  rw [hget, ← hsource] at hw₂
  refine ⟨_, _, l, t, _, hactivate, hl, hbefore, fun hun => ?_, fun hun => ?_⟩
  · rw [BindingPlan.Unechoed, ← hsource, ← htarget] at hun
    obtain ⟨log, m, h₃, hdrain, hspares⟩ := hq₂.drain_quiet ht₂ hw₂ hun _ []
    obtain ⟨l', hl', -⟩ := (hfirst.after hdrain).ends
    exact ⟨l', m, _, hl', fun o p hn => (hspares o p hn).trans (hbefore o p)⟩
  · rw [BindingPlan.Unechoed, ← hsource, ← htarget] at hun
    simp only [not_or, Bool.not_eq_false, Bool.not_eq_true] at hun
    obtain ⟨hwatched, hn, he⟩ := hun
    obtain ⟨gs, h₃, hdrain, hchange⟩ := hq₂.drain_echo ht₂ hw₂ hwatched hn he _ []
    obtain ⟨l', hl', -⟩ := hfirst.after hdrain
    refine ⟨l', _, hl', by rw [hsource], ?_⟩
    simp [stored?, hchange]

/-! ## A form and a field -/

/-- A short name in capitals. -/
def Value.capitals : Value → Value
  | .text "Ann" => .text "ANN"
  | v => v

/-- One function gives names in capitals, and the other one leaves them as they are; of a client that holds
these things. -/
def Client.lettering (held : List Node) : Client Bool Empty Unit where
  apply f v w := (if f then v.capitals else v, w)
  resume := nofun
  functionRefs _ := []
  codeRefs := nofun
  refs _ := held

/-- A form with this name, an empty field, and a queue. -/
def Heap.formAndField (name : String) : Heap Bool Empty :=
  { Heap.empty with
    objects := #[⟨"Form", .full, [("Name", .text name)], [], 0⟩, ⟨"Field", .full, [], [], 0⟩]
    schedulers := #[.queue []] }

/-- The name of a form is bound to the text of a field, in both directions and on a queue. -/
def CallSite.field : CallSite where
  kind := .twoWayBind
  owner := ⟨"Field", false⟩
  paths := [.single ⟨"Name", ⟨"string", false⟩, ⟨"Form", false⟩⟩,
    .single ⟨"Text", ⟨"string", false⟩, ⟨"Field", false⟩⟩]
  result := ⟨"string", false⟩
  features := { (default : Features) with conversion := true, scheduler := true }
  location := ⟨"field.rs", 1⟩
  texts := []

/-- The field shows names in capitals, and a name that is in capitals stays as it is. -/
theorem CallSite.drain_spares_capitals :
    ∃ b, CallSite.field.bindingPlan ⟨[("Form", .full), ("Field", .full)]⟩ = .ok b ∧
    ∃ x h l t w₁, b.activate 0 1 ⟨none, some true, some false, some 0⟩ (Heap.formAndField "BEA") =
        (.ok x, h) ∧
      Ends (Client.lettering [.object 0, .object 1])
        [] (World.start ⟨h, ()⟩ (.subscribeAll [] x.subscriptions)) l
        ⟨.pass (.subscription t), [], w₁⟩ ∧
      ∃ l n w₂, Ends (Client.lettering [.object 0, .object 1])
          [] (w₁.start (.drain 0 0)) l ⟨.pass (.count n), [], w₂⟩ ∧
        ∀ o p, ¬ (o = 1 ∧ p = "Text") → w₂.heap.get o p = (Heap.formAndField "BEA").get o p := by
  have hplan : CallSite.field.bindingPlan ⟨[("Form", .full), ("Field", .full)]⟩ = .ok _ := rfl
  have hconv : Arguments.Supplies (Client.lettering [.object 0, .object 1])
      ⟨none, some true, some false, some 0⟩ true .converter Value.capitals :=
    ⟨fun _ => ⟨true, rfl, fun _ _ => rfl⟩, nofun⟩
  have hback : Arguments.Supplies (Client.lettering [.object 0, .object 1])
      ⟨none, some true, some false, some 0⟩ true .backConverter id :=
    ⟨fun _ => ⟨false, rfl, fun _ _ => rfl⟩, nofun⟩
  obtain ⟨x, h, l, t, w₁, hactivate, hl, -, hquiet, -⟩ := CallSite.drain_spares_source
    (w := ⟨.formAndField "BEA", ()⟩) CallSite.field hplan (.inl rfl) rfl (by decide)
    (show (0 : ObjectId) ≠ 1 by decide) (by decide) _ rfl rfl (by simp) hconv hback
  exact ⟨_, hplan, x, h, l, t, w₁, hactivate, hl, hquiet (.inr (.inr (by decide)))⟩

/-- A name that is not in capitals comes back in capitals: the drain changes the source. -/
theorem CallSite.drain_echoes :
    ∃ b, CallSite.field.bindingPlan ⟨[("Form", .full), ("Field", .full)]⟩ = .ok b ∧
    ∃ x h l t w₁, b.activate 0 1 ⟨none, some true, some false, some 0⟩ (Heap.formAndField "Ann") =
        (.ok x, h) ∧
      Ends (Client.lettering [.object 0, .object 1])
        [] (World.start ⟨h, ()⟩ (.subscribeAll [] x.subscriptions)) l
        ⟨.pass (.subscription t), [], w₁⟩ ∧
      ∃ l n w₂, Ends (Client.lettering [.object 0, .object 1])
          [] (w₁.start (.drain 0 0)) l ⟨.pass (.count n), [], w₂⟩ ∧
        ((Heap.formAndField "Ann").get 0 "Name").eqv (.text "Ann") = true ∧
        (w₂.heap.get 0 "Name").eqv (.text "ANN") = true := by
  refine ⟨_, rfl, _, _, _, _, _, rfl, State.ends_iff_run.2 ⟨60, rfl, by decide +kernel, rfl⟩, _, _, _,
    State.ends_iff_run.2 ⟨60, rfl, by decide +kernel, rfl⟩, by decide, by decide +kernel⟩

end DataBinding
