import DataBinding.Live.Step
/-!
# What is named

Streams, observers and teardowns name subjects, and observers name the places that they write to. What a state
does not name, a step does not name either: it only puts together what is there, and client code names what it
is given (`Client.Confined`). A mapping may be excepted together with the observer after it (`Vocabulary.tag`):
such a pair is only taken apart to deliver a value to it (`Command.AtTag`).

`State.Within.step`: a state within a vocabulary goes on to one that is.
-/

namespace DataBinding

/-- What may be named: these subjects, these places to write to, and these mappings right before these
observers. -/
structure Vocabulary (F C : Type) where
  subject : SubjectId → Prop
  write : ObjectId → Path → Prop
  tag : Mapping F → Observer F C → Prop

variable {F C S : Type} {V : Vocabulary F C} {P : SubjectId → Prop}

/-- Subjects below this one may be named, and all places. -/
def Vocabulary.below (j : SubjectId) : Vocabulary F C := ⟨(· < j), fun _ _ => True, fun _ _ => False⟩

/-! ## Within a vocabulary -/

def Mapping.Within (P : SubjectId → Prop) : Mapping F → Prop
  | .publish i _ => P i
  | _ => True

mutual

def Stream.Within (P : SubjectId → Prop) : Stream F → Prop
  | .subject i => P i
  | .map x f => x.Within P ∧ f.Within P
  | .filter x _ | .skip x _ | .distinct x | .switch x _ | .relocate x _ => x.Within P
  | .merge xs | .combineLatest xs => Stream.AllWithin P xs
  | _ => True

def Stream.AllWithin (P : SubjectId → Prop) : List (Stream F) → Prop
  | [] => True
  | x :: rest => x.Within P ∧ Stream.AllWithin P rest

end

theorem Stream.allWithin_iff {xs : List (Stream F)} : Stream.AllWithin P xs ↔ ∀ x ∈ xs, x.Within P := by
  induction xs with
  | nil => simp [AllWithin]
  | cons x rest ih => simp [AllWithin, ih]

def Observer.Within (V : Vocabulary F C) : Observer F C → Prop
  | .client _ => True
  | .write root path => V.write root path
  | .map f next => V.tag f next ∨ f.Within V.subject ∧ next.Within V
  | .filter _ next | .skip _ next | .distinct _ next | .outer _ _ next | .inner _ _ next
  | .relocate _ _ next | .slot _ _ next => next.Within V

/-- A stream and the observer that subscribes to it. -/
def Vocabulary.Pair (V : Vocabulary F C) (x : Stream F) (y : Observer F C) : Prop :=
  (∃ x' f, x = .map x' f ∧ x'.Within V.subject ∧ V.tag f y) ∨ x.Within V.subject ∧ y.Within V

mutual

def Teardown.Within (P : SubjectId → Prop) : Teardown C → Prop
  | .observer i _ => P i
  | .relocate _ t | .switch _ t => t.Within P
  | .all ts => Teardown.AllWithin P ts
  | _ => True

def Teardown.AllWithin (P : SubjectId → Prop) : List (Teardown C) → Prop
  | [] => True
  | t :: rest => t.Within P ∧ Teardown.AllWithin P rest

end

theorem Teardown.allWithin_iff {ts : List (Teardown C)} :
    Teardown.AllWithin P ts ↔ ∀ t ∈ ts, t.Within P := by
  induction ts with
  | nil => simp [AllWithin]
  | cons t rest ih => simp [AllWithin, ih]

def Task.Within (V : Vocabulary F C) : Task F C → Prop
  | .deliver _ o _ => o.Within V
  | .client _ => True

def Scheduler.Within (V : Vocabulary F C) : Scheduler F C → Prop
  | .immediate => True
  | .queue tasks => ∀ t ∈ tasks, t.Within V

/-- All there is in the heap is within the vocabulary. -/
structure Heap.Within (V : Vocabulary F C) (h : Heap F C) : Prop where
  objects : ∀ x ∈ h.objects, ∀ r ∈ x.handlers, r.observer.Within V
  subjects : ∀ x ∈ h.subjects, ∀ e ∈ x.observers, e.2.Within V
  schedulers : ∀ x ∈ h.schedulers, x.Within V
  composites : ∀ x ∈ h.composites, ∀ t ∈ x.members, t.Within V.subject
  handles : ∀ t ∈ h.handles, t.Within V.subject
  streams : ∀ x ∈ h.streams, x.Within V.subject
  switches : ∀ x ∈ h.switches, ∀ t ∈ x.current, t.Within V.subject

def Signal.Within (P : SubjectId → Prop) : Signal C → Prop
  | .subscription t => t.Within P
  | _ => True

def Command.Within (V : Vocabulary F C) : Command F C → Prop
  | .next i _ => V.subject i
  | .deliver o _ => o.Within V
  | .subscribe x o => V.Pair x o
  | .subscribeAll ts rest => (∀ t ∈ ts, t.Within V.subject) ∧ ∀ e ∈ rest, V.Pair e.1 e.2
  | .undo t => t.Within V.subject
  | .undoAll ts _ => ∀ t ∈ ts, t.Within V.subject
  | .schedule _ t => t.Within V
  | _ => True

def Frame.Within (V : Vocabulary F C) : Frame F C → Prop
  | .subscribed o t => o.Within V ∧ t.Within V.subject
  | .notifying r rest _ _ => r.observer.Within V ∧ ∀ r' ∈ rest, r'.observer.Within V
  | .publishing o rest i _ => V.subject i ∧ o.Within V ∧ ∀ o' ∈ rest, o'.Within V
  | .passing next _ => next.Within V
  | .gathering _ ts rest => (∀ t ∈ ts, t.Within V.subject) ∧ ∀ e ∈ rest, V.Pair e.1 e.2
  | .switching _ _ inner next => inner.Within V.subject ∧ next.Within V
  | .entering _ _ inner => inner.Within V.subject
  | .undoing ts _ => ∀ t ∈ ts, t.Within V.subject
  | .draining _ _ t => t.Within V
  | _ => True

def Control.Within (V : Vocabulary F C) : Control F C → Prop
  | .run c => c.Within V
  | .pass signal | .resume _ signal => signal.Within V.subject
  | .panic _ => True

def Move.Within (V : Vocabulary F C) : Move F C → Prop
  | .perform c _ => c.Within V
  | _ => True

/-- What is under way and the heap are within the vocabulary. -/
structure State.Rests (V : Vocabulary F C) (s : State F C S) : Prop where
  frames : ∀ f ∈ s.frames, f.Within V
  heap : s.world.heap.Within V

structure State.Within (V : Vocabulary F C) (s : State F C S) : Prop where
  control : s.control.Within V
  rests : s.Rests V

/-- A value is about to be delivered, or a subscription to be made, to an excepted pair. -/
def Command.AtTag (V : Vocabulary F C) : Command F C → Prop
  | .deliver (.map f y) _ => V.tag f y
  | .subscribe (.map _ f) y => V.tag f y
  | _ => False

theorem Command.not_atTag_below {j : SubjectId} (c : Command F C) : ¬ c.AtTag (.below j) := by
  unfold AtTag
  split <;> exact id

theorem Vocabulary.pair_below {j : SubjectId} {x : Stream F} {y : Observer F C} :
    (below j).Pair x y ↔ x.Within (· < j) ∧ y.Within (below j) :=
  or_iff_right nofun

/-- Functions and code of the client stay within the vocabulary. -/
structure Client.Confined (K : Client F C S) (V : Vocabulary F C) : Prop where
  apply : ∀ f v w, w.heap.Within V → (K.apply f v w).2.heap.Within V
  resume : ∀ code signal w, w.heap.Within V → signal.Within V.subject →
    (K.resume code signal w).1.heap.Within V ∧ (K.resume code signal w).2.Within V

/-! ## Operations on the heap -/

section Tables
variable {α : Type} {P : α → Prop} {xs : Array α} {i : Nat} {x : α}

theorem of_mem_modify {f : α → α} (hx : x ∈ xs.modify i f) (h : ∀ y ∈ xs, P y)
    (hf : ∀ y, P y → P (f y)) : P x := by
  obtain ⟨k, hk⟩ := Array.mem_iff_getElem?.1 hx
  rw [Array.getElem?_modify] at hk
  split at hk
  · obtain ⟨y, hy, rfl⟩ := Option.map_eq_some_iff.1 hk
    exact hf y (h y (Array.mem_of_getElem? hy))
  · exact h x (Array.mem_of_getElem? hk)

theorem of_mem_setIfInBounds {y : α} (hx : x ∈ xs.setIfInBounds i y) (h : ∀ y ∈ xs, P y) (hy : P y) :
    P x := by
  rcases Array.mem_or_eq_of_mem_setIfInBounds hx with hx | rfl
  · exact h x hx
  · exact hy

theorem of_mem_push {y : α} (hx : x ∈ xs.push y) (h : ∀ y ∈ xs, P y) (hy : P y) : P x := by
  rcases Array.mem_push.1 hx with hx | rfl
  · exact h x hx
  · exact hy

end Tables

namespace Heap.Within

variable {h : Heap F C} (hh : h.Within V)
include hh

theorem put (o : ObjectId) (p : String) (v : Value) : (h.put o p v).Within V := by
  refine { hh with objects := fun _ hx => ?_ }
  exact of_mem_modify (i := o) (f := (·.put p v)) hx hh.objects fun _ hy => hy

theorem addHandler (o : ObjectId) (t : Timing) (p : String) (r : Bool) {y : Observer F C} (hy : y.Within V) :
    (h.addHandler o t p r y).2.Within V := by
  refine { hh with objects := fun _ hx => ?_ }
  simp only [Heap.addHandler] at hx
  refine of_mem_modify hx hh.objects fun _ ho => ?_
  exact List.forall_mem_append.2 ⟨ho, List.forall_mem_singleton.2 hy⟩

theorem removeHandler (o : ObjectId) (id : Nat) : (h.removeHandler o id).Within V := by
  refine { hh with objects := fun _ hx => ?_ }
  simp only [Heap.removeHandler] at hx
  refine of_mem_modify hx hh.objects fun _ ho => ?_
  exact fun r hr => ho r (List.mem_filter.1 hr).1

theorem addObserver (i : SubjectId) {y : Observer F C} (hy : y.Within V) : (h.addObserver i y).2.Within V := by
  refine { hh with subjects := fun _ hx => ?_ }
  simp only [Heap.addObserver] at hx
  refine of_mem_modify hx hh.subjects fun _ ho => ?_
  exact List.forall_mem_append.2 ⟨ho, List.forall_mem_singleton.2 hy⟩

theorem removeObserver (i : SubjectId) (id : Nat) : (h.removeObserver i id).Within V := by
  refine { hh with subjects := fun _ hx => ?_ }
  simp only [Heap.removeObserver] at hx
  refine of_mem_modify hx hh.subjects fun _ ho => ?_
  exact fun e he => ho e (List.mem_filter.1 he).1

theorem setTasks (s : SchedulerId) {tasks : List (Task F C)} (ht : ∀ t ∈ tasks, t.Within V) :
    (h.setTasks s tasks).Within V :=
  { hh with schedulers := fun _ hx => of_mem_setIfInBounds hx hh.schedulers ht }

theorem newHandle {t : Teardown C} (ht : t.Within V.subject) : (h.newHandle t).2.Within V :=
  { hh with handles := fun _ hx => of_mem_push hx hh.handles ht }

theorem clearHandle (n : Nat) : (h.clearHandle n).Within V :=
  { hh with handles := fun _ hx => of_mem_setIfInBounds hx hh.handles trivial }

theorem setComposite (c : Nat) {x : Composite C} (hx : ∀ t ∈ x.members, t.Within V.subject) :
    (h.setComposite c x).Within V :=
  { hh with composites := fun _ hy => of_mem_setIfInBounds hy hh.composites hx }

theorem newStream {x : Stream F} (hx : x.Within V.subject) : (h.newStream x).2.Within V :=
  { hh with streams := fun _ hy => of_mem_push hy hh.streams hx }

theorem newSubject : h.newSubject.2.Within V :=
  { hh with subjects := fun _ hx => of_mem_push hx hh.subjects nofun }

theorem newSwitch : h.newSwitch.2.Within V :=
  { hh with switches := fun _ hx => of_mem_push hx hh.switches nofun }

theorem setSwitch (i : Nat) {x : Switch C} (hx : ∀ t ∈ x.current, t.Within V.subject) : (h.setSwitch i x).Within V :=
  { hh with switches := fun _ hy => of_mem_setIfInBounds hy hh.switches hx }

/-! ### What is read from it -/

theorem handlersFor (o : ObjectId) (t : Timing) (p : String) :
    ∀ r ∈ h.handlersFor o t p, r.observer.Within V := by
  intro r hr
  simp only [Heap.handlersFor] at hr
  cases ho : h.objects[o]? with
  | none => simp [ho] at hr
  | some x =>
    simp only [ho, Option.map_some, Option.getD_some, Object.handlersFor] at hr
    split at hr
    · exact hh.objects x (Array.mem_of_getElem? ho) r (List.mem_filter.1 hr).1
    · cases hr

theorem observers (i : SubjectId) : ∀ y ∈ h.observers i, y.Within V := by
  intro y hy
  simp only [Heap.observers] at hy
  cases hi : h.subjects[i]? with
  | none => simp [hi] at hy
  | some x =>
    simp only [hi, Option.map_some, Option.getD_some, List.mem_map] at hy
    obtain ⟨e, he, rfl⟩ := hy
    exact hh.subjects x (Array.mem_of_getElem? hi) e he

theorem tasks {s : SchedulerId} {tasks : List (Task F C)} (ht : h.tasks? s = some tasks) :
    ∀ t ∈ tasks, t.Within V := by
  simp only [Heap.tasks?] at ht
  split at ht
  · next hs =>
    cases ht
    exact hh.schedulers _ (Array.mem_of_getElem? hs)
  · cases ht

theorem composite (c : Nat) : ∀ t ∈ (h.composite c).members, t.Within V.subject := by
  simp only [Heap.composite]
  cases hc : h.composites[c]? with
  | none => exact nofun
  | some x => exact hh.composites x (Array.mem_of_getElem? hc)

theorem teardown (n : Nat) : (h.teardown n).Within V.subject := by
  simp only [Heap.teardown]
  cases hn : h.handles[n]? with
  | none => trivial
  | some t => exact hh.handles t (Array.mem_of_getElem? hn)

theorem stream (i : StreamId) : (h.stream i).Within V.subject := by
  simp only [Heap.stream]
  cases hi : h.streams[i]? with
  | none => trivial
  | some x => exact hh.streams x (Array.mem_of_getElem? hi)

theorem current (i : Nat) : ∀ t ∈ (h.switch i).current, t.Within V.subject := by
  simp only [Heap.switch]
  cases hi : h.switches[i]? with
  | none => exact nofun
  | some x => exact hh.switches x (Array.mem_of_getElem? hi)

/-- What a switch has to undo before its next turn. -/
theorem currentD (i : Nat) : ((h.switch i).current.getD .nothing).Within V.subject := by
  have hcurrent := hh.current i
  cases hc : (h.switch i).current with
  | none => trivial
  | some t => exact hcurrent t hc

end Heap.Within

/-! ## Steps -/

theorem Signal.Within.teardown {signal : Signal C} (h : signal.Within P) : signal.teardown.Within P := by
  cases signal with
  | subscription t => exact h
  | _ => trivial

/-- The inner stream taken from a value. -/
theorem Heap.Within.inner {h : Heap F C} (hh : h.Within V) (select : Selection) (v : Value) :
    (select.inner h v).Within V.subject := by
  cases select with
  | link p t => cases v <;> trivial
  | stream =>
    cases v with
    | stream i => exact hh.stream i
    | _ => trivial

namespace State.Rests

variable {K : Client F C S} {s : State F C S} (hs : s.Rests V)
include hs

theorem goOn {c : Control F C} {h : Heap F C} (hc : c.Within V) (hh : h.Within V) : (s.goOn c h).Within V :=
  ⟨hc, hs.frames, hh⟩

theorem under {f : Frame F C} {c : Control F C} {h : Heap F C} (hf : f.Within V) (hc : c.Within V)
    (hh : h.Within V) : (s.under f c h).Within V :=
  ⟨hc, List.forall_mem_cons.2 ⟨hf, hs.frames⟩, hh⟩

theorem notify (o : ObjectId) (v : Value) {l : List (Handler F C)} (hl : ∀ r ∈ l, r.observer.Within V) :
    (stepNotify s o v l).Within V := by
  cases l with
  | nil => exact hs.goOn trivial hs.heap
  | cons r rest =>
    obtain ⟨hr, hrest⟩ := List.forall_mem_cons.1 hl
    exact hs.under ⟨hr, hrest⟩ hr hs.heap

theorem publish {i : SubjectId} (hi : V.subject i) (v : Value) {l : List (Observer F C)}
    (hl : ∀ y ∈ l, y.Within V) : (stepPublish s i v l).Within V := by
  cases l with
  | nil => exact hs.goOn trivial hs.heap
  | cons y rest =>
    obtain ⟨hy, hrest⟩ := List.forall_mem_cons.1 hl
    exact hs.under ⟨hi, hy, hrest⟩ hy hs.heap

theorem set (o : ObjectId) (p : String) (v : Value) : (stepSet s o p v).Within V := by
  simp only [stepSet]
  split
  · exact hs.goOn trivial hs.heap
  · have hput := hs.heap.put o p v
    exact notify (hs.under (f := .announcing o p (s.world.heap.get o p) v) (c := .pass .done) trivial trivial
      hput).rests _ _ (hput.handlersFor _ _ _)

theorem write (root : ObjectId) (path : Path) (v : Value) : (stepWrite s root path v).Within V := by
  unfold stepWrite
  split <;> exact hs.goOn trivial hs.heap

theorem watch (o : ObjectId) (p : String) (t : Timing) {y : Observer F C} (hy : y.Within V) :
    (stepWatch K s o p t y).Within V := by
  unfold stepWatch
  split
  · exact hs.under ⟨hy, trivial⟩ hy (hs.heap.addHandler _ _ _ _ hy)
  · exact hs.goOn trivial hs.heap

theorem listen {i : SubjectId} (hi : V.subject i) {y : Observer F C} (hy : y.Within V) :
    (stepListen K s i y).Within V := by
  unfold stepListen
  split
  · exact hs.goOn hi (hs.heap.addObserver _ hy)
  · exact hs.goOn trivial hs.heap

theorem subscribe {x : Stream F} {y : Observer F C} (hx : x.Within V.subject) (hy : y.Within V) :
    (stepSubscribe K s y x).Within V := by
  cases x with
  | empty => exact hs.goOn trivial hs.heap
  | just v => exact hs.under ⟨hy, trivial⟩ hy hs.heap
  | watch o p t => exact hs.watch o p t hy
  | constant root path => exact hs.under ⟨hy, trivial⟩ hy hs.heap
  | subject i => exact hs.listen hx hy
  | map x f => exact hs.goOn (.inr ⟨hx.1, .inr ⟨hx.2, hy⟩⟩) hs.heap
  | filter x f => exact hs.goOn (.inr ⟨hx, hy⟩) hs.heap
  | skip x n => exact hs.goOn (.inr ⟨hx, hy⟩) { hs.heap with }
  | distinct x => exact hs.goOn (.inr ⟨hx, hy⟩) { hs.heap with }
  | switch x select => exact hs.under trivial (.inr ⟨hx, hy⟩) hs.heap.newSwitch
  | relocate x i => exact hs.under trivial (.inr ⟨hx, hy⟩) { hs.heap with }
  | merge xs =>
    refine hs.goOn ⟨nofun, ?_⟩ hs.heap
    exact List.forall_mem_map.2 fun x hm => .inr ⟨Stream.allWithin_iff.1 hx x hm, hy⟩
  | combineLatest xs =>
    refine hs.goOn ⟨nofun, fun e he => ?_⟩ { hs.heap with }
    obtain ⟨k, hk, rfl⟩ := List.mem_mapIdx.1 he
    exact .inr ⟨Stream.allWithin_iff.1 hx _ (List.getElem_mem hk), hy⟩

theorem subscribeAll {ts : List (Teardown C)} {l : List (Stream F × Observer F C)}
    (ht : ∀ t ∈ ts, t.Within V.subject) (hl : ∀ e ∈ l, V.Pair e.1 e.2) :
    (stepSubscribeAll s ts l).Within V := by
  cases l with
  | nil => exact hs.goOn (Teardown.allWithin_iff.2 ht) hs.heap
  | cons e rest =>
    obtain ⟨he, hrest⟩ := List.forall_mem_cons.1 hl
    exact hs.under ⟨ht, hrest⟩ he hs.heap

/-- A value goes on to the next observer, in another heap. -/
theorem pass {y : Observer F C} (hy : y.Within V) (v : Value) {h : Heap F C} (hh : h.Within V) :
    (s.goOn (.run (.deliver y v)) h).Within V :=
  hs.goOn (c := .run (.deliver y v)) hy hh

theorem map (hK : K.Confined V) {f : Mapping F} {y : Observer F C} (hf : f.Within V.subject) (hy : y.Within V)
    (v : Value) : (stepMap K s y v f).Within V := by
  cases f with
  | apply f => exact ⟨hy, hs.frames, hK.apply f v _ hs.heap⟩
  | wrap o p => exact hs.pass hy _ hs.heap
  | emptyIfNull =>
    cases v with
    | stream i => exact hs.pass hy _ hs.heap
    | _ => exact hs.pass hy _ (hs.heap.newStream (x := .empty) trivial)
  | publish i side => exact hs.under hy hf hs.heap

/-- What is delivered to a writer is written, wherever that is. -/
theorem arrive (root : ObjectId) (path : Path) (v : Value) : (stepDeliver K s v (.write root path)).Within V := by
  simp only [stepDeliver]
  split
  · exact hs.under trivial trivial hs.heap
  · exact hs.goOn trivial hs.heap

theorem deliver (hK : K.Confined V) {y : Observer F C} (hy : y.Within V) (v : Value)
    (ht : ¬ (Command.deliver y v).AtTag V) : (stepDeliver K s v y).Within V := by
  cases y with
  | client code => exact hs.goOn trivial hs.heap
  | write root path => exact hs.arrive root path v
  | map f next =>
    obtain ⟨hf, hnext⟩ := hy.resolve_left ht
    exact hs.map hK hf hnext v
  | filter f next =>
    refine ⟨?_, hs.frames, hK.apply f v _ hs.heap⟩
    simp only [stepDeliver]
    split
    · exact hy
    · trivial
  | skip i next =>
    simp only [stepDeliver]
    split
    · exact hs.pass (y := next) hy v hs.heap
    · exact hs.goOn trivial { hs.heap with }
  | distinct i next =>
    simp only [stepDeliver]
    split
    · exact hs.goOn trivial hs.heap
    · exact hs.pass (y := next) hy v { hs.heap with }
  | outer i select next =>
    exact hs.under ⟨hs.heap.inner select v, hy⟩ (hs.heap.currentD i) (hs.heap.setSwitch i nofun)
  | inner i g next =>
    simp only [stepDeliver]
    split
    · exact hs.pass (y := next) hy v hs.heap
    · exact hs.goOn trivial hs.heap
  | relocate g i next => exact hs.goOn hy hs.heap
  | slot i k next =>
    simp only [stepDeliver]
    split
    · exact hs.pass (y := next) hy _ { hs.heap with }
    · exact hs.goOn trivial { hs.heap with }

theorem undo {t : Teardown C} (ht : t.Within V.subject) : (stepUndo s t).Within V := by
  cases t with
  | nothing => exact hs.goOn trivial hs.heap
  | handler o id => exact hs.goOn trivial (hs.heap.removeHandler o id)
  | observer i id => exact hs.goOn trivial (hs.heap.removeObserver i id)
  | relocate g t => exact hs.goOn ht { hs.heap with }
  | switch i t => exact hs.under trivial ht (hs.heap.setSwitch i (hs.heap.current i))
  | all ts => exact hs.goOn (Teardown.allWithin_iff.1 ht) hs.heap
  | composite c => exact hs.goOn trivial hs.heap
  | client code => exact hs.goOn trivial hs.heap

theorem undoAll (panic : Option String) {ts : List (Teardown C)} (ht : ∀ t ∈ ts, t.Within V.subject) :
    (stepUndoAll s panic ts).Within V := by
  cases ts with
  | nil => cases panic <;> exact hs.goOn trivial hs.heap
  | cons t rest =>
    obtain ⟨ht, hrest⟩ := List.forall_mem_cons.1 ht
    exact hs.under hrest ht hs.heap

theorem disposeComposite (c : Nat) : (stepDisposeComposite s c).Within V := by
  simp only [stepDisposeComposite]
  split
  · exact hs.goOn trivial hs.heap
  · exact hs.goOn (hs.heap.composite c) (hs.heap.setComposite c nofun)

theorem add (c n : Nat) : (stepAdd s c n).Within V := by
  have hclear := hs.heap.clearHandle n
  simp only [stepAdd]
  split
  · exact hs.goOn (hs.heap.teardown n) hclear
  · refine hs.goOn trivial (hclear.setComposite c ?_)
    exact List.forall_mem_append.2 ⟨hclear.composite c, List.forall_mem_singleton.2 (hs.heap.teardown n)⟩

theorem task {t : Task F C} (ht : t.Within V) : (stepTask s t).Within V := by
  cases t with
  | deliver g y v =>
    simp only [stepTask]
    split
    · exact hs.pass (y := y) ht v hs.heap
    · exact hs.goOn trivial hs.heap
  | client code => exact hs.goOn trivial hs.heap

theorem schedule (i : SchedulerId) {t : Task F C} (ht : t.Within V) : (stepSchedule s i t).Within V := by
  unfold stepSchedule
  split
  · next tasks htasks =>
    refine hs.goOn trivial (hs.heap.setTasks i ?_)
    exact List.forall_mem_append.2 ⟨hs.heap.tasks htasks, List.forall_mem_singleton.2 ht⟩
  · exact hs.task ht

theorem drain (i : SchedulerId) (ran : Nat) : (stepDrain s i ran).Within V := by
  unfold stepDrain
  split
  · next t tasks htasks =>
    obtain ⟨ht, hrest⟩ := List.forall_mem_cons.1 (hs.heap.tasks htasks)
    have hheap := hs.heap.setTasks i hrest
    exact task (hs.under (f := .draining i ran t) (c := .pass .done) ht trivial hheap).rests ht
  · exact hs.goOn trivial hs.heap

theorem command (hK : K.Confined V) {c : Command F C} (hc : c.Within V) (ht : ¬ c.AtTag V) :
    (stepCommand K s c).Within V := by
  cases c with
  | set o p v => exact hs.set o p v
  | write root path v => exact hs.write root path v
  | next i v => exact hs.publish hc v (hs.heap.observers i)
  | deliver y v => exact hs.deliver hK hc v ht
  | subscribe x y =>
    obtain ⟨x', f, rfl, -, hf⟩ | ⟨hx, hy⟩ := hc
    · exact absurd hf ht
    · exact hs.subscribe hx hy
  | subscribeAll ts rest => exact hs.subscribeAll hc.1 hc.2
  | undo t => exact hs.undo hc
  | undoAll ts panic => exact hs.undoAll panic hc
  | dispose n => exact hs.goOn (hs.heap.teardown n) (hs.heap.clearHandle n)
  | disposeComposite c => exact hs.disposeComposite c
  | add c n => exact hs.add c n
  | schedule i t => exact hs.schedule i hc
  | drain i ran => exact hs.drain i ran

theorem frame {signal : Signal C} (hsignal : signal.Within V.subject) {f : Frame F C} (hf : f.Within V) :
    (stepFrame s signal f).Within V := by
  cases f with
  | client code => exact hs.goOn hsignal hs.heap
  | subscribed y t => exact hs.goOn hf.2 hs.heap
  | notifying r rest o v => exact hs.notify o v hf.2
  | publishing y rest i v => exact hs.publish hf.1 v hf.2.2
  | announcing o p old new =>
    exact notify (hs.under (f := .changed o old new) (c := .pass .done) trivial trivial hs.heap).rests _ _
      (hs.heap.handlersFor _ _ _)
  | changed => exact hs.goOn trivial hs.heap
  | passing next v => exact hs.pass hf v hs.heap
  | writing => exact hs.goOn trivial hs.heap
  | gathering y ts rest =>
    refine hs.goOn ⟨?_, hf.2⟩ hs.heap
    exact List.forall_mem_append.2 ⟨hf.1, List.forall_mem_singleton.2 hsignal.teardown⟩
  | relocating g => exact hs.goOn hsignal.teardown hs.heap
  | opening i => exact hs.goOn hsignal.teardown hs.heap
  | switching i g inner next =>
    simp only [stepFrame]
    split
    · exact hs.goOn trivial hs.heap
    · exact hs.under (f := .entering i g inner) hf.1 (.inr hf) hs.heap
  | entering i g inner =>
    simp only [stepFrame]
    split
    · exact hs.goOn trivial (hs.heap.setSwitch i fun t ht => Option.some.inj ht ▸ hsignal.teardown)
    · exact hs.goOn hsignal.teardown hs.heap
  | closing i => exact hs.goOn (hs.heap.currentD i) (hs.heap.setSwitch i nofun)
  | undoing ts panic => exact hs.goOn hf hs.heap
  | draining i ran t => exact hs.goOn trivial hs.heap
  | unwinding message => exact hs.goOn trivial hs.heap

theorem unwind (message : String) {f : Frame F C} (hf : f.Within V) : (unwindFrame s message f).Within V := by
  cases f with
  | subscribed y t => exact hs.under trivial hf.2 hs.heap
  | gathering y ts rest => exact hs.under trivial hf.1 hs.heap
  | undoing ts panic => exact hs.goOn hf hs.heap
  | _ => exact hs.goOn trivial hs.heap

theorem move {m : Move F C} (hm : m.Within V) : (stepMove s m).Within V := by
  cases m with
  | perform c code => exact hs.under trivial hm hs.heap
  | _ => exact hs.goOn trivial hs.heap

end State.Rests

/-- A step stays within the vocabulary. -/
theorem State.Within.step {K : Client F C S} (hK : K.Confined V) {s : State F C S} (hs : s.Within V)
    (ht : ∀ c, s.control = .run c → ¬ c.AtTag V) : (s.step K).Within V := by
  obtain ⟨c, fs, w⟩ := s
  obtain ⟨hc, hr⟩ := hs
  cases c with
  | run command => exact hr.command hK hc (ht command rfl)
  | resume code signal =>
    obtain ⟨hheap, hmove⟩ := hK.resume code signal w hr.heap hc
    exact State.Rests.move (s := ⟨.resume code signal, fs, (K.resume code signal w).1⟩) ⟨hr.frames, hheap⟩ hmove
  | pass signal =>
    cases fs with
    | nil => exact ⟨hc, hr⟩
    | cons f rest =>
      obtain ⟨hf, hrest⟩ := List.forall_mem_cons.1 hr.frames
      exact State.Rests.frame (s := ⟨.pass signal, rest, w⟩) ⟨hrest, hr.heap⟩ hc hf
  | panic message =>
    cases fs with
    | nil => exact ⟨hc, hr⟩
    | cons f rest =>
      obtain ⟨hf, hrest⟩ := List.forall_mem_cons.1 hr.frames
      exact State.Rests.unwind (s := ⟨.panic message, rest, w⟩) ⟨hrest, hr.heap⟩ message hf

end DataBinding
