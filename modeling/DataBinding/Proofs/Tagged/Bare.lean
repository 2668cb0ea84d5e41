import Mathlib.Logic.Basic
import DataBinding.Proofs.Heap.Tables
import DataBinding.Proofs.Machine.Alive
import DataBinding.Proofs.Tagged.Names
/-!
# States without tags

A tagged binding publishes each value right before it is written. Without these publications, and without
the subject they go to, its states are those of a binding that is not tagged: `bare` leaves both out.

What is left is the same in all other respects: operations on the heap can as well be made without the
tags (`Heap.put_bare` and the like), and the same things are alive (`State.alive_bare`).
-/

namespace DataBinding

variable {F C S : Type}

/-- Where a binding publishes its changes, and where the values of each side are written. -/
structure Tagging where
  subject : SubjectId
  ends : Side → ObjectId × Path

/-- The mapping publishes a value that is then written where the values of this side belong. -/
def Tagging.marks (g : Tagging) : Mapping F → Observer F C → Bool
  | .publish i side, .write root path => i == g.subject && (root, path) == g.ends side
  | _, _ => false

/-- With the tags left where they are, nothing else writes where the binding writes. -/
def Tagging.reserved (g : Tagging) : Vocabulary F C where
  subject _ := True
  write root path := ∀ side, (root, path) ≠ g.ends side
  tag f y := g.marks f y = true

/-! ## Leaving the tags out -/

def Observer.bare (g : Tagging) : Observer F C → Observer F C
  | .client code => .client code
  | .write root path => .write root path
  | .map f next => if g.marks f next then next else .map f (next.bare g)
  | .filter f next => .filter f (next.bare g)
  | .skip i next => .skip i (next.bare g)
  | .distinct i next => .distinct i (next.bare g)
  | .outer i select next => .outer i select (next.bare g)
  | .inner i generation next => .inner i generation (next.bare g)
  | .relocate gate scheduler next => .relocate gate scheduler (next.bare g)
  | .slot i k next => .slot i k (next.bare g)

/-- Of a stream and the observer that subscribes to it. -/
def Tagging.bare (g : Tagging) (e : Stream F × Observer F C) : Stream F × Observer F C :=
  match e.1 with
  | .map x f => if g.marks f e.2 then (x, e.2) else (e.1, e.2.bare g)
  | x => (x, e.2.bare g)

def Handler.bare (g : Tagging) (r : Handler F C) : Handler F C := { r with observer := r.observer.bare g }

def Object.bare (g : Tagging) (x : Object F C) : Object F C := { x with handlers := x.handlers.map (·.bare g) }

def Subject.bare (g : Tagging) (x : Subject F C) : Subject F C :=
  { x with observers := x.observers.map fun e => (e.1, e.2.bare g) }

def Task.bare (g : Tagging) : Task F C → Task F C
  | .deliver gate y v => .deliver gate (y.bare g) v
  | .client code => .client code

def Scheduler.bare (g : Tagging) : Scheduler F C → Scheduler F C
  | .immediate => .immediate
  | .queue tasks => .queue (tasks.map (·.bare g))

def Heap.bare (g : Tagging) (h : Heap F C) : Heap F C :=
  { h with
    objects := h.objects.map (·.bare g)
    subjects := (h.subjects.extract 0 g.subject).map (·.bare g)
    schedulers := h.schedulers.map (·.bare g) }

def Command.bare (g : Tagging) : Command F C → Command F C
  | .deliver y v => .deliver (y.bare g) v
  | .subscribe x y => .subscribe (g.bare (x, y)).1 (g.bare (x, y)).2
  | .subscribeAll members rest => .subscribeAll members (rest.map g.bare)
  | .schedule scheduler t => .schedule scheduler (t.bare g)
  | c => c

def Frame.bare (g : Tagging) : Frame F C → Frame F C
  | .subscribed y t => .subscribed (y.bare g) t
  | .notifying r rest o v => .notifying (r.bare g) (rest.map (·.bare g)) o v
  | .publishing y rest i v => .publishing (y.bare g) (rest.map (·.bare g)) i v
  | .passing next v => .passing (next.bare g) v
  | .gathering y members rest => .gathering (y.bare g) members (rest.map g.bare)
  | .switching i generation inner next => .switching i generation inner (next.bare g)
  | .draining scheduler ran t => .draining scheduler ran (t.bare g)
  | f => f

def Control.bare (g : Tagging) : Control F C → Control F C
  | .run c => .run (c.bare g)
  | c => c

def Move.bare (g : Tagging) : Move F C → Move F C
  | .perform c code => .perform (c.bare g) code
  | m => m

/-- The client has this state instead. -/
def State.bare (g : Tagging) (k : S) (s : State F C S) : State F C S :=
  ⟨s.control.bare g, s.frames.map (·.bare g), s.world.heap.bare g, k⟩

variable {g : Tagging}

theorem Tagging.eq_of_marks {f : Mapping F} {y : Observer F C} (hm : g.marks f y = true) :
    ∃ side, f = .publish g.subject side ∧ y = .write (g.ends side).1 (g.ends side).2 := by
  unfold marks at hm
  split at hm
  · next i side root path =>
    simp only [Bool.and_eq_true, beq_iff_eq] at hm
    obtain ⟨rfl, he⟩ := hm
    exact ⟨side, rfl, by rw [← he]⟩
  · cases hm

theorem Tagging.marks_publish (side : Side) : g.marks (.publish g.subject side : Mapping F)
    (.write (g.ends side).1 (g.ends side).2 : Observer F C) = true := by
  simp [marks]

theorem Tagging.bare_publish (x : Stream F) (side : Side) :
    g.bare (.map x (.publish g.subject side), (.write (g.ends side).1 (g.ends side).2 : Observer F C)) =
      (x, .write (g.ends side).1 (g.ends side).2) := by
  simp [bare, marks_publish]

/-- A stream that is subscribed to in order to pass its values on is left as it is. -/
theorem Tagging.bare_map (x : Stream F) (f : Mapping F) (y : Observer F C) :
    g.bare (x, .map f y) = (x, (Observer.map f y).bare g) := by
  cases x with
  | map x f' =>
    have hm : g.marks f' (.map f y) = false := by cases f' <;> rfl
    simp [bare, hm]
  | _ => rfl

theorem Tagging.snd_bare (e : Stream F × Observer F C) : (g.bare e).2 = e.2.bare g := by
  obtain ⟨x, y⟩ := e
  unfold bare
  split
  · split
    · next hm =>
      obtain ⟨side, -, rfl⟩ := eq_of_marks hm
      rfl
    · rfl
  · rfl

/-! ## What has no tags -/

theorem Tagging.marks_eq_false {f : Mapping F} (hf : f.Within (· < g.subject)) (y : Observer F C) :
    g.marks f y = false := by
  unfold marks
  split
  · next i side root path =>
    have hne : i ≠ g.subject := Nat.ne_of_lt hf
    simp [hne]
  · rfl

theorem Tagging.bare_of_below {x : Stream F} (hx : x.Within (· < g.subject)) (y : Observer F C) :
    g.bare (x, y) = (x, y.bare g) := by
  unfold bare
  split
  · next x' f he =>
    simp only at he
    subst he
    simp [marks_eq_false hx.2]
  · rfl

theorem Observer.bare_of_below {y : Observer F C} (hy : y.Within (.below g.subject)) : y.bare g = y := by
  induction y with
  | client | write => rfl
  | map f next ih =>
    obtain ⟨hf, hnext⟩ := hy.resolve_left id
    rw [bare, Tagging.marks_eq_false hf, ih hnext]
    simp
  | filter f next ih | skip f next ih | distinct f next ih | outer i f next ih | inner i f next ih
  | relocate i f next ih | slot i f next ih => rw [bare, ih hy]

theorem Task.bare_of_below {t : Task F C} (ht : t.Within (.below g.subject)) : t.bare g = t := by
  cases t with
  | deliver gate y v => rw [bare, Observer.bare_of_below ht]
  | client => rfl

theorem Scheduler.bare_of_below {x : Scheduler F C} (hx : x.Within (.below g.subject)) : x.bare g = x := by
  cases x with
  | immediate => rfl
  | queue tasks => rw [bare, List.map_congr_left fun t ht => Task.bare_of_below (hx t ht), List.map_id']

/-- A heap that names only subjects below that of the changes, with this one added. -/
theorem Heap.bare_newSubject {h : Heap F C} (hh : h.Within (.below g.subject)) (hs : h.subjects.size = g.subject) :
    h.newSubject.2.bare g = h := by
  have hobjects : h.objects.map (·.bare g) = h.objects := by
    refine (Array.map_congr_left fun x hx => ?_).trans (Array.map_id' _)
    rw [Object.bare, List.map_congr_left (g := fun r => r) fun r hr => ?_, List.map_id']
    rw [Handler.bare, Observer.bare_of_below (hh.objects x hx r hr)]
  have hsubjects : h.subjects.map (·.bare g) = h.subjects := by
    refine (Array.map_congr_left fun x hx => ?_).trans (Array.map_id' _)
    rw [Subject.bare, List.map_congr_left (g := fun e => e) fun e he => ?_, List.map_id']
    rw [Observer.bare_of_below (hh.subjects x hx e he)]
  have hschedulers : h.schedulers.map (·.bare g) = h.schedulers :=
    (Array.map_congr_left fun x hx => Scheduler.bare_of_below (hh.schedulers x hx)).trans (Array.map_id' _)
  have hextract : (h.subjects.push ⟨[], 0⟩).extract 0 g.subject = h.subjects := by
    rw [← hs]
    simp
  simp only [bare, newSubject, hextract, hobjects, hsubjects, hschedulers]

/-! ## Operations on the heap -/

section Tables
variable {α β : Type} {xs : Array α} {i : Nat}

theorem map_modify {f : α → α} {b : α → β} {f' : β → β} (hf : ∀ x, b (f x) = f' (b x)) :
    (xs.modify i f).map b = (xs.map b).modify i f' := by
  refine Array.ext_getElem? fun k => ?_
  simp only [Array.getElem?_map, Array.getElem?_modify]
  split
  · simp [Option.map_map, Function.comp_def, hf]
  · rfl

theorem extract_modify {f : α → α} (n : Nat) : (xs.modify i f).extract 0 n = (xs.extract 0 n).modify i f := by
  refine Array.ext_getElem? fun k => ?_
  simp only [Array.getElem?_extract, Array.getElem?_modify, Array.size_modify, Nat.zero_add]
  split <;> split <;> simp

end Tables

namespace Heap

variable (h : Heap F C)

theorem getElem?_bare (o : ObjectId) : (h.bare g).objects[o]? = h.objects[o]?.map (·.bare g) := by
  simp [bare]

@[simp] theorem get_bare (o : ObjectId) (p : String) : (h.bare g).get o p = h.get o p := by
  simp only [get, getElem?_bare, Option.map_map]
  rfl

@[simp] theorem read_bare (o : ObjectId) (p : String) : (h.bare g).read o p = h.read o p := by
  simp only [read, get_bare]

@[simp] theorem readPath_bare (root : ObjectId) (path : Path) :
    (h.bare g).readPath root path = h.readPath root path :=
  readFrom_congr (get_bare h) _ _

theorem follow_bare (o : ObjectId) (l : List Segment) : (h.bare g).follow o l = h.follow o l := by
  induction l generalizing o with
  | nil => rfl
  | cons s rest ih => simp only [follow, get_bare, ih]

@[simp] theorem target?_bare (root : ObjectId) (path : Path) :
    (h.bare g).target? root path = h.target? root path := by
  simp only [target?, follow_bare]

theorem handlersFor_bare (o : ObjectId) (t : Timing) (p : String) :
    (h.bare g).handlersFor o t p = (h.handlersFor o t p).map (·.bare g) := by
  simp only [handlersFor, getElem?_bare]
  cases h.objects[o]? with
  | none => rfl
  | some x =>
    have hfor : (x.bare g).handlersFor t p = (x.handlersFor t p).map (·.bare g) := by
      change (if x.capability.supports t then (x.handlers.map (·.bare g)).filter _ else []) = _
      unfold Object.handlersFor
      split
      · exact List.filter_map
      · rfl
    simpa using hfor

theorem subject_bare {i : SubjectId} (hi : i < g.subject) :
    (h.bare g).subjects[i]? = h.subjects[i]?.map (·.bare g) := by
  simp only [bare, Array.getElem?_map, Array.getElem?_extract]
  congr 1
  split
  · simp
  · next hlt =>
    have hsize : h.subjects.size ≤ i := Nat.le_of_not_lt fun hs => hlt (Nat.lt_min.2 ⟨hi, hs⟩)
    simp [hsize]

theorem observers_bare {i : SubjectId} (hi : i < g.subject) :
    (h.bare g).observers i = (h.observers i).map (·.bare g) := by
  simp only [observers, subject_bare h hi]
  cases h.subjects[i]? with
  | none => rfl
  | some x => simp [Subject.bare]

theorem tasks?_bare (s : SchedulerId) : (h.bare g).tasks? s = (h.tasks? s).map (List.map (·.bare g)) := by
  simp only [tasks?, bare, Array.getElem?_map]
  rcases h.schedulers[s]? with - | - | tasks <;> rfl

theorem put_bare (o : ObjectId) (p : String) (v : Value) : (h.put o p v).bare g = (h.bare g).put o p v := by
  simp only [put, bare]
  congr 1
  exact map_modify fun x => rfl

theorem addHandler_bare (o : ObjectId) (t : Timing) (p : String) (r : Bool) (y : Observer F C) :
    (h.bare g).addHandler o t p r (y.bare g) =
      ((h.addHandler o t p r y).1, (h.addHandler o t p r y).2.bare g) := by
  have hid : (h.bare g).objects[o]?.map Object.nextHandler = h.objects[o]?.map Object.nextHandler := by
    rw [getElem?_bare, Option.map_map]
    rfl
  simp only [addHandler, hid]
  simp only [bare]
  congr 2
  refine (map_modify fun x => ?_).symm
  simp [Object.bare, Handler.bare]

theorem removeHandler_bare (o : ObjectId) (id : Nat) :
    (h.removeHandler o id).bare g = (h.bare g).removeHandler o id := by
  simp only [removeHandler, bare]
  congr 1
  refine map_modify fun x => ?_
  simp only [Object.bare, List.filter_map]
  rfl

theorem addObserver_bare {i : SubjectId} (hi : i < g.subject) (y : Observer F C) :
    (h.bare g).addObserver i (y.bare g) = ((h.addObserver i y).1, (h.addObserver i y).2.bare g) := by
  have hid : (h.bare g).subjects[i]?.map Subject.nextObserver = h.subjects[i]?.map Subject.nextObserver := by
    rw [subject_bare h hi, Option.map_map]
    rfl
  simp only [addObserver, hid]
  simp only [bare, extract_modify]
  congr 2
  refine (map_modify fun x => ?_).symm
  simp [Subject.bare]

theorem removeObserver_bare (i : SubjectId) (id : Nat) :
    (h.removeObserver i id).bare g = (h.bare g).removeObserver i id := by
  simp only [removeObserver, bare, extract_modify]
  congr 1
  refine map_modify fun x => ?_
  simp only [Subject.bare, List.filter_map]
  rfl

theorem setTasks_bare (s : SchedulerId) (tasks : List (Task F C)) :
    (h.setTasks s tasks).bare g = (h.bare g).setTasks s (tasks.map (·.bare g)) := by
  simp only [setTasks, bare]
  congr 1
  exact Array.map_setIfInBounds

end Heap

/-! ## What is held -/

theorem Node.object_ne (o : ObjectId) (i : SubjectId) : Node.object o ≠ .subject i := by
  simp

/-- The subject of the changes is the last one, and it is observed by these codes. -/
structure Heap.Publishes (g : Tagging) (codes : List C) (h : Heap F C) : Prop where
  last : h.subjects.size = g.subject + 1
  observers : h.observers g.subject = codes.map .client

section Refs

variable (K : Client F C S) {n : Node} (hn : n ≠ .subject g.subject) (h : Heap F C)
include hn

theorem Observer.mem_refs_bare (y : Observer F C) : n ∈ (y.bare g).refs K (h.bare g) ↔ n ∈ y.refs K h := by
  induction y with
  | client | write => rfl
  | map f next ih =>
    rw [bare]
    split
    · next hm =>
      obtain ⟨side, rfl, rfl⟩ := Tagging.eq_of_marks hm
      simpa [refs, Mapping.refs] using hn
    · simp only [refs, List.mem_append, ih]
  | filter f next ih => simp only [bare, refs, List.mem_append, ih]
  | distinct m next ih => exact List.mem_append.trans ((or_congr Iff.rfl ih).trans List.mem_append.symm)
  | slot k i next ih => exact List.mem_append.trans ((or_congr Iff.rfl ih).trans List.mem_append.symm)
  | skip i next ih | outer i f next ih | inner i f next ih | relocate i f next ih => exact ih

theorem Tagging.mem_refs_bare (e : Stream F × Observer F C) :
    n ∈ (g.bare e).1.refs K.functionRefs ++ (g.bare e).2.refs K (h.bare g) ↔
      n ∈ e.1.refs K.functionRefs ++ e.2.refs K h := by
  obtain ⟨x, y⟩ := e
  simp only [List.mem_append]
  unfold bare
  split
  · next x' f he =>
    obtain rfl : x = .map x' f := he
    split
    · next hm =>
      obtain ⟨side, rfl, rfl⟩ := Tagging.eq_of_marks hm
      simp [Stream.refs, Mapping.refs, Observer.refs, hn]
    · rw [Observer.mem_refs_bare K hn]
  · rw [Observer.mem_refs_bare K hn]

theorem Task.mem_refs_bare (t : Task F C) : n ∈ (t.bare g).refs K (h.bare g) ↔ n ∈ t.refs K h := by
  cases t with
  | deliver gate y v => simp only [bare, refs, List.mem_append, Observer.mem_refs_bare K hn]
  | client => rfl

theorem Task.mem_refsInRun_bare (t : Task F C) :
    n ∈ (t.bare g).refsInRun K (h.bare g) ↔ n ∈ t.refsInRun K h := by
  cases t with
  | deliver gate y v => exact Observer.mem_refs_bare K hn h y
  | client => rfl

theorem Command.mem_refs_bare (c : Command F C) : n ∈ (c.bare g).refs K (h.bare g) ↔ n ∈ c.refs K h := by
  cases c with
  | deliver y v => simp only [bare, refs, List.mem_append, Observer.mem_refs_bare K hn]
  | subscribe x y => exact Tagging.mem_refs_bare K hn h (x, y)
  | subscribeAll members rest =>
    simp only [bare, refs, List.mem_flatMap, List.mem_map, exists_exists_and_eq_and]
    exact exists_congr fun e => and_congr_right fun _ => Tagging.mem_refs_bare K hn h e
  | schedule i t => exact Task.mem_refs_bare K hn h t
  | _ => rfl

theorem Frame.mem_refs_bare (f : Frame F C) : n ∈ (f.bare g).refs K (h.bare g) ↔ n ∈ f.refs K h := by
  have hy := Observer.mem_refs_bare K hn h
  cases f with
  | subscribed y t => simp only [bare, refs, List.mem_append, hy]
  | notifying r rest o v =>
    simp only [bare, refs, List.mem_append, List.mem_cons, List.mem_flatMap, exists_eq_or_imp, List.mem_map,
      exists_exists_and_eq_and, Handler.bare, hy]
  | publishing y rest i v =>
    simp only [bare, refs, List.mem_append, List.mem_cons, List.mem_flatMap, exists_eq_or_imp, List.mem_map,
      exists_exists_and_eq_and, hy]
  | passing next v => simp only [bare, refs, List.mem_append, hy]
  | gathering y members rest =>
    simp only [bare, refs, List.mem_append, hy, List.mem_flatMap, List.mem_map, exists_exists_and_eq_and]
    refine or_congr Iff.rfl (exists_congr fun e => and_congr_right fun _ => ?_)
    simpa only [List.mem_append] using Tagging.mem_refs_bare K hn h e
  | switching i k inner next => simp only [bare, refs, List.mem_append, hy]
  | draining i ran t => exact Task.mem_refsInRun_bare K hn h t
  | _ => rfl

theorem Control.mem_refs_bare (c : Control F C) : n ∈ (c.bare g).refs K (h.bare g) ↔ n ∈ c.refs K h := by
  cases c with
  | run c => exact Command.mem_refs_bare K hn h c
  | _ => rfl

/-- Whoever observes the changes counts for something else only. -/
theorem Node.mem_refs_bare (m : Node) (hm : m ≠ .subject g.subject) (hs : h.subjects.size = g.subject + 1) :
    n ∈ m.refs K (h.bare g) ↔ n ∈ m.refs K h := by
  have hy := Observer.mem_refs_bare K hn h
  cases m with
  | object o =>
    simp only [refs, Heap.getElem?_bare]
    cases h.objects[o]? with
    | none => rfl
    | some x =>
      simp only [Option.map_some, Object.bare, List.mem_append, List.mem_flatMap, List.mem_map,
        exists_exists_and_eq_and, Handler.bare, hy]
  | subject i =>
    rcases Nat.lt_or_ge i g.subject with hi | hi
    · simp only [refs, Heap.observers_bare h hi, List.mem_flatMap, List.mem_map, exists_exists_and_eq_and, hy]
    · have hsize : h.subjects.size ≤ i :=
        hs ▸ Nat.lt_of_le_of_ne hi fun he => hm (he ▸ rfl)
      have hbare : (h.bare g).subjects.size ≤ i := by
        simp only [Heap.bare, Array.size_map, Array.size_extract]
        omega
      simp [refs, Heap.observers, hsize, hbare]
  | stream i => rfl

end Refs

/-! ## What is alive -/

namespace State

variable (K : Client F C S) {n : Node} (hn : n ≠ .subject g.subject) {s : State F C S} {k : S} {codes : List C}
  (hk : ∀ n, n ∈ K.refs k ↔ n ∈ K.refs s.world.client)
include hn hk

theorem mem_roots_bare : n ∈ (s.bare g k).roots K ↔ n ∈ s.roots K := by
  simp only [roots, bare, List.mem_append, hk, Control.mem_refs_bare K hn, List.mem_flatMap, List.mem_map,
    exists_exists_and_eq_and, Frame.mem_refs_bare K hn]
  refine or_congr Iff.rfl ?_
  simp only [Heap.bare, Array.toList_map, List.mem_map, exists_exists_and_eq_and]
  refine exists_congr fun x => and_congr_right fun _ => ?_
  cases x with
  | immediate => rfl
  | queue tasks =>
    simp only [Scheduler.bare, List.mem_flatMap, List.mem_map, exists_exists_and_eq_and]
    exact exists_congr fun t => and_congr_right fun _ => Task.mem_refs_bare K hn _ t

omit hk in
theorem mem_nodes_bare (hs : s.world.heap.subjects.size = g.subject + 1) :
    n ∈ (s.bare g k).nodes ↔ n ∈ s.nodes := by
  cases n with
  | object o => simp [nodes, bare, Heap.bare]
  | stream i => simp [nodes, bare, Heap.bare]
  | subject i =>
    have hsize : (s.bare g k).world.heap.subjects.size = g.subject := by simp [bare, Heap.bare, hs]
    have hmem : ∀ s : State F C S, .subject i ∈ s.nodes ↔ i < s.world.heap.subjects.size := fun s => by
      simp [nodes]
    rw [hmem, hmem, hsize, hs]
    exact ⟨Nat.lt_succ_of_lt, fun hi => Nat.lt_of_le_of_ne (Nat.le_of_lt_succ hi) fun he => hn (he ▸ rfl)⟩

omit hn hk in
theorem ne_of_mem_nodes_bare {m : Node} (hm : m ∈ (s.bare g k).nodes) : m ≠ .subject g.subject := by
  rintro rfl
  have hlt : g.subject < min g.subject s.world.heap.subjects.size := by
    simpa only [nodes, bare, Heap.bare, Array.map_extract, Array.size_map, Array.size_extract, Nat.sub_zero,
      List.append_assoc, List.mem_append, List.mem_map, List.mem_range, reduceCtorEq, and_false, exists_const,
      Node.subject.injEq, exists_eq_right, or_false, false_or] using hm
  exact absurd hlt (Nat.not_lt.2 (Nat.min_le_left _ _))

/-- The same is alive without the tags, if the observers of the changes hold nothing but what the client
holds. -/
theorem alive_bare (hs : s.world.heap.Publishes g codes) (hc : ∀ c ∈ codes, K.codeRefs c ⊆ K.refs k) :
    (s.bare g k).alive K n = s.alive K n := by
  rw [Bool.eq_iff_iff, alive_iff, alive_iff, mem_roots_bare K hn hk]
  refine or_congr_right ⟨?_, ?_⟩
  · rintro ⟨P, hP, hheld⟩
    refine ⟨P, hP, fun m hm => ?_⟩
    obtain ⟨hnode, hby⟩ := hheld m hm
    have hne := ne_of_mem_nodes_bare hnode
    refine ⟨(mem_nodes_bare hne hs.last).1 hnode, hby.imp (mem_roots_bare K hne hk).1 ?_⟩
    rintro ⟨m', hm', href⟩
    have hne' := ne_of_mem_nodes_bare (hheld m' hm').1
    exact ⟨m', hm', (Node.mem_refs_bare K hne _ m' hne' hs.last).1 href⟩
  · rintro ⟨P, hP, hheld⟩
    refine ⟨fun m => P m ∧ m ≠ .subject g.subject, ⟨hP, hn⟩, ?_⟩
    rintro m ⟨hm, hne⟩
    obtain ⟨hnode, hby⟩ := hheld m hm
    refine ⟨(mem_nodes_bare hne hs.last).2 hnode, ?_⟩
    rcases hby with hroot | ⟨m', hm', href⟩
    · exact .inl ((mem_roots_bare K hne hk).2 hroot)
    · by_cases he : m' = .subject g.subject
      -- an observer of the changes holds it
      · subst he
        simp only [Node.refs, hs.observers, List.mem_flatMap, List.mem_map] at href
        obtain ⟨_, ⟨c, hcode, rfl⟩, href⟩ := href
        have hclient : m ∈ K.refs k := hc c hcode href
        refine .inl ?_
        simp only [roots, List.mem_append]
        exact .inl (.inl (.inl hclient))
      · exact .inr ⟨m', ⟨hm', he⟩, (Node.mem_refs_bare K hne _ m' he hs.last).2 href⟩

end State

end DataBinding
