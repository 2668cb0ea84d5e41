import DataBinding.Proofs.Course.Spots
import DataBinding.Proofs.Disposal.Arrivals
/-!
# The way to an observer

A subscription gives observers upstream, and these lead on to others inside (`Passage`). All other observers lead
to what is inside by way of the given ones only, and leave the spot of the passage alone (`Observer.Clear`). A
state in which this is so goes on to one in which it is so, and what is inside is delivered to by what leads there
(`State.Clear.step`).
-/

namespace DataBinding

variable {F C S : Type}

structure Passage (F C : Type) where
  /-- Code that everybody may lead to. -/
  leaf : C → Prop
  /-- The observers that are given upstream. -/
  given : Observer F C → Prop
  /-- What the given observers lead on to. -/
  inside : Observer F C → Prop
  /-- The spot that only the given observers use. -/
  own : Option Spot
  /-- What may still be subscribed to for what is inside: a given observer comes first. -/
  enters : Stream F → Observer F C → Prop

namespace Observer

/-- The spot that an operator uses. -/
def spot? : Observer F C → Option Spot
  | .skip i _ => some (.counter i)
  | .distinct i _ => some (.memory i)
  | .slot i _ _ => some (.join i)
  | .relocate i _ _ => some (.gate i)
  | _ => none

/-- What an operator leads on to. -/
def next? : Observer F C → Option (Observer F C)
  | .client _ | .write .. => none
  | .map _ next | .filter _ next | .skip _ next | .distinct _ next | .outer _ _ next | .inner _ _ next
  | .relocate _ _ next | .slot _ _ next => some next

/-- Values are passed on at once or not at all, and nothing else is done with them. -/
def Prompt : Observer F C → Prop
  | .map (.publish ..) _ | .outer .. | .relocate .. => False
  | _ => True

end Observer

/-! ## What is clear of a passage -/

section Definitions

variable (q : Passage F C) (there : Spot → Prop)

/-- The spot is there, and is not the passage's own. -/
def Passage.Spares (p : Spot) : Prop := there p ∧ q.own ≠ some p

/-- The observer is given, or leads to what is inside by way of given ones only. -/
def Observer.Clear : Observer F C → Prop
  | .client c => q.given (.client c) ∨ q.leaf c
  | .write .. => True
  | .map f next => q.given (.map f next) ∨ next.Clear
  | .filter f next => q.given (.filter f next) ∨ next.Clear
  | .skip i next => q.given (.skip i next) ∨ q.Spares there (.counter i) ∧ next.Clear
  | .distinct i next => q.given (.distinct i next) ∨ q.Spares there (.memory i) ∧ next.Clear
  | .outer i select next => q.given (.outer i select next) ∨ next.Clear
  | .inner i g next => q.given (.inner i g next) ∨ next.Clear
  | .relocate i s next => q.given (.relocate i s next) ∨ q.Spares there (.gate i) ∧ next.Clear
  | .slot i k next => q.given (.slot i k next) ∨ q.Spares there (.join i) ∧ next.Clear

/-- The stream may be subscribed to for the observer. -/
def Passage.Admits (x : Stream F) (y : Observer F C) : Prop := y.Clear q there ∨ q.enters x y

/-- A task of a scheduler delivers what a clear observer has handed to the scheduler. -/
def Task.Clear (i : SchedulerId) : Task F C → Prop
  | .deliver gate y _ => (Observer.relocate gate i y).Clear q there
  | .client _ => True

/-- All observers and tasks that the heap keeps are clear. -/
structure Heap.Clear (h : Heap F C) : Prop where
  entries : ∀ n, ∀ e ∈ h.roster n, e.2.Clear q there
  tasks : ∀ i l, h.tasks? i = some l → ∀ t ∈ l, t.Clear q there i

/-- Values are delivered to clear observers and to `P`, and all else that the command does is clear. -/
def Command.Clear (P : Observer F C → Prop) : Command F C → Prop
  | .deliver y _ => y.Clear q there ∨ P y
  | .subscribe x y => q.Admits there x y
  | .subscribeAll _ rest => ∀ p ∈ rest, q.Admits there p.1 p.2
  | .schedule i t => t.Clear q there i
  | _ => True

def Frame.Clear : Frame F C → Prop
  | .notifying _ rest _ _ => ∀ r ∈ rest, r.observer.Clear q there
  | .publishing _ rest _ _ => ∀ y ∈ rest, y.Clear q there
  | .passing next _ => next.Clear q there
  | .gathering _ _ rest => ∀ p ∈ rest, q.Admits there p.1 p.2
  | .switching _ _ _ next => next.Clear q there
  | _ => True

def Control.Clear (P : Observer F C → Prop) : Control F C → Prop
  | .run c => c.Clear q there P
  | _ => True

/-- What is under way is clear. -/
structure State.Going (P : Observer F C → Prop) (s : State F C S) : Prop where
  control : s.control.Clear q there P
  frames : ∀ f ∈ s.frames, f.Clear q there

/-- What the next step takes from the heap is clear: the handlers that it tells of a change, the observers that it
publishes to, and the tasks that it runs. -/
structure State.Recalls (s : State F C S) : Prop where
  set : ∀ o p v, s.control = .run (.set o p v) → (s.world.heap.get o p).eqv v = false →
    ∀ t, ∀ r ∈ s.world.heap.handlersFor o t p, r.observer.Clear q there
  announcing : ∀ signal o p old new fs, s.control = .pass signal → s.frames = .announcing o p old new :: fs →
    ∀ t, ∀ r ∈ s.world.heap.handlersFor o t p, r.observer.Clear q there
  observers : ∀ i, ∀ y ∈ s.world.heap.observers i, y.Clear q there
  tasks : ∀ i l, s.world.heap.tasks? i = some l → ∀ t ∈ l, t.Clear q there i

/-- The given observers lead inside or to what is clear, and what is inside stays inside. -/
structure Passage.Sound (code : C) : Prop where
  leaf : ∀ c, c ≠ code → q.leaf c
  own : ∀ p, q.own = some p → there p
  given : ∀ y, q.given y → y.Prompt ∨ ∃ g i z, y = .relocate g i z
  onward : ∀ y z, q.given y → y.next? = some z → z.Clear q there ∨ q.inside z
  prompt : ∀ y, q.inside y → y.Prompt
  inside : ∀ y z, q.inside y → y.next? = some z → q.inside z
  enters : ∀ x y, q.enters x y → ∃ x' f, x = .map x' f ∧ q.given (.map f y)

end Definitions

structure State.Clear (q : Passage F C) (P : Observer F C → Prop) (s : State F C S) : Prop where
  going : s.Going q s.world.heap.There P
  heap : s.world.heap.Clear q s.world.heap.There

/-- What is delivered to next is what the observer at hand leads on to, or what a task of the passage does. -/
def State.Hands (q : Passage F C) (s : State F C S) (z : Observer F C) : Prop :=
  (∃ y v, s.control = .run (.deliver y v) ∧ (q.given y ∨ q.inside y) ∧ y.next? = some z) ∨
    ∃ g i, q.given (.relocate g i z)

/-- Whatever is clear of the one passage is clear of the other, if it only uses spots that are there. -/
structure Passage.Eases (q : Passage F C) (there : Spot → Prop) (q' : Passage F C) (there' : Spot → Prop) : Prop where
  leaf : ∀ c, q.leaf c → q'.leaf c
  given : ∀ y, q.given y → q'.given y
  spares : ∀ p, q.Spares there p → q'.Spares there' p
  enters : ∀ x y, q.enters x y → q'.enters x y

variable {q q' : Passage F C} {there there' : Spot → Prop} {P P' : Observer F C → Prop} {code : C}

theorem Passage.eases_of_le (hle : ∀ p, there p → there' p) : q.Eases there q there' :=
  ⟨fun _ => id, fun _ => id, fun p hp => ⟨hle p hp.1, hp.2⟩, fun _ _ => id⟩

/-! ## Clear of another passage -/

section Eases
variable (hq : q.Eases there q' there')
include hq

theorem Observer.Clear.eased {y : Observer F C} (h : y.Clear q there) : y.Clear q' there' := by
  induction y with
  | client => exact h.imp (hq.given _) (hq.leaf _)
  | write => trivial
  | map f next ih | filter f next ih | outer i select next ih | inner i g next ih => exact h.imp (hq.given _) ih
  | skip i next ih | distinct i next ih | relocate i s next ih | slot i k next ih =>
    exact h.imp (hq.given _) fun h => ⟨hq.spares _ h.1, ih h.2⟩

theorem Passage.Admits.eased {x : Stream F} {y : Observer F C} (h : q.Admits there x y) : q'.Admits there' x y :=
  h.imp (·.eased hq) (hq.enters x y)

theorem Task.Clear.eased {i : SchedulerId} {t : Task F C} (h : t.Clear q there i) : t.Clear q' there' i := by
  cases t with
  | deliver => exact Observer.Clear.eased hq h
  | client => trivial

theorem Heap.Clear.eased {h : Heap F C} (hh : h.Clear q there) : h.Clear q' there' :=
  ⟨fun n e he => (hh.entries n e he).eased hq, fun i l hl t ht => (hh.tasks i l hl t ht).eased hq⟩

theorem Frame.Clear.eased {f : Frame F C} (h : f.Clear q there) : f.Clear q' there' := by
  cases f with
  | notifying r rest => exact fun r hr => (h r hr).eased hq
  | publishing y rest => exact fun y hy => (h y hy).eased hq
  | passing | switching => exact Observer.Clear.eased hq h
  | gathering y ts rest => exact fun p hp => (h p hp).eased hq
  | _ => trivial

theorem Control.Clear.eased {c : Control F C} (h : c.Clear q there P) : c.Clear q' there' P := by
  cases c with
  | run c =>
    cases c with
    | deliver y v => exact Or.imp_left (·.eased hq) h
    | subscribe x y => exact Passage.Admits.eased hq h
    | subscribeAll ts rest => exact fun p hp => (h p hp).eased hq
    | schedule i t => exact Task.Clear.eased hq h
    | _ => trivial
  | _ => trivial

theorem State.Going.eased {s : State F C S} (h : s.Going q there P) : s.Going q' there' P :=
  ⟨h.control.eased hq, fun f hf => (h.frames f hf).eased hq⟩

theorem State.Recalls.eased {s : State F C S} (h : s.Recalls q there) : s.Recalls q' there' where
  set o p v hc hne t r hr := (h.set o p v hc hne t r hr).eased hq
  announcing signal o p old new fs hc hf t r hr := (h.announcing signal o p old new fs hc hf t r hr).eased hq
  observers i y hy := (h.observers i y hy).eased hq
  tasks i l hl t ht := (h.tasks i l hl t ht).eased hq

end Eases

theorem Passage.Sound.mono (hle : ∀ p, there p → there' p) (h : q.Sound there code) : q.Sound there' code :=
  { h with
    own := fun p hp => hle p (h.own p hp)
    onward := fun y z hy hz => (h.onward y z hy hz).imp_left (·.eased (Passage.eases_of_le hle)) }

theorem State.Going.imp {s : State F C S} (hP : ∀ z, P z → P' z) (h : s.Going q there P) : s.Going q there P' := by
  refine ⟨?_, h.frames⟩
  have hc := h.control
  generalize s.control = c at hc ⊢
  cases c with
  | run c =>
    cases c with
    | deliver y v => exact Or.imp_right (hP y) hc
    | _ => exact hc
  | _ => trivial

/-- What a clear observer leads on to is clear too, if the observer is not given itself. -/
theorem Observer.Clear.next {y z : Observer F C} (h : y.Clear q there) (hz : y.next? = some z) :
    q.given y ∨ z.Clear q there := by
  cases y with
  | client | write => cases hz
  | map f next | filter f next | outer i select next | inner i g next =>
    cases hz
    exact h
  | skip i next | distinct i next | relocate i s next | slot i k next =>
    cases hz
    exact h.imp_right And.right

theorem Observer.clear_of_foreign {y : Observer F C} (hl : ∀ c, c ≠ code → q.leaf c) (hy : y.Foreign code) :
    y.Clear q there := by
  cases y with
  | client c => exact .inr (hl c hy)
  | write => trivial
  | _ => exact hy.elim

theorem Command.clear_of_outside {c : Command F C} (hl : ∀ c, c ≠ code → q.leaf c) (hc : c.Outside code) :
    c.Clear q there P := by
  cases c with
  | deliver y v => exact .inl (Observer.clear_of_foreign hl hc)
  | subscribe x y => exact .inl (Observer.clear_of_foreign hl hc)
  | subscribeAll ts rest => exact fun p hp => .inl (Observer.clear_of_foreign hl (hc.2 p hp))
  | schedule i t =>
    cases t with
    | deliver => exact hc.elim
    | client => trivial
  | _ => trivial

namespace Heap.Clear

variable {h : Heap F C} (hh : h.Clear q there)
include hh

theorem handlers {o : ObjectId} {t : Timing} {p : String} : ∀ r ∈ h.handlersFor o t p, r.observer.Clear q there :=
  fun _ hr => hh.entries _ _ (mem_roster_handlers ((handlersFor_sublist h o p t).subset hr))

theorem observers {i : SubjectId} : ∀ y ∈ h.observers i, y.Clear q there := by
  intro y hy
  obtain ⟨id, he⟩ := exists_mem_roster hy
  exact hh.entries _ _ he

theorem recalls {s : State F C S} (hs : s.world.heap = h) : s.Recalls q there := by
  subst hs
  exact ⟨fun _ _ _ _ _ _ => hh.handlers, fun _ _ _ _ _ _ _ _ _ => hh.handlers, fun _ => hh.observers, hh.tasks⟩

end Heap.Clear

/-! ## What is under way after a step -/

namespace State.Going

variable {K : Client F C S} {s : State F C S} {h : Heap F C}

/-- The control, with nothing new under way. -/
theorem goOn (hf : ∀ f ∈ s.frames, f.Clear q there) {c : Control F C} (hc : c.Clear q there P) :
    (s.goOn c h).Going q there P := ⟨hc, hf⟩

theorem under (hf : ∀ f ∈ s.frames, f.Clear q there) {f : Frame F C} {c : Control F C} (hf' : f.Clear q there)
    (hc : c.Clear q there P) : (s.under f c h).Going q there P :=
  ⟨hc, List.forall_mem_cons.2 ⟨hf', hf⟩⟩

variable (hf : ∀ f ∈ s.frames, f.Clear q there)
include hf

theorem notify (o : ObjectId) (v : Value) {l : List (Handler F C)} (hl : ∀ r ∈ l, r.observer.Clear q there) :
    (stepNotify s o v l).Going q there P := by
  cases l with
  | nil => exact goOn hf trivial
  | cons r rest =>
    obtain ⟨hr, hrest⟩ := List.forall_mem_cons.1 hl
    exact under hf hrest (.inl hr)

theorem publish (i : SubjectId) (v : Value) {l : List (Observer F C)} (hl : ∀ y ∈ l, y.Clear q there) :
    (stepPublish s i v l).Going q there P := by
  cases l with
  | nil => exact goOn hf trivial
  | cons y rest =>
    obtain ⟨hy, hrest⟩ := List.forall_mem_cons.1 hl
    exact under hf hrest (.inl hy)

theorem set (o : ObjectId) (p : String) (v : Value) (hh : (s.world.heap.get o p).eqv v = false →
      ∀ t, ∀ r ∈ s.world.heap.handlersFor o t p, r.observer.Clear q there) :
    (stepSet s o p v).Going q there P := by
  simp only [stepSet]
  split
  · exact goOn hf trivial
  · next hne =>
    rw [Heap.handlersFor_put]
    exact notify (List.forall_mem_cons.2 ⟨trivial, hf⟩) _ _ (hh (Bool.eq_false_iff.2 hne) .before)

/-- New cells are none of the passage's own. -/
theorem subscribe (x : Stream F) {y : Observer F C} (hy : y.Clear q there)
    (hn : ∀ p, (stepSubscribe K s y x).world.heap.There p → ¬ s.world.heap.There p → q.Spares there p) :
    (stepSubscribe K s y x).Going q there P := by
  cases x with
  | empty => exact goOn hf trivial
  | just v => exact under hf trivial (.inl hy)
  | watch o p t =>
    simp only [stepSubscribe, stepWatch]
    split
    · exact under hf trivial (.inl hy)
    · exact goOn hf trivial
  | constant root path => exact under hf trivial (.inl hy)
  | subject i =>
    simp only [stepSubscribe, stepListen]
    split <;> exact goOn hf trivial
  | map x f => exact goOn hf (c := .run (.subscribe x (.map f y))) (.inl (.inr hy))
  | filter x f => exact goOn hf (c := .run (.subscribe x (.filter f y))) (.inl (.inr hy))
  | skip x n =>
    have hp := hn (.counter s.world.heap.counters.size) (by simp [stepSubscribe, State.goOn, World.withHeap,
      Heap.There, Heap.newCounter]) (Nat.lt_irrefl _)
    exact goOn hf (c := .run (.subscribe x (.skip _ y))) (.inl (.inr ⟨hp, hy⟩))
  | distinct x =>
    have hp := hn (.memory s.world.heap.memories.size) (by simp [stepSubscribe, State.goOn, World.withHeap,
      Heap.There, Heap.newMemory]) (Nat.lt_irrefl _)
    exact goOn hf (c := .run (.subscribe x (.distinct _ y))) (.inl (.inr ⟨hp, hy⟩))
  | switch x select =>
    exact under hf (f := .opening _) (c := .run (.subscribe x (.outer _ select y))) trivial (.inl (.inr hy))
  | relocate x i =>
    have hp := hn (.gate s.world.heap.gates.size) (by simp [stepSubscribe, State.under, World.withHeap,
      Heap.There, Heap.newGate]) (Nat.lt_irrefl _)
    exact under hf (f := .relocating _) (c := .run (.subscribe x (.relocate _ i y))) trivial (.inl (.inr ⟨hp, hy⟩))
  | merge xs =>
    refine goOn hf fun p hp => ?_
    obtain ⟨x, -, rfl⟩ := List.mem_map.1 hp
    exact .inl hy
  | combineLatest xs =>
    have hp := hn (.join s.world.heap.joins.size) (by simp [stepSubscribe, State.goOn, World.withHeap,
      Heap.There, Heap.newJoin]) (Nat.lt_irrefl _)
    refine goOn hf fun p hm => ?_
    obtain ⟨k, hk, rfl⟩ := List.mem_mapIdx.1 hm
    exact .inl (.inr ⟨hp, hy⟩)

theorem map {f : Mapping F} {next : Observer F C} (v : Value) (hn : next.Clear q there ∨ P next)
    (hp : ∀ i side, f = .publish i side → next.Clear q there) : (stepMap K s next v f).Going q there P := by
  cases f with
  | apply f => exact ⟨hn, hf⟩
  | wrap sender p => exact goOn hf (c := .run (.deliver next _)) hn
  | emptyIfNull => simp only [stepMap]; split <;> exact goOn hf (c := .run (.deliver next _)) hn
  | publish i side => exact under hf (hp i side rfl) trivial

/-- A value goes on to what the observer leads on to. -/
theorem deliver (hq : q.Sound there code) {v : Value} {y : Observer F C} (hc : s.control = .run (.deliver y v))
    (hy : y.Clear q there ∨ q.inside y) :
    (stepDeliver K s v y).Going q there fun z => q.inside z ∧ s.Hands q z := by
  have hnext : ∀ z, y.next? = some z → z.Clear q there ∨ q.inside z ∧ s.Hands q z := by
    intro z hz
    rcases hy with hy | hy
    · rcases hy.next hz with hg | hz'
      · exact (hq.onward y z hg hz).imp_right fun hi => ⟨hi, .inl ⟨y, v, hc, .inl hg, hz⟩⟩
      · exact .inl hz'
    · exact .inr ⟨hq.inside y z hy hz, .inl ⟨y, v, hc, .inr hy, hz⟩⟩
  -- what is kept for later is kept by an observer that is neither given nor inside
  have hkept : ∀ z, y.next? = some z → ¬ y.Prompt → (∀ g i z, y ≠ .relocate g i z) → z.Clear q there := by
    intro z hz hp hr
    rcases hy with hy | hy
    · rcases hy.next hz with hg | hz'
      · rcases hq.given y hg with hp' | ⟨g, i, z', rfl⟩
        · exact absurd hp' hp
        · exact absurd rfl (hr g i z')
      · exact hz'
    · exact absurd (hq.prompt y hy) hp
  cases y with
  | client c => exact goOn hf trivial
  | write root p =>
    simp only [stepDeliver]
    split
    · exact under hf trivial trivial
    · exact goOn hf trivial
  | map f next =>
    refine map hf v (hnext next rfl) fun i side he => hkept next rfl ?_ (by simp)
    subst he
    exact id
  | filter f next =>
    refine ⟨?_, hf⟩
    simp only [stepDeliver]
    split
    · exact hnext next rfl
    · trivial
  | skip i next =>
    simp only [stepDeliver]
    split
    · exact goOn hf (c := .run (.deliver next v)) (hnext next rfl)
    · exact goOn hf trivial
  | distinct i next =>
    simp only [stepDeliver]
    split
    · exact goOn hf trivial
    · exact goOn hf (c := .run (.deliver next v)) (hnext next rfl)
  | outer i select next => exact under hf (f := .switching _ _ _ next) (hkept next rfl id (by simp)) trivial
  | inner i g next =>
    simp only [stepDeliver]
    split
    · exact goOn hf (c := .run (.deliver next v)) (hnext next rfl)
    · exact goOn hf trivial
  | relocate g i next =>
    refine goOn hf (c := .run (.schedule i (.deliver g next v))) ?_
    exact hy.resolve_right fun hi => hq.prompt _ hi
  | slot i k next =>
    simp only [stepDeliver]
    split
    · exact goOn hf (c := .run (.deliver next _)) (hnext next rfl)
    · exact goOn hf trivial

theorem task (hq : q.Sound there code) {i : SchedulerId} {t : Task F C} (ht : t.Clear q there i) :
    (stepTask s t).Going q there fun z => q.inside z ∧ ∃ g i, q.given (.relocate g i z) := by
  cases t with
  | client c => exact goOn hf trivial
  | deliver g y v =>
    have hy : y.Clear q there ∨ q.inside y ∧ ∃ g i, q.given (.relocate g i y) := by
      rcases Observer.Clear.next ht rfl with hg | hy
      · exact (hq.onward _ y hg rfl).imp_right fun hi => ⟨hi, g, i, hg⟩
      · exact .inl hy
    simp only [stepTask]
    split
    · exact goOn hf (c := .run (.deliver y v)) hy
    · exact goOn hf trivial

theorem undo (t : Teardown C) : (stepUndo s t).Going q there P := by
  cases t with
  | switch i t => exact under hf trivial trivial
  | _ => exact goOn hf trivial

theorem frame {signal : Signal C} {f : Frame F C} (hf' : f.Clear q there)
    (hh : ∀ o p old new, f = .announcing o p old new →
      ∀ t, ∀ r ∈ s.world.heap.handlersFor o t p, r.observer.Clear q there) :
    (stepFrame s signal f).Going q there P := by
  cases f with
  | notifying r rest o v => exact notify hf o v hf'
  | publishing y rest i v => exact publish hf i v hf'
  | announcing o p old new => exact notify (List.forall_mem_cons.2 ⟨trivial, hf⟩) _ _ (hh o p old new rfl .after)
  | passing next v => exact goOn hf (c := .run (.deliver next v)) (.inl hf')
  | gathering y ts rest => exact goOn hf (c := .run (.subscribeAll _ rest)) hf'
  | switching i g inner next =>
    simp only [stepFrame]
    split
    · exact goOn hf trivial
    · exact under hf (f := .entering i g inner) (c := .run (.subscribe inner (.inner i g next))) trivial
        (.inl (.inr hf'))
  | entering i g inner => simp only [stepFrame]; split <;> exact goOn hf trivial
  | _ => exact goOn hf trivial

theorem unwind (message : String) (f : Frame F C) : (unwindFrame s message f).Going q there P := by
  cases f with
  | subscribed | gathering => exact under hf trivial trivial
  | _ => exact goOn hf trivial

end State.Going

/-! ## Steps -/

namespace State.Clear

variable {K : Client F C S} {s : State F C S}

theorem command (hq : q.Sound there code) (hs : s.Going q there q.inside) (hr : s.Recalls q there)
    {c : Command F C} (hc : s.control = .run c)
    (hn : ∀ p, (s.step K).world.heap.There p → ¬ s.world.heap.There p → q.Spares there p) :
    (stepCommand K s c).Going q there fun z => q.inside z ∧ s.Hands q z := by
  have hf := hs.frames
  have hcontrol : (Control.run c).Clear q there q.inside := hc ▸ hs.control
  have hstep : s.step K = stepCommand K s c := by
    obtain ⟨c', fs, w⟩ := s
    cases hc
    rfl
  rw [hstep] at hn
  cases c with
  | set o p v => exact .set hf o p v (hr.set o p v hc)
  | write root p v => simp only [stepCommand, stepWrite]; split <;> exact .goOn hf trivial
  | next i v => exact .publish hf i v (hr.observers i)
  | deliver y v => exact .deliver hf hq hc hcontrol
  | subscribe x y =>
    rcases hcontrol with hy | he
    · exact .subscribe hf x hy hn
    · obtain ⟨x, f, rfl, hg⟩ := hq.enters x y he
      exact .goOn hf (c := .run (.subscribe x (.map f y))) (.inl (.inl hg))
  | subscribeAll ts rest =>
    cases rest with
    | nil => exact .goOn hf trivial
    | cons p rest =>
      obtain ⟨hp, hrest⟩ := List.forall_mem_cons.1 hcontrol
      exact .under hf hrest (c := .run (.subscribe p.1 p.2)) hp
  | undo t => exact .undo hf t
  | undoAll ts panic =>
    cases ts with
    | nil => cases panic <;> exact .goOn hf trivial
    | cons t ts => exact .under hf trivial trivial
  | dispose n => exact .goOn hf trivial
  | disposeComposite n => simp only [stepCommand, stepDisposeComposite]; split <;> exact .goOn hf trivial
  | add n m => simp only [stepCommand, stepAdd]; split <;> exact .goOn hf trivial
  | schedule i t =>
    simp only [stepCommand, stepSchedule]
    split
    · exact .goOn hf trivial
    · exact (State.Going.task hf hq hcontrol).imp fun _ h => ⟨h.1, .inr h.2⟩
  | drain i ran =>
    simp only [stepCommand, stepDrain]
    split
    · next t ts hts =>
      have ht := hr.tasks i _ hts t List.mem_cons_self
      exact (State.Going.task (List.forall_mem_cons.2 ⟨trivial, hf⟩) hq ht).imp fun _ h => ⟨h.1, .inr h.2⟩
    · exact .goOn hf trivial

theorem step_going (hm : s.Minds K code) (hq : q.Sound there code) (hs : s.Going q there q.inside)
    (hr : s.Recalls q there)
    (hn : ∀ p, (s.step K).world.heap.There p → ¬ s.world.heap.There p → q.Spares there p) :
    (s.step K).Going q there fun z => q.inside z ∧ s.Hands q z := by
  obtain ⟨c, fs, w⟩ := s
  cases c with
  | run c => exact command hq hs hr rfl hn
  | resume c signal =>
    have hmove := hm.2
    simp only [State.step]
    cases hk : (K.resume c signal w).2 with
    | perform command code =>
      rw [hk] at hmove
      exact .under (s := ⟨_, fs, (K.resume c signal w).1⟩) hs.frames trivial (c := .run command)
        (Command.clear_of_outside hq.leaf hmove)
    | _ => exact .goOn (s := ⟨_, fs, (K.resume c signal w).1⟩) hs.frames trivial
  | pass signal =>
    cases fs with
    | nil => exact ⟨trivial, List.forall_mem_nil _⟩
    | cons f fs =>
      obtain ⟨hf, hfs⟩ := List.forall_mem_cons.1 hs.frames
      exact .frame (s := ⟨.pass signal, fs, w⟩) hfs hf fun o p old new he =>
        hr.announcing signal o p old new fs rfl (congrArg (· :: fs) he)
  | panic message =>
    cases fs with
    | nil => exact ⟨trivial, List.forall_mem_nil _⟩
    | cons f fs => exact .unwind (s := ⟨.panic message, fs, w⟩) (List.forall_mem_cons.1 hs.frames).2 message f

/-- What is registered somewhere after a step was so before, or has just been subscribed. -/
theorem step_entries (hm : s.Minds K code) (hq : q.Sound there code) (hs : s.Going q there P) {n : Node}
    (hn : ∀ e ∈ s.world.heap.roster n, e.2.Clear q there) :
    ∀ e ∈ (s.step K).world.heap.roster n, e.2.Clear q there := by
  intro e he
  rcases (State.later_step hm).entries n e he with hold | ⟨-, hy | ⟨x, hx⟩⟩
  · exact hn e hold
  · exact Observer.clear_of_foreign hq.leaf hy
  · have hc := hs.control
    rw [hx] at hc
    rcases hc with hy | henters
    · exact hy
    · -- what comes first is a mapping, and nothing is registered for it yet
      obtain ⟨x, f, rfl, -⟩ := hq.enters x _ henters
      obtain ⟨c, fs, w⟩ := s
      cases hx
      exact hn e he

/-- The tasks after a step were there before, or one has just been scheduled. -/
theorem step_tasks (hm : s.Minds K code) (hs : s.Going q there P)
    (ht : ∀ i l, s.world.heap.tasks? i = some l → ∀ t ∈ l, t.Clear q there i) :
    ∀ i l, (s.step K).world.heap.tasks? i = some l → ∀ t ∈ l, t.Clear q there i := by
  intro i l hi t hmem
  rcases State.tasks_step hm hi hmem with ⟨l', hi', hold⟩ | hx
  · exact ht i l' hi' t hold
  · have hc := hs.control
    rw [hx] at hc
    exact hc

/-- **A step goes on clear.** -/
theorem step (hm : s.Minds K code) (hq : q.Sound s.world.heap.There code) (hs : s.Clear q q.inside) :
    (s.step K).Clear q fun z => q.inside z ∧ s.Hands q z := by
  have hu := State.uses_step hm
  have hnew : ∀ p, (s.step K).world.heap.There p → ¬ s.world.heap.There p →
      q.Spares (s.step K).world.heap.There p := fun p hp hn => ⟨hp, fun ho => hn (hq.own p ho)⟩
  have hgoing := hs.going.eased (Passage.eases_of_le hu.there)
  have hheap := hs.heap.eased (Passage.eases_of_le hu.there)
  have hq' := hq.mono hu.there
  have hrecalls := (hs.heap.recalls rfl).eased (Passage.eases_of_le hu.there)
  exact ⟨step_going hm hq' hgoing hrecalls hnew, fun n => step_entries hm hq' hgoing (hheap.entries n),
    step_tasks hm hgoing hheap.tasks⟩

end State.Clear

end DataBinding
