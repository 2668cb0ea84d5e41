import DataBinding.Proofs.Disposal.Ground
import DataBinding.Proofs.Machine.Deliveries
/-!
# Cells and queues

Counters, memories, joins and gates are cells of single observers, and queues belong to schedulers (`Spot`). A
step uses one of them at most (`State.uses?`), and all others that there are stay as they are
(`State.uses_step`). All that is asked of the client is that it minds its own business at the steps that are
its own (`State.Minds`).
-/

namespace DataBinding

variable {F C S : Type}

/-- A cell of an operator, or the queue of a scheduler. -/
inductive Spot where
  | counter (i : Nat)
  | memory (i : Nat)
  | join (i : Nat)
  | gate (i : Nat)
  | queue (scheduler : SchedulerId)
deriving DecidableEq

namespace Heap

/-- The spot is there. -/
def There (h : Heap F C) : Spot → Prop
  | .counter i => i < h.counters.size
  | .memory i => i < h.memories.size
  | .join i => i < h.joins.size
  | .gate i => i < h.gates.size
  | .queue s => s < h.schedulers.size

/-- The spot holds the same in both heaps. -/
def Same (h h' : Heap F C) : Spot → Prop
  | .counter i => h'.counter i = h.counter i
  | .memory i => h'.memory i = h.memory i
  | .join i => h'.join i = h.join i
  | .gate i => h'.gateOpen i = h.gateOpen i
  | .queue s => h'.tasks? s = h.tasks? s

/-- What is there stays, and nothing of it changes but the spot that is used. A queue that is new is empty. -/
structure Uses (used : Option Spot) (h h' : Heap F C) : Prop where
  there : ∀ p, h.There p → h'.There p
  same : ∀ p, h.There p → some p ≠ used → h.Same h' p
  fresh : ∀ i l, ¬ h.There (.queue i) → h'.tasks? i = some l → l = []

theorem tasks?_of_not_there {h : Heap F C} {i : SchedulerId} (hi : ¬ h.There (.queue i)) : h.tasks? i = none := by
  simp only [tasks?, Array.getElem?_eq_none (Nat.le_of_not_lt hi)]

theorem there_of_tasks? {h : Heap F C} {i : SchedulerId} {l : List (Task F C)} (hl : h.tasks? i = some l) :
    h.There (.queue i) := by
  by_contra hi
  rw [tasks?_of_not_there hi] at hl
  cases hl

theorem Same.trans {h h' h'' : Heap F C} {p : Spot} (a : h.Same h' p) (b : h'.Same h'' p) : h.Same h'' p := by
  cases p <;> exact Eq.trans b a

namespace Uses

variable {used : Option Spot} {h h' h'' : Heap F C}

/-- Only what is no queue has changed. -/
theorem of_schedulers (hs : h'.schedulers = h.schedulers) (there : ∀ p, h.There p → h'.There p)
    (same : ∀ p, h.There p → some p ≠ used → h.Same h' p) : Uses used h h' where
  there := there
  same := same
  fresh i l hi hl := by
    have hn := tasks?_of_not_there hi
    simp only [tasks?, hs] at hl hn
    rw [hn] at hl
    cases hl

theorem of_tables (hc : h'.counters = h.counters) (hm : h'.memories = h.memories) (hj : h'.joins = h.joins)
    (hg : h'.gates = h.gates) (hs : h'.schedulers = h.schedulers) : Uses used h h' :=
  of_schedulers hs (fun p hp => by cases p <;> simpa only [There, hc, hm, hj, hg, hs] using hp)
    fun p _ _ => by cases p <;> simp only [Same, counter, memory, join, gateOpen, tasks?, hc, hm, hj, hg, hs]

theorem refl (used : Option Spot) (h : Heap F C) : Uses used h h := of_tables rfl rfl rfl rfl rfl

theorem trans (a : Uses used h h') (b : Uses none h' h'') : Uses used h h'' where
  there p hp := b.there p (a.there p hp)
  same p hp hu := (a.same p hp hu).trans (b.same p (a.there p hp) nofun)
  fresh i l hi hl := by
    by_cases hi' : h'.There (.queue i)
    · have hs : h''.tasks? i = h'.tasks? i := b.same (.queue i) hi' nofun
      exact a.fresh i l hi (hs ▸ hl)
    · exact b.fresh i l hi' hl

section Operations
variable (h) (i n : Nat) (v : Value) (l : List (Option Value)) (ts : List (Task F C))

theorem setCounter : Uses (some (.counter i)) h (h.setCounter i n) := by
  refine of_schedulers rfl (fun p hp => by cases p <;> simpa [There, Heap.setCounter] using hp) fun p _ hu => ?_
  cases p with
  | counter j =>
    have hne : i ≠ j := fun he => hu (by rw [he])
    simp [Same, Heap.counter, Heap.setCounter, hne]
  | _ => rfl

theorem setMemory : Uses (some (.memory i)) h (h.setMemory i v) := by
  refine of_schedulers rfl (fun p hp => by cases p <;> simpa [There, Heap.setMemory] using hp) fun p _ hu => ?_
  cases p with
  | memory j =>
    have hne : i ≠ j := fun he => hu (by rw [he])
    simp [Same, Heap.memory, Heap.setMemory, hne]
  | _ => rfl

theorem setJoin : Uses (some (.join i)) h (h.setJoin i l) := by
  refine of_schedulers rfl (fun p hp => by cases p <;> simpa [There, Heap.setJoin] using hp) fun p _ hu => ?_
  cases p with
  | join j =>
    have hne : i ≠ j := fun he => hu (by rw [he])
    simp [Same, Heap.join, Heap.setJoin, hne]
  | _ => rfl

theorem shutGate : Uses (some (.gate i)) h (h.shutGate i) := by
  refine of_schedulers rfl (fun p hp => by cases p <;> simpa [There, Heap.shutGate] using hp) fun p _ hu => ?_
  cases p with
  | gate j =>
    have hne : i ≠ j := fun he => hu (by rw [he])
    simp [Same, gateOpen_shutGate, Ne.symm hne]
  | _ => rfl

theorem setTasks : Uses (some (.queue i)) h (h.setTasks i ts) where
  there p hp := by cases p <;> simpa [There, Heap.setTasks] using hp
  same p _ hu := by
    cases p with
    | queue j =>
      have hne : j ≠ i := fun he => hu (by rw [he])
      simp [Same, tasks?_setTasks, hne]
    | _ => rfl
  fresh j l hj hl := by
    have hne : ¬ (j = i ∧ i < h.schedulers.size) := fun he => hj (he.1 ▸ he.2)
    rw [tasks?_setTasks, if_neg hne, tasks?_of_not_there hj] at hl
    cases hl

theorem newCounter : Uses used h (h.newCounter n).2 := by
  refine of_schedulers rfl (fun p hp => ?_) fun p hp _ => ?_
  · cases p <;> simp only [There, Heap.newCounter, Array.size_push] at hp ⊢ <;> omega
  · cases p with
    | counter j => simp [Same, Heap.counter, Heap.newCounter, Array.getElem?_push, Nat.ne_of_lt hp]
    | _ => rfl

theorem newMemory : Uses used h h.newMemory.2 := by
  refine of_schedulers rfl (fun p hp => ?_) fun p hp _ => ?_
  · cases p <;> simp only [There, Heap.newMemory, Array.size_push] at hp ⊢ <;> omega
  · cases p with
    | memory j => simp [Same, Heap.memory, Heap.newMemory, Array.getElem?_push, Nat.ne_of_lt hp]
    | _ => rfl

theorem newJoin : Uses used h (h.newJoin n).2 := by
  refine of_schedulers rfl (fun p hp => ?_) fun p hp _ => ?_
  · cases p <;> simp only [There, Heap.newJoin, Array.size_push] at hp ⊢ <;> omega
  · cases p with
    | join j => simp [Same, join_newJoin, Nat.ne_of_lt hp]
    | _ => rfl

theorem newGate : Uses used h h.newGate.2 := by
  refine of_schedulers rfl (fun p hp => ?_) fun p hp _ => ?_
  · cases p <;> simp only [There, Heap.newGate, Array.size_push] at hp ⊢ <;> omega
  · cases p with
    | gate j => simp [Same, gateOpen_newGate, Nat.ne_of_lt hp]
    | _ => rfl

theorem newScheduler {x : Scheduler F C} (hx : ∀ l, x = .queue l → l = []) :
    Uses used h (h.newScheduler x).2 where
  there p hp := by
    cases p with
    | queue j => exact Nat.lt_of_lt_of_le hp (by simp [Heap.newScheduler])
    | _ => exact hp
  same p hp _ := by
    cases p with
    | queue j => simp [Same, tasks?, Heap.newScheduler, Array.getElem?_push, Nat.ne_of_lt hp]
    | _ => rfl
  fresh j l hj hl := by
    rcases h.tasks?_newScheduler x j l hl with hl | rfl
    · rw [tasks?_of_not_there hj] at hl
      cases hl
    · exact hx l rfl

end Operations

theorem edits {code : C} (he : Edits code h h') : Uses used h h' := by
  induction he with
  | refl => exact refl _ _
  | tail _ he ih =>
    refine ih.trans ?_
    cases he with
    | immediate => exact newScheduler _ nofun
    | queue => exact newScheduler _ fun _ hl => (Scheduler.queue.inj hl).symm
    | _ => exact of_tables rfl rfl rfl rfl rfl

end Uses

end Heap

/-! ## Steps -/

namespace State

/-- The spot that the next step may change. -/
def uses? (s : State F C S) : Option Spot :=
  match s.control with
  | .run (.deliver (.skip i _) _) => some (.counter i)
  | .run (.deliver (.distinct i _) _) => some (.memory i)
  | .run (.deliver (.slot i _ _) _) => some (.join i)
  | .run (.undo (.relocate i _)) => some (.gate i)
  | .run (.schedule i _) | .run (.drain i _) => some (.queue i)
  | _ => none

end State

namespace Heap.Uses

variable {K : Client F C S} {code : C} {used : Option Spot} (s : State F C S)

theorem notify (o : ObjectId) (v : Value) (l : List (Handler F C)) :
    Uses used s.world.heap (stepNotify s o v l).world.heap := by
  cases l <;> exact refl _ _

theorem publish (i : SubjectId) (v : Value) (l : List (Observer F C)) :
    Uses used s.world.heap (stepPublish s i v l).world.heap := by
  cases l <;> exact refl _ _

theorem set (o : ObjectId) (p : String) (v : Value) : Uses used s.world.heap (stepSet s o p v).world.heap := by
  simp only [stepSet]
  split
  · exact refl _ _
  · exact (of_tables rfl rfl rfl rfl rfl : Uses used s.world.heap (s.world.heap.put o p v)).trans
      (notify (s.under _ _ _) ..)

theorem subscribe (x : Stream F) (y : Observer F C) :
    Uses used s.world.heap (stepSubscribe K s y x).world.heap := by
  cases x with
  | watch o p t =>
    simp only [stepSubscribe, stepWatch]
    split
    · exact of_tables rfl rfl rfl rfl rfl
    · exact refl _ _
  | subject i =>
    simp only [stepSubscribe, stepListen]
    split
    · exact of_tables rfl rfl rfl rfl rfl
    · exact refl _ _
  | skip x n => exact newCounter ..
  | distinct x => exact newMemory ..
  | switch x select => exact of_tables rfl rfl rfl rfl rfl
  | relocate x i => exact newGate ..
  | combineLatest xs => exact newJoin ..
  | _ => exact refl _ _

theorem task (t : Task F C) : Uses used s.world.heap (stepTask s t).world.heap := by
  rw [s.world_task]
  exact refl _ _

theorem deliver {v : Value} {y : Observer F C} (hs : s.control = .run (.deliver y v)) (hm : s.Minds K code) :
    Uses s.uses? s.world.heap (stepDeliver K s v y).world.heap := by
  obtain ⟨c, fs, w⟩ := s
  cases hs
  cases y with
  | map f next =>
    cases f with
    | apply f => exact edits hm
    | emptyIfNull =>
      simp only [stepDeliver, stepMap]
      split
      · exact refl _ _
      · exact of_tables rfl rfl rfl rfl rfl
    | _ => exact refl _ _
  | filter f next => exact edits hm
  | skip i next =>
    simp only [stepDeliver]
    split
    · exact refl _ _
    · exact setCounter ..
  | distinct i next =>
    simp only [stepDeliver]
    split
    · exact refl _ _
    · exact setMemory ..
  | outer i select next => exact of_tables rfl rfl rfl rfl rfl
  | write root p => simp only [stepDeliver]; split <;> exact refl _ _
  | inner i g next => simp only [stepDeliver]; split <;> exact refl _ _
  | slot i k next => simp only [stepDeliver]; split <;> exact setJoin ..
  | _ => exact refl _ _

theorem command {c : Command F C} (hs : s.control = .run c) (hm : s.Minds K code) :
    Uses s.uses? s.world.heap (stepCommand K s c).world.heap := by
  cases c with
  | set o p v => exact set s o p v
  | write root p v => simp only [stepCommand, stepWrite]; split <;> exact refl _ _
  | next i v => exact publish s i v _
  | deliver y v => exact deliver s hs hm
  | subscribe x y => exact subscribe s x y
  | subscribeAll members rest => cases rest <;> exact refl _ _
  | undo t =>
    obtain ⟨c, fs, w⟩ := s
    cases hs
    cases t with
    | relocate i t => exact shutGate ..
    | handler | observer | switch => exact of_tables rfl rfl rfl rfl rfl
    | _ => exact refl _ _
  | undoAll members panic => cases members <;> exact refl _ _
  | dispose n => exact of_tables rfl rfl rfl rfl rfl
  | disposeComposite n =>
    simp only [stepCommand, stepDisposeComposite]
    split
    · exact refl _ _
    · exact of_tables rfl rfl rfl rfl rfl
  | add n m =>
    simp only [stepCommand, stepAdd]
    split <;> exact of_tables rfl rfl rfl rfl rfl
  | schedule i t =>
    obtain ⟨c, fs, w⟩ := s
    cases hs
    simp only [stepCommand, stepSchedule]
    split
    · exact setTasks ..
    · exact task (⟨_, fs, w⟩ : State F C S) t
  | drain i ran =>
    obtain ⟨c, fs, w⟩ := s
    cases hs
    simp only [stepCommand, stepDrain]
    split
    · exact (setTasks ..).trans (task (State.under _ _ _ _) _)
    · exact refl _ _

theorem frame (signal : Signal C) (f : Frame F C) :
    Uses used s.world.heap (stepFrame s signal f).world.heap := by
  cases f with
  | notifying x rest o v => exact notify s o v rest
  | publishing x rest i v => exact publish s i v rest
  | announcing o p old new => exact notify (s.under _ _ _) ..
  | switching i g inner next => simp only [stepFrame]; split <;> exact refl _ _
  | entering i g inner =>
    simp only [stepFrame]
    split
    · exact of_tables rfl rfl rfl rfl rfl
    · exact refl _ _
  | closing i => exact of_tables rfl rfl rfl rfl rfl
  | _ => exact refl _ _

end Heap.Uses

/-- A step changes no spot but the one that it uses. -/
theorem State.uses_step {K : Client F C S} {code : C} {s : State F C S} (hm : s.Minds K code) :
    Heap.Uses s.uses? s.world.heap (s.step K).world.heap := by
  obtain ⟨c, fs, w⟩ := s
  cases c with
  | run c => exact Heap.Uses.command ⟨.run c, fs, w⟩ rfl hm
  | resume c signal =>
    refine (Heap.Uses.edits hm.1).trans ?_
    simp only [State.step]
    cases (K.resume c signal w).2 <;> exact .refl _ _
  | pass signal =>
    cases fs with
    | nil => exact .refl _ _
    | cons f fs => exact Heap.Uses.frame ⟨_, fs, w⟩ signal f
  | panic message =>
    cases fs with
    | nil => exact .refl _ _
    | cons f fs => cases f <;> exact .refl _ _

namespace State

variable {K : Client F C S} {code : C} {s : State F C S} {i : SchedulerId} {l l' : List (Task F C)}

theorem queue_of_uses? (hs : s.uses? = some (.queue i)) :
    (∃ t, s.control = .run (.schedule i t)) ∨ ∃ ran, s.control = .run (.drain i ran) := by
  simp only [uses?] at hs
  split at hs <;> cases hs
  · next hc => exact .inl ⟨_, hc⟩
  · next hc => exact .inr ⟨_, hc⟩

theorem tasks?_setTasks_self {h : Heap F C} (hi : h.tasks? i = some l) (l' : List (Task F C)) :
    (h.setTasks i l').tasks? i = some l' := by
  rw [Heap.tasks?_setTasks, if_pos ⟨rfl, Heap.there_of_tasks? hi⟩]

/-- What is scheduled is kept, unless the scheduler keeps nothing. -/
theorem tasks?_schedule {t : Task F C} (hs : s.control = .run (.schedule i t)) :
    (s.step K).world.heap.tasks? i = (s.world.heap.tasks? i).map (· ++ [t]) := by
  obtain ⟨c, fs, w⟩ := s
  cases hs
  cases hw : w.heap.tasks? i with
  | none => rw [step_schedule_now hw, world_task, hw, Option.map_none]
  | some l => rw [step_schedule_later hw, Option.map_some, ← tasks?_setTasks_self hw]; rfl

/-- A drain takes the first of what is kept. -/
theorem tasks?_drain {ran : Nat} (hs : s.control = .run (.drain i ran)) :
    (s.step K).world.heap.tasks? i = (s.world.heap.tasks? i).map List.tail := by
  obtain ⟨c, fs, w⟩ := s
  cases hs
  cases hw : w.heap.tasks? i with
  | none => rw [step_drain_done (by simp [hw]), Option.map_none, hw]
  | some l =>
    cases l with
    | nil => rw [step_drain_done (by simp [hw]), hw, Option.map_some, List.tail_nil]
    | cons t l => rw [step_drain_cons hw, world_task, Option.map_some, ← tasks?_setTasks_self hw]; rfl

/-- What a queue keeps after a step it kept before, or it has just been scheduled. -/
theorem tasks_step (hm : s.Minds K code) (hl : (s.step K).world.heap.tasks? i = some l) {t : Task F C} (ht : t ∈ l) :
    (∃ l', s.world.heap.tasks? i = some l' ∧ t ∈ l') ∨ s.control = .run (.schedule i t) := by
  have hu := uses_step hm
  by_cases hi : s.world.heap.There (.queue i)
  · by_cases hq : some (.queue i) = s.uses?
    · rcases queue_of_uses? hq.symm with ⟨t', hc⟩ | ⟨ran, hc⟩
      · rw [tasks?_schedule hc] at hl
        obtain ⟨l', hl', rfl⟩ := Option.map_eq_some_iff.1 hl
        rcases List.mem_append.1 ht with ht | ht
        · exact .inl ⟨l', hl', ht⟩
        · exact .inr (List.mem_singleton.1 ht ▸ hc)
      · rw [tasks?_drain hc] at hl
        obtain ⟨l', hl', rfl⟩ := Option.map_eq_some_iff.1 hl
        exact .inl ⟨l', hl', List.mem_of_mem_tail ht⟩
    · have hs : (s.step K).world.heap.tasks? i = s.world.heap.tasks? i := hu.same _ hi hq
      exact .inl ⟨l, hs ▸ hl, ht⟩
  · rw [hu.fresh i l hi hl] at ht
    cases ht

end State

end DataBinding
