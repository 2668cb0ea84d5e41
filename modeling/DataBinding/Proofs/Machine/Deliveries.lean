import DataBinding.Proofs.Heap.Rosters
import DataBinding.Proofs.Machine.Steps
/-!
# Single steps

One step of each operator that either passes a value on at once or does not, and of a subscription to a subject.
-/

namespace DataBinding.State

variable {F C S : Type} {K : Client F C S} {base : List (Frame F C)} {w : World F C S} {i k n : Nat} {v : Value}
  {next : Observer F C}

theorem step_wrap {sender : ObjectId} {p : Option String}
    (ha : (⟨.run (.deliver (.map (.wrap sender p) next) v), base, w⟩ : State F C S).alive K (.object sender) = true) :
    step K ⟨.run (.deliver (.map (.wrap sender p) next) v), base, w⟩ =
      ⟨.run (.deliver next (.change sender p v)), base, w⟩ := by
  simp only [step, stepCommand, stepDeliver, stepMap]
  rw [if_pos ha]
  rfl

theorem step_emptyIfNull (hv : ∀ i, v ≠ .stream i) :
    step K ⟨.run (.deliver (.map .emptyIfNull next) v), base, w⟩ =
      ⟨.run (.deliver next (.stream w.heap.streams.size)), base, w.withHeap (w.heap.newStream .empty).2⟩ := by
  cases v <;> first | rfl | exact absurd rfl (hv _)

theorem step_skip_zero (hn : w.heap.counter i = 0) :
    step K ⟨.run (.deliver (.skip i next) v), base, w⟩ = ⟨.run (.deliver next v), base, w⟩ := by
  simp only [step, stepCommand, stepDeliver, hn]
  rfl

theorem step_skip_succ (hn : w.heap.counter i = n + 1) :
    step K ⟨.run (.deliver (.skip i next) v), base, w⟩ = ⟨.pass .done, base, w.withHeap (w.heap.setCounter i n)⟩ := by
  simp only [step, stepCommand, stepDeliver, hn]
  rfl

theorem step_distinct_same (he : (w.heap.memory i).any (·.eqv v) = true) :
    step K ⟨.run (.deliver (.distinct i next) v), base, w⟩ = ⟨.pass .done, base, w⟩ := by
  simp only [step, stepCommand, stepDeliver, he, if_true]
  rfl

theorem step_distinct_other (he : (w.heap.memory i).any (·.eqv v) = false) :
    step K ⟨.run (.deliver (.distinct i next) v), base, w⟩ =
      ⟨.run (.deliver next v), base, w.withHeap (w.heap.setMemory i v)⟩ := by
  simp only [step, stepCommand, stepDeliver, he, Bool.false_eq_true, if_false]
  rfl

theorem step_inner_stopped (g : Nat) (hs : (w.heap.switch i).stopped = true) :
    step K ⟨.run (.deliver (.inner i g next) v), base, w⟩ = ⟨.pass .done, base, w⟩ := by
  simp only [step, stepCommand, stepDeliver, hs, Bool.not_true, Bool.false_and, Bool.false_eq_true, if_false]
  rfl

theorem step_slot_full {l : List Value} (hl : ((w.heap.join i).set k (some v)).mapM id = some l) :
    step K ⟨.run (.deliver (.slot i k next) v), base, w⟩ =
      ⟨.run (.deliver next (.tuple l)), base, w.withHeap (w.heap.setJoin i ((w.heap.join i).set k (some v)))⟩ := by
  simp only [step, stepCommand, stepDeliver, hl]
  rfl

theorem step_slot_wanting (hl : ((w.heap.join i).set k (some v)).mapM id = none) :
    step K ⟨.run (.deliver (.slot i k next) v), base, w⟩ =
      ⟨.pass .done, base, w.withHeap (w.heap.setJoin i ((w.heap.join i).set k (some v)))⟩ := by
  simp only [step, stepCommand, stepDeliver, hl]
  rfl

/-- What becomes of a value that an inner stream delivers: it is passed on, or it comes too late. -/
theorem step_inner_cases (K : Client F C S) (base : List (Frame F C)) (w : World F C S) (i g : Nat)
    (next : Observer F C) (v : Value) :
    (w.heap.switch i).stopped = false ∧ (w.heap.switch i).generation = g ∧
        step K ⟨.run (.deliver (.inner i g next) v), base, w⟩ = ⟨.run (.deliver next v), base, w⟩ ∨
      ¬ ((w.heap.switch i).stopped = false ∧ (w.heap.switch i).generation = g) ∧
        step K ⟨.run (.deliver (.inner i g next) v), base, w⟩ = ⟨.pass .done, base, w⟩ := by
  by_cases hg : (w.heap.switch i).generation = g
  · cases hs : (w.heap.switch i).stopped with
    | false => exact .inl ⟨rfl, hg, step_inner (h := w.heap) (k := w.client) hs hg v⟩
    | true => exact .inr ⟨by simp, step_inner_stopped g hs⟩
  · exact .inr ⟨fun he => hg he.2, step_inner_late (h := w.heap) (k := w.client) hg v⟩

theorem step_constant {root : ObjectId} {path : Path}
    (ha : (⟨.run (.subscribe (.constant root path) next), base, w⟩ : State F C S).alive K (.object root) = true) :
    step K ⟨.run (.subscribe (.constant root path) next), base, w⟩ =
      ⟨.run (.deliver next (w.heap.readPath root path)), .subscribed next .nothing :: base, w⟩ := by
  simp only [step, stepCommand, stepSubscribe]
  rw [if_pos ha]
  rfl

section Listen
variable {j : SubjectId} {x : Observer F C}

theorem step_listen (ha : (⟨.run (.subscribe (.subject j) x), base, w⟩ : State F C S).alive K (.subject j) = true) :
    step K ⟨.run (.subscribe (.subject j) x), base, w⟩ =
      ⟨.pass (.subscription (.observer j (w.heap.nextId (.subject j)))), base,
        w.withHeap (w.heap.addObserver j x).2⟩ := by
  simp only [step, stepCommand, stepSubscribe, stepListen]
  rw [if_pos ha]
  rfl

theorem step_listen_dead
    (ha : ¬ (⟨.run (.subscribe (.subject j) x), base, w⟩ : State F C S).alive K (.subject j) = true) :
    step K ⟨.run (.subscribe (.subject j) x), base, w⟩ = ⟨.pass (.subscription .nothing), base, w⟩ := by
  simp only [step, stepCommand, stepSubscribe, stepListen]
  rw [if_neg ha]
  rfl

end Listen

section Tasks
variable {s : State F C S} {t : Task F C} {l : List (Task F C)}

theorem task_open (hg : s.world.heap.gateOpen i = true) :
    stepTask s (.deliver i next v) = s.goOn (.run (.deliver next v)) s.world.heap := by
  simp only [stepTask, hg, if_true]

theorem task_shut (hg : s.world.heap.gateOpen i = false) :
    stepTask s (.deliver i next v) = s.goOn (.pass .done) s.world.heap := by
  simp only [stepTask, hg, Bool.false_eq_true, if_false]

theorem step_schedule_later (hl : w.heap.tasks? i = some l) :
    step K ⟨.run (.schedule i t), base, w⟩ = ⟨.pass .done, base, w.withHeap (w.heap.setTasks i (l ++ [t]))⟩ := by
  simp only [step, stepCommand, stepSchedule, hl]
  rfl

theorem step_schedule_now (hl : w.heap.tasks? i = none) :
    step K ⟨.run (.schedule i t), base, w⟩ = stepTask ⟨.run (.schedule i t), base, w⟩ t := by
  simp only [step, stepCommand, stepSchedule, hl]

theorem step_drain_cons (hl : w.heap.tasks? i = some (t :: l)) :
    step K ⟨.run (.drain i n), base, w⟩ =
      stepTask ⟨.pass .done, .draining i n t :: base, w.withHeap (w.heap.setTasks i l)⟩ t := by
  simp only [step, stepCommand, stepDrain, hl]
  rfl

theorem step_drain_done (hl : ∀ t l, w.heap.tasks? i ≠ some (t :: l)) :
    step K ⟨.run (.drain i n), base, w⟩ = ⟨.pass (.count n), base, w⟩ := by
  simp only [step, stepCommand, stepDrain]
  rfl

end Tasks

section Set
variable {o : ObjectId} {p : String}

variable {root : ObjectId} {path : Path}

theorem step_write_none (ht : w.heap.target? root path = none) :
    step K ⟨.run (.write root path v), base, w⟩ = ⟨.pass (.flag false), base, w⟩ := by
  simp only [step, stepCommand, stepWrite, ht]
  rfl

theorem step_write_some (ht : w.heap.target? root path = some (o, p)) :
    step K ⟨.run (.write root path v), base, w⟩ = ⟨.run (.set o p v), base, w⟩ := by
  simp only [step, stepCommand, stepWrite, ht]
  rfl

end Set

section Frames
variable {signal : Signal C} {g : Nat} {inner : Stream F}

theorem frame_switching_stopped (hs : (w.heap.switch i).stopped = true) :
    stepFrame ⟨.pass signal, base, w⟩ signal (.switching i g inner next) = ⟨.pass .done, base, w⟩ := by
  simp only [stepFrame, hs, if_true]
  rfl

theorem frame_switching (hs : (w.heap.switch i).stopped = false) :
    stepFrame ⟨.pass signal, base, w⟩ signal (.switching i g inner next) =
      ⟨.run (.subscribe inner (.inner i g next)), .entering i g inner :: base, w⟩ := by
  simp only [stepFrame, hs, Bool.false_eq_true, if_false]
  rfl

theorem frame_entering (hg : (w.heap.switch i).generation = g) :
    stepFrame ⟨.pass signal, base, w⟩ signal (.entering i g inner) = ⟨.pass .done, base,
      w.withHeap (w.heap.setSwitch i { w.heap.switch i with current := some signal.teardown })⟩ := by
  simp only [stepFrame, hg, if_true]
  rfl

theorem frame_entering_late (hg : (w.heap.switch i).generation ≠ g) :
    stepFrame ⟨.pass signal, base, w⟩ signal (.entering i g inner) = ⟨.run (.undo signal.teardown), base, w⟩ := by
  simp only [stepFrame, hg, if_false]
  rfl

end Frames

end DataBinding.State
