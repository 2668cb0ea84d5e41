import DataBinding.Live.Dispatcher
import DataBinding.Proofs.Supply.Building
/-!
# What a failure leaves

Activating a binding and invoking an entry point leave a heap in which all that was there is as it was
(`BindingPlan.untouched_activate`, `Dispatcher.untouched_invoke`): what is to be subscribed to is part of the outcome,
so where they fail nothing is.

Neither of them, nor observing, applies a function. They only look at which ones are supplied: with others in the same
slots, and on any other heap, they fail with the same error or not at all (`Staged.parallel_observe`,
`BindingPlan.parallel_activate`, `Dispatcher.parallel_invoke`).
-/

namespace DataBinding

variable {F F' C C' : Type}

/-! ## The heap -/

/-- What was there is as it was, and what is new is no more than subjects to which nobody has subscribed. -/
structure Heap.Untouched (h h' : Heap F C) : Prop where
  /-- Objects have their properties and handlers, and queues their tasks. -/
  others : h' = { h with subjects := h'.subjects }
  /-- Subjects have their observers. -/
  subjects : ∀ j < h.subjects.size, h'.subjects[j]? = h.subjects[j]?
  unheard : ∀ j, h.subjects.size ≤ j → h'.observers j = []

namespace Heap

variable {h h' : Heap F C}

theorem Untouched.refl (h : Heap F C) : h.Untouched h where
  others := rfl
  subjects _ _ := rfl
  unheard j hj := by simp [observers, Array.getElem?_eq_none hj]

theorem untouched_newSubject (h : Heap F C) : h.Untouched h.newSubject.2 where
  others := rfl
  subjects j hj := by simp only [newSubject, Array.getElem?_push, if_neg (Nat.ne_of_lt hj)]
  unheard j hj := by
    simp only [observers, newSubject, Array.getElem?_push]
    split
    · rfl
    · simp [Array.getElem?_eq_none hj]

end Heap

/-- A tagged binding has got a subject for its changes, whether or not it could be wired then. -/
theorem BindingPlan.untouched_activate (b : BindingPlan) (source target : ObjectId) (a : Arguments F) (h : Heap F C) :
    h.Untouched (b.activate source target a h).2 := by
  unfold activate
  dsimp only
  split
  · exact h.untouched_newSubject
  · exact .refl h

theorem Dispatcher.untouched_invoke (d : Dispatcher) (name : String) (c : Caller) (receiver : ObjectId)
    (source : Option ObjectId) (a : Arguments F) (h : Heap F C) :
    h.Untouched (d.invoke name c receiver source a h).2 := by
  unfold invoke
  cases d.resolve name c with
  | error e => exact .refl h
  | ok i =>
    obtain ⟨name', site, plan⟩ := i
    cases plan with
    | observation p => exact .refl h
    | binding b =>
      cases source with
      | none => exact .refl h
      | some source => exact b.untouched_activate source receiver a h

/-! ## The functions -/

/-- The same slots are filled, with whatever functions, and there is a scheduler for both or for neither. -/
structure Arguments.SameSupply (a : Arguments F) (a' : Arguments F') : Prop where
  slots : ∀ slot, (a.slot? slot).isSome = (a'.slot? slot).isSome
  scheduler : a.scheduler.isSome = a'.scheduler.isSome

/-- Outcomes that are both the same error, or none. -/
abbrev FailAlike {ε α β : Type} (r : Except ε α) (r' : Except ε β) : Prop := Parallel (fun _ _ => True) r r'

section

variable {a : Arguments F} {a' : Arguments F'} (ha : a.SameSupply a') {root root' : ObjectId}
include ha

theorem Arguments.SameSupply.function (slot : Slot) : FailAlike (a.function slot) (a'.function slot) := by
  have hslot := ha.slots slot
  unfold Arguments.function
  cases h : a.slot? slot <;> cases h' : a'.slot? slot <;> simp_all [Parallel]

theorem Arguments.SameSupply.needScheduler : FailAlike a.needScheduler a'.needScheduler := by
  have hscheduler := ha.scheduler
  unfold Arguments.needScheduler
  cases h : a.scheduler <;> cases h' : a'.scheduler <;> simp_all [Parallel]

namespace Stage

theorem parallel_applyTo (stage : Stage) (x : Stream F) (x' : Stream F') :
    FailAlike (stage.applyTo root a x) (stage.applyTo root' a' x') := by
  cases stage with
  | select slot | convert slot => exact (ha.function slot).map fun _ _ _ => trivial
  | observeOn => exact ha.needScheduler.map fun _ _ _ => trivial
  | chain | wrap | distinct | skip | emptyIfNull | switch => exact trivial
  | watch | constant | combineLatest | merge | tag => exact rfl

/-- The side that is noted is the same. -/
theorem parallel_carry (stage : Stage) {x : Stream F × Option Side} {x' : Stream F' × Option Side}
    (hx : x.2 = x'.2) :
    Parallel (fun y y' => y.2 = y'.2) (stage.carry root a x) (stage.carry root' a' x') := by
  by_cases hs : ∃ side, stage = .tag side
  · obtain ⟨side, rfl⟩ := hs
    exact rfl
  · rw [carry_eq_map (not_exists.1 hs), carry_eq_map (not_exists.1 hs)]
    exact (parallel_applyTo ha stage x.1 x'.1).map fun _ _ _ => hx

end Stage

namespace Staged

/-- A pipeline is observed with both arguments, or fails with the same error. -/
theorem parallel_observe (p : Pipeline) : FailAlike (p.observe root a) (p.observe root' a') := by
  induction p using inputs_induction with
  | step p ih =>
    obtain ⟨first, operators⟩ := p
    have hinputs : ∀ q ∈ first.inputs, FailAlike (q.observe root a) (q.observe root' a') :=
      ih first List.mem_cons_self
    have hstart : FailAlike (first.start root a) (first.start root' a') := by
      cases first with
      | watch | constant => exact trivial
      | combineLatest inputs | merge inputs =>
        rw [Stage.start, Stage.start, observeInputs_eq_mapM, observeInputs_eq_mapM]
        exact (Parallel.mapM hinputs).map fun _ _ _ => trivial
      | _ => exact rfl
    exact hstart.bind fun _ _ _ => .foldlM (fun o _ y y' _ => o.parallel_applyTo ha y y') trivial

end Staged

namespace BindingPlan

theorem parallel_direction (p : Pipeline) (operators : List Stage) {changes changes' : Option SubjectId}
    (hc : changes.isSome = changes'.isSome) :
    FailAlike (direction root a p operators changes) (direction root' a' p operators changes') := by
  refine (p.parallel_observe ha).bind fun x x' _ => ?_
  have happlied : Parallel (fun y y' => y.2 = y'.2) (applyOperators root a x operators)
      (applyOperators root' a' x' operators) := by
    rw [applyOperators_eq_foldlM, applyOperators_eq_foldlM]
    exact .foldlM (fun o _ y y' hy => o.parallel_carry ha hy) rfl
  refine happlied.bind ?_
  rintro ⟨y, side⟩ ⟨y', _⟩ rfl
  -- a side that is noted fails for both if there is nowhere to publish to
  cases side with
  | none => exact trivial
  | some side =>
    cases changes <;> cases changes'
    case none.none => exact rfl
    case some.some => exact trivial
    all_goals cases hc

theorem parallel_activate (b : BindingPlan) (source target : ObjectId) (h : Heap F C) (h' : Heap F' C') :
    FailAlike (b.activate source target a h).1 (b.activate source target a' h').1 := by
  have hc : (if b.mode = .tagged then some h.subjects.size else none).isSome =
      (if b.mode = .tagged then some h'.subjects.size else none).isSome := by
    split <;> rfl
  refine Parallel.map (R := fun _ _ => True) ?_ fun _ _ _ => trivial
  refine (parallel_direction ha b.source b.toTarget hc).bind fun d d' _ => ?_
  refine Parallel.bind (R := fun _ _ => True) ?_ fun _ _ _ => trivial
  cases b.target with
  | none => exact trivial
  | some p => exact (parallel_direction ha p b.toSource hc).map fun _ _ _ => trivial

end BindingPlan

theorem Dispatcher.parallel_invoke (d : Dispatcher) (name : String) (c : Caller) (receiver : ObjectId)
    (source : Option ObjectId) (h : Heap F C) (h' : Heap F' C') :
    FailAlike (d.invoke name c receiver source a h).1 (d.invoke name c receiver source a' h').1 := by
  unfold invoke
  cases d.resolve name c with
  | error e => exact rfl
  | ok i =>
    obtain ⟨name', site, plan⟩ := i
    cases plan with
    | observation p => exact (p.parallel_observe ha).map fun _ _ _ => trivial
    | binding b =>
      cases source with
      | none => exact rfl
      | some source => exact (b.parallel_activate ha source receiver h h').map fun _ _ _ => trivial

end

end DataBinding
