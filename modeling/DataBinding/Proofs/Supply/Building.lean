import DataBinding.Proofs.Outcomes
import DataBinding.Proofs.Supply.Needs
/-!
# Plans that cannot be run

Any stage may stand anywhere in a plan that is put together by hand, but not every stage can run where it
stands (`Stage.Runs`): what a plan is made of is told together with the place where it stands (`Pipeline.Has`,
`BindingPlan.Has`), inputs of inputs included.

A pipeline can be observed exactly if each of its stages runs where it stands (`Staged.exists_observe_iff`), and
a binding can be activated exactly if this holds for both directions (`BindingPlan.exists_activate_iff`).
-/

namespace DataBinding

variable {F C : Type} {a : Arguments F} {root : ObjectId}

/-- Where in a plan a stage stands. -/
inductive Stage.Place where
  /-- At the head of a pipeline. -/
  | head
  /-- Among the operators of a pipeline. -/
  | operator
  /-- Among the operators of a direction of a binding, tagged or not. -/
  | direction (tagged : Bool)
deriving DecidableEq

namespace Stage

/-- The pipelines that a stage joins. -/
def inputs : Stage → List Pipeline
  | .combineLatest inputs | .merge inputs => inputs
  | _ => []

/-- A stage at this place can run with these arguments. -/
def Runs (a : Arguments F) : Place → Stage → Prop
  | .head, stage => stage.isSource
  | _, .watch .. | _, .constant _ | _, .combineLatest _ | _, .merge _ => False
  | _, .select slot | _, .convert slot => (a.slot? slot).isSome
  | _, .observeOn => a.scheduler.isSome
  | place, .tag _ => place = .direction true
  | _, _ => True

/-- What is found from a stage at some place: the stage itself, and all that its inputs are made of. -/
inductive Holds : Place → Stage → Place → Stage → Prop where
  | self (place : Place) (stage : Stage) : Holds place stage place stage
  | head {place : Place} {stage : Stage} {p : Pipeline} (hp : p ∈ stage.inputs) {place' : Place}
      {stage' : Stage} (h : Holds .head p.first place' stage') : Holds place stage place' stage'
  | operator {place : Place} {stage : Stage} {p : Pipeline} (hp : p ∈ stage.inputs) {o : Stage}
      (ho : o ∈ p.operators) {place' : Place} {stage' : Stage} (h : Holds .operator o place' stage') :
      Holds place stage place' stage'

end Stage

/-- The stage stands at this place of the pipeline, or of one that it joins. -/
def Staged.Has (p : Pipeline) (place : Stage.Place) (stage : Stage) : Prop :=
  Stage.Holds .head p.first place stage ∨ ∃ o ∈ p.operators, Stage.Holds .operator o place stage

namespace BindingPlan

/-- The stage stands at this place of a direction: in its pipeline, or among its operators. -/
def Directed (tagged : Bool) (p : Pipeline) (operators : List Stage) (place : Stage.Place) (stage : Stage) : Prop :=
  p.Has place stage ∨ ∃ o ∈ operators, Stage.Holds (.direction tagged) o place stage

/-- The stage stands at this place of the binding. There is a direction to the source only if there is a
pipeline of the target. -/
def Has (b : BindingPlan) (place : Stage.Place) (stage : Stage) : Prop :=
  Directed (b.mode = .tagged) b.source b.toTarget place stage ∨
    ∃ p, b.target = some p ∧ Directed (b.mode = .tagged) p b.toSource place stage

end BindingPlan

/-! ## Pipelines within pipelines -/

theorem Stage.sizeOf_lt_of_mem_inputs {stage : Stage} {q : Pipeline} (hq : q ∈ stage.inputs) :
    sizeOf q < sizeOf stage := by
  cases stage <;> simp only [inputs, List.not_mem_nil] at hq
  all_goals
    have := List.sizeOf_lt_of_mem hq
    simp
    omega

namespace Staged

theorem sizeOf_lt_of_mem_stages {p : Pipeline} {stage : Stage} (hs : stage ∈ p.stages) :
    sizeOf stage < sizeOf p := by
  obtain ⟨first, operators⟩ := p
  have hs : stage = first ∨ stage ∈ operators := List.mem_cons.1 hs
  rcases hs with rfl | hs
  · simp
    omega
  · have := List.sizeOf_lt_of_mem hs
    simp
    omega

/-- What holds of a pipeline if it does of all that its stages join holds of every pipeline. -/
@[elab_as_elim]
theorem inputs_induction {P : Pipeline → Prop}
    (step : ∀ p : Pipeline, (∀ stage ∈ p.stages, ∀ q ∈ stage.inputs, P q) → P p) (p : Pipeline) : P p :=
  step p fun _ hs q hq =>
    have := Nat.lt_trans (Stage.sizeOf_lt_of_mem_inputs hq) (sizeOf_lt_of_mem_stages hs)
    inputs_induction step q
termination_by sizeOf p

end Staged

/-! ## Stages -/

theorem Arguments.exists_function_iff {slot : Slot} : (∃ f, a.function slot = .ok f) ↔ (a.slot? slot).isSome := by
  unfold function
  cases a.slot? slot <;> simp

theorem Arguments.exists_needScheduler_iff : (∃ i, a.needScheduler = .ok i) ↔ a.scheduler.isSome := by
  unfold needScheduler
  cases a.scheduler <;> simp

namespace Stage

variable {stage : Stage} {operators : List Stage}

/-- An operator is applied exactly if it runs among the operators of a pipeline. -/
theorem exists_applyTo_iff (stage : Stage) (x : Stream F) :
    (∃ y, stage.applyTo root a x = .ok y) ↔ stage.Runs a .operator := by
  cases stage with
  | select slot | convert slot =>
    simp only [applyTo, Runs, ← Arguments.exists_function_iff]
    exact exists_map_iff
  | observeOn =>
    simp only [applyTo, Runs, ← Arguments.exists_needScheduler_iff]
    exact exists_map_iff
  | _ => simp [applyTo, Runs]

/-- An operator of a direction is applied exactly if it runs there; where there is nowhere to publish to, tags
are noted all the same. -/
theorem exists_carry_iff (stage : Stage) (x : Stream F × Option Side) :
    (∃ y, stage.carry root a x = .ok y) ↔ stage.Runs a (.direction true) := by
  by_cases hs : ∃ side, stage = .tag side
  · obtain ⟨side, rfl⟩ := hs
    simp [carry, Runs]
  · rw [carry_eq_map (not_exists.1 hs), exists_map_iff, exists_applyTo_iff]
    cases stage with
    | tag side => exact absurd ⟨side, rfl⟩ hs
    | _ => rfl

/-- Where nothing is tagged, the same operators run but for the tags. -/
theorem runs_untagged_iff :
    stage.Runs a (.direction false) ↔ stage.Runs a (.direction true) ∧ ∀ side, stage ≠ .tag side := by
  cases stage with
  | tag side => simp [Runs]
  | _ => exact ⟨fun h => ⟨h, nofun⟩, And.left⟩

/-- A side is noted exactly if there is a tag. -/
theorem isSome_carry {x y : Stream F × Option Side} (hy : operators.foldlM (carry root a) x = .ok y) :
    y.2.isSome ↔ x.2.isSome ∨ ∃ side, .tag side ∈ operators := by
  induction operators generalizing x with
  | nil =>
    cases hy
    simp
  | cons stage rest ih =>
    rw [List.foldlM_cons] at hy
    obtain ⟨z, hz, hy⟩ := bind_eq_ok_iff.1 hy
    rw [ih hy]
    by_cases hs : ∃ side, stage = .tag side
    · obtain ⟨side, rfl⟩ := hs
      cases hz
      simp
    · rw [carry_eq_map (not_exists.1 hs)] at hz
      obtain ⟨_, -, rfl⟩ := map_eq_ok_iff.1 hz
      have hnone : ∀ side, .tag side ≠ stage := fun side he => hs ⟨side, he.symm⟩
      simp [hnone]

/-- A stage starts a pipeline exactly if it is a source all of whose inputs can be observed. -/
theorem exists_start_iff (stage : Stage) : (∃ x, stage.start root a = .ok x) ↔
    stage.isSource ∧ ∀ p ∈ stage.inputs, ∃ x, p.observe root a = .ok x := by
  cases stage with
  | combineLatest inputs | merge inputs =>
    simp only [start, exists_map_iff, observeInputs_eq_mapM, exists_mapM_iff]
    simp [isSource, Stage.inputs]
  | _ => simp [start, isSource, Stage.inputs]

/-- All that is found from a stage runs. -/
def Sound (a : Arguments F) (place : Place) (stage : Stage) : Prop :=
  ∀ place' stage', Holds place stage place' stage' → stage'.Runs a place'

/-- An operator that runs joins nothing. -/
theorem inputs_of_runs {place : Place} (hp : place ≠ .head) (h : stage.Runs a place) : stage.inputs = [] := by
  cases stage with
  | combineLatest | merge =>
    cases place with
    | head => exact absurd rfl hp
    | _ => exact h.elim
  | _ => rfl

theorem sound_operator_iff {place : Place} (hp : place ≠ .head) : stage.Sound a place ↔ stage.Runs a place := by
  constructor
  · exact fun h => h place stage (.self place stage)
  · intro h place' stage' hw
    have hnone := inputs_of_runs hp h
    cases hw with
    | self => exact h
    | head hmem => simp [hnone] at hmem
    | operator hmem => simp [hnone] at hmem

theorem sound_head_iff : stage.Sound a .head ↔ stage.isSource ∧ ∀ p ∈ stage.inputs,
    p.first.Sound a .head ∧ ∀ o ∈ p.operators, o.Runs a .operator := by
  constructor
  · intro h
    refine ⟨h _ _ (.self .head stage), fun p hp => ⟨fun _ _ hw => h _ _ (.head hp hw), fun o ho => ?_⟩⟩
    exact h _ _ (.operator hp ho (.self .operator o))
  · rintro ⟨hsource, hinputs⟩ place' stage' hw
    cases hw with
    | self => exact hsource
    | head hp hw => exact (hinputs _ hp).1 _ _ hw
    | operator hp ho hw => exact (sound_operator_iff (by simp)).2 ((hinputs _ hp).2 _ ho) _ _ hw

end Stage

/-! ## Pipelines -/

namespace Staged

theorem exists_observe_iff_operators (p : Pipeline) : (∃ x, p.observe root a = .ok x) ↔
    (∃ x, p.first.start root a = .ok x) ∧ ∀ o ∈ p.operators, o.Runs a .operator := by
  obtain ⟨first, operators⟩ := p
  rw [observe, observePipeline]
  exact exists_bind_iff fun x _ => exists_foldlM_iff (fun y o _ => Stage.exists_applyTo_iff o y) x

/-- A pipeline can be observed exactly if its head and all its operators are sound. -/
theorem exists_observe_iff_sound (p : Pipeline) : (∃ x, p.observe root a = .ok x) ↔
    p.first.Sound a .head ∧ ∀ o ∈ p.operators, o.Runs a .operator := by
  induction p using inputs_induction with
  | step p ih =>
    rw [exists_observe_iff_operators, Stage.exists_start_iff, Stage.sound_head_iff]
    exact and_congr_left' (and_congr_right' (forall₂_congr fun q hq => ih _ List.mem_cons_self q hq))

/-- Operators hold just themselves, if they run. -/
theorem sound_operators_iff {place : Stage.Place} (hp : place ≠ .head) {operators : List Stage} :
    (∀ place' stage, (∃ o ∈ operators, Stage.Holds place o place' stage) → stage.Runs a place') ↔
      ∀ o ∈ operators, o.Runs a place := by
  simp only [← Stage.sound_operator_iff (a := a) hp, Stage.Sound]
  exact ⟨fun h o ho _ _ hw => h _ _ ⟨o, ho, hw⟩, fun h _ _ ⟨o, ho, hw⟩ => h o ho _ _ hw⟩

/-- A pipeline can be observed exactly if each of its stages runs where it stands. -/
theorem exists_observe_iff (p : Pipeline) :
    (∃ x, p.observe root a = .ok x) ↔ ∀ place stage, p.Has place stage → stage.Runs a place := by
  rw [exists_observe_iff_sound, ← sound_operators_iff (by simp)]
  exact ⟨fun h place stage hs => hs.elim (h.1 place stage) (h.2 place stage),
    fun h => ⟨fun place stage hs => h place stage (.inl hs), fun place stage hs => h place stage (.inr hs)⟩⟩

end Staged

/-! ## Bindings -/

namespace BindingPlan

variable {p : Pipeline} {operators : List Stage} {changes : Option SubjectId}

/-- All operators of a direction are applied, and there is somewhere to publish to if there is a tag. -/
theorem exists_direction_iff_runs : (∃ d, direction root a p operators changes = .ok d) ↔
    (∃ x, p.observe root a = .ok x) ∧ ∀ o ∈ operators, o.Runs a (.direction changes.isSome) := by
  refine exists_bind_iff fun x _ => ?_
  have hcarried : (∃ y, applyOperators root a x operators = .ok y) ↔ ∀ o ∈ operators, o.Runs a (.direction true) :=
    exists_foldlM_iff (fun y o _ => Stage.exists_carry_iff o y) (x, none)
  cases changes with
  | some subject =>
    rw [Option.isSome_some, ← hcarried, ← and_true (∃ y, applyOperators root a x operators = .ok y)]
    refine exists_bind_iff fun y _ => ?_
    obtain ⟨y, side⟩ := y
    cases side <;> simp [pure, Except.pure]
  | none =>
    have hplain : (∀ o ∈ operators, o.Runs a (.direction false)) ↔
        (∀ o ∈ operators, o.Runs a (.direction true)) ∧ ∀ side, .tag side ∉ operators := by
      simp only [Stage.runs_untagged_iff]
      exact ⟨fun h => ⟨fun o ho => (h o ho).1, fun side hs => (h _ hs).2 side rfl⟩,
        fun h o ho => ⟨h.1 o ho, fun side he => h.2 side (he ▸ ho)⟩⟩
    rw [Option.isSome_none, hplain, ← hcarried]
    refine exists_bind_iff fun y hy => ?_
    have hside := Stage.isSome_carry hy
    obtain ⟨y, side⟩ := y
    cases side <;> simp_all [pure, Except.pure]

/-- A direction can be built exactly if each stage runs where it stands. -/
theorem exists_direction_iff : (∃ d, direction root a p operators changes = .ok d) ↔
    ∀ place stage, Directed changes.isSome p operators place stage → stage.Runs a place := by
  rw [exists_direction_iff_runs, Staged.exists_observe_iff, ← Staged.sound_operators_iff (by simp)]
  exact ⟨fun h place stage hs => hs.elim (h.1 place stage) (h.2 place stage),
    fun h => ⟨fun place stage hs => h place stage (.inl hs), fun place stage hs => h place stage (.inr hs)⟩⟩

/-- The direction to the source, if there is one. -/
theorem exists_backward_iff (target : Option Pipeline) (root : ObjectId) :
    (∃ d, target.mapM (fun p => direction root a p operators changes) = .ok d) ↔
      ∀ p, target = some p → ∃ d, direction root a p operators changes = .ok d := by
  cases target with
  | none => simp [pure, Except.pure]
  | some p =>
    simp only [Option.mapM_some, Option.some.injEq, forall_eq']
    exact exists_map_iff

/-- Both directions can be built exactly if each stage of the binding runs where it stands. -/
theorem exists_wire_iff (b : BindingPlan) (source target : ObjectId)
    (hc : changes.isSome = decide (b.mode = .tagged)) : (∃ x, b.wire a source target changes = .ok x) ↔
      ∀ place stage, b.Has place stage → stage.Runs a place := by
  have hboth : (∃ x, b.wire a source target changes = .ok x) ↔
      (∃ d, direction source a b.source b.toTarget changes = .ok d) ∧
        ∀ p, b.target = some p → ∃ d, direction target a p b.toSource changes = .ok d := by
    refine exists_bind_iff fun x _ => ?_
    rw [← exists_backward_iff]
    exact exists_map_iff
  simp only [hboth, exists_direction_iff, hc]
  constructor
  · rintro ⟨hsource, htarget⟩ place stage (hs | ⟨p, hp, hs⟩)
    · exact hsource place stage hs
    · exact htarget p hp place stage hs
  · exact fun h => ⟨fun place stage hs => h place stage (.inl hs),
      fun p hp place stage hs => h place stage (.inr ⟨p, hp, hs⟩)⟩

/-- A binding can be activated exactly if each of its stages runs where it stands. -/
theorem exists_activate_iff (b : BindingPlan) (source target : ObjectId) (h : Heap F C) :
    (∃ x, (b.activate source target a h).1 = .ok x) ↔ ∀ place stage, b.Has place stage → stage.Runs a place := by
  have hc : (if b.mode = .tagged then some h.subjects.size else none).isSome = decide (b.mode = .tagged) := by
    split <;> simp_all
  rw [← exists_wire_iff b source target hc]
  exact exists_map_iff

end BindingPlan
end DataBinding
