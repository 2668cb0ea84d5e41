import DataBinding.Proofs.Generation.Groups
import DataBinding.Proofs.Supply.Building
/-!
# The functions that a pipeline applies

A walk through a pipeline, depth first and from left to right, comes to all stages it is made of
(`Staged.mem_walk_iff`). The slots that are listed for the pipeline are those that the walk comes to, each where
it comes first (`Staged.slots_eq`).

Observing takes the same way: it asks for one function after the other, and fails where the first one is not
supplied (`Staged.failsAs_observe`). So the slots tell what has to be supplied, and which of it is missed first
(`Staged.slots_exact`).
-/

namespace DataBinding

variable {F : Type} {a : Arguments F} {root : ObjectId} {stage stage' : Stage} {p q : Pipeline}

/-! ## The walk -/

mutual

/-- The stage, and then all that its inputs are made of. -/
def Stage.walk : Stage → List Stage
  | .combineLatest inputs => .combineLatest inputs :: walkInputs inputs
  | .merge inputs => .merge inputs :: walkInputs inputs
  | stage => [stage]

def walkInputs : List (Staged Stage) → List Stage
  | [] => []
  | p :: rest => walkPipeline p ++ walkInputs rest

def walkPipeline : Staged Stage → List Stage
  | ⟨first, operators⟩ => first.walk ++ walkOperators operators

def walkOperators : List Stage → List Stage
  | [] => []
  | stage :: rest => stage.walk ++ walkOperators rest

end

/-- All stages that a pipeline is made of, depth first and from left to right. -/
def Staged.walk (p : Pipeline) : List Stage := walkPipeline p

theorem Stage.walk_eq (stage : Stage) : stage.walk = stage :: stage.inputs.flatMap Staged.walk := by
  have hinputs : ∀ inputs : List Pipeline, walkInputs inputs = inputs.flatMap Staged.walk := by
    intro inputs
    induction inputs with
    | nil => rfl
    | cons p rest ih => rw [walkInputs, ih, List.flatMap_cons, Staged.walk]
  cases stage <;> simp [walk, inputs, hinputs]

theorem Staged.walk_eq (p : Pipeline) : p.walk = p.stages.flatMap Stage.walk := by
  have hoperators : ∀ operators : List Stage, walkOperators operators = operators.flatMap Stage.walk := by
    intro operators
    induction operators with
    | nil => rfl
    | cons stage rest ih => rw [walkOperators, ih, List.flatMap_cons]
  obtain ⟨first, operators⟩ := p
  rw [walk, walkPipeline, hoperators, stages, List.flatMap_cons]

/-- What is found from a stage is the stage, or what one of its inputs is made of. -/
theorem Stage.holds_iff {place place' : Place} : Holds place stage place' stage' ↔
    place' = place ∧ stage' = stage ∨ ∃ q ∈ stage.inputs, q.Has place' stage' := by
  constructor
  · intro h
    cases h with
    | self => exact .inl ⟨rfl, rfl⟩
    | head hq h => exact .inr ⟨_, hq, .inl h⟩
    | operator hq ho h => exact .inr ⟨_, hq, .inr ⟨_, ho, h⟩⟩
  · rintro (⟨rfl, rfl⟩ | ⟨q, hq, h | ⟨o, ho, h⟩⟩)
    · exact .self place' stage'
    · exact .head hq h
    · exact .operator hq ho h

namespace Staged

/-- What the inputs of its stages are made of belongs to a pipeline. -/
theorem Has.of_input {place : Stage.Place} (hs : stage ∈ p.stages) (hq : q ∈ stage.inputs)
    (h : q.Has place stage') : p.Has place stage' := by
  rcases List.mem_cons.1 hs with rfl | hs
  · exact .inl (Stage.holds_iff.2 (.inr ⟨q, hq, h⟩))
  · exact .inr ⟨stage, hs, Stage.holds_iff.2 (.inr ⟨q, hq, h⟩)⟩

/-- A pipeline is made of its stages and of what their inputs are made of. -/
theorem exists_has_iff : (∃ place, p.Has place stage) ↔
    ∃ stage' ∈ p.stages, stage = stage' ∨ ∃ q ∈ stage'.inputs, ∃ place, q.Has place stage := by
  constructor
  · rintro ⟨place, h | ⟨o, ho, h⟩⟩
    · exact ⟨p.first, List.mem_cons_self,
        (Stage.holds_iff.1 h).imp And.right fun ⟨q, hq, h⟩ => ⟨q, hq, place, h⟩⟩
    · exact ⟨o, List.mem_cons_of_mem _ ho,
        (Stage.holds_iff.1 h).imp And.right fun ⟨q, hq, h⟩ => ⟨q, hq, place, h⟩⟩
  · rintro ⟨stage', hs, rfl | ⟨q, hq, place, h⟩⟩
    · rcases List.mem_cons.1 hs with rfl | hs
      · exact ⟨.head, .inl (.self _ _)⟩
      · exact ⟨.operator, .inr ⟨stage, hs, .self _ _⟩⟩
    · exact ⟨place, h.of_input hs hq⟩

/-- The walk comes to what the pipeline is made of, and to nothing else. -/
theorem mem_walk_iff (p : Pipeline) (stage : Stage) : stage ∈ p.walk ↔ ∃ place, p.Has place stage := by
  induction p using inputs_induction with
  | step p ih =>
    rw [walk_eq, List.mem_flatMap, exists_has_iff]
    refine exists_congr fun stage' => and_congr_right fun hs => ?_
    rw [Stage.walk_eq, List.mem_cons, List.mem_flatMap]
    exact or_congr_right (exists_congr fun q => and_congr_right fun hq => ih stage' hs q hq)

/-- The slots of the functions that a pipeline applies, one for each stage that applies one. -/
def uses (p : Pipeline) : List Slot := p.walk.filterMap Stage.slot?

theorem mem_uses_iff (p : Pipeline) (slot : Slot) :
    slot ∈ p.uses ↔ ∃ place stage, p.Has place stage ∧ stage.slot? = some slot := by
  simp only [uses, List.mem_filterMap, mem_walk_iff]
  constructor
  · rintro ⟨stage, ⟨place, h⟩, hslot⟩
    exact ⟨place, stage, h, hslot⟩
  · rintro ⟨place, stage, h, hslot⟩
    exact ⟨stage, ⟨place, h⟩, hslot⟩

end Staged

/-- The slots of the functions that a stage and its inputs apply. -/
def Stage.uses (stage : Stage) : List Slot := stage.slot?.toList ++ stage.inputs.flatMap Staged.uses

theorem Staged.uses_eq (p : Pipeline) : p.uses = p.stages.flatMap Stage.uses := by
  rw [uses, walk_eq, List.filterMap_flatMap]
  refine List.flatMap_congr fun stage _ => ?_
  rw [Stage.walk_eq, List.filterMap_cons, List.filterMap_flatMap, Stage.uses]
  cases stage.slot? <;> rfl

/-! ## The slots that are listed -/

theorem Stage.collect_eq (slots : List Slot) (stage : Stage) :
    stage.collect slots = stage.inputs.foldl collectPipeline (stage.slot?.toList.foldl addSlot slots) := by
  have hinputs : ∀ (inputs : List Pipeline) (slots : List Slot),
      collectInputs slots inputs = inputs.foldl collectPipeline slots := by
    intro inputs
    induction inputs with
    | nil => exact fun _ => rfl
    | cons p rest ih => exact fun slots => by rw [collectInputs, ih, List.foldl_cons]
  cases stage <;> simp [collect, inputs, slot?, hinputs]

theorem collectPipeline_eq (slots : List Slot) (p : Pipeline) :
    collectPipeline slots p = p.stages.foldl Stage.collect slots := by
  have hoperators : ∀ (operators : List Stage) (slots : List Slot),
      collectOperators slots operators = operators.foldl Stage.collect slots := by
    intro operators
    induction operators with
    | nil => exact fun _ => rfl
    | cons stage rest ih => exact fun slots => by rw [collectOperators, ih, List.foldl_cons]
  obtain ⟨first, operators⟩ := p
  rw [collectPipeline, hoperators, Staged.stages, List.foldl_cons]

/-- Collecting adds the slots in the order of the walk. -/
theorem collectPipeline_eq_foldl (slots : List Slot) (p : Pipeline) :
    collectPipeline slots p = p.uses.foldl addSlot slots := by
  induction p using Staged.inputs_induction generalizing slots with
  | step p ih =>
    rw [collectPipeline_eq, Staged.uses_eq, List.foldl_flatMap]
    refine List.foldl_ext _ _ _ fun slots stage hs => ?_
    rw [Stage.collect_eq, Stage.uses, List.foldl_append, List.foldl_flatMap]
    exact List.foldl_ext _ _ _ fun slots q hq => ih stage hs q hq slots

theorem foldl_addSlot (l : List Slot) : l.foldl addSlot [] = l.eraseDups := by
  induction l using List.reverseRecOn with
  | nil => rfl
  | append_singleton l s ih =>
    rw [List.foldl_append, ih, eraseDups_concat]
    simp only [List.foldl_cons, List.foldl_nil, addSlot, List.mem_eraseDups]

/-- Each slot is listed where the walk first comes to it. -/
theorem Staged.slots_eq (p : Pipeline) : p.slots = p.uses.eraseDups := by
  rw [slots, collectPipeline_eq_foldl, foldl_addSlot]

/-! ## Observing -/

/-- Arguments that leave nothing out. -/
def Arguments.full : Arguments Unit := ⟨some (), some (), some (), some 0⟩

/-- All stages stand where they can run, if only everything is supplied. -/
def Staged.InPlace (p : Pipeline) : Prop := ∀ place stage, p.Has place stage → stage.Runs .full place

namespace Staged.InPlace

variable (h : p.InPlace)
include h

theorem isSource : p.first.isSource := h .head _ (.inl (.self _ _))

theorem operates (hs : stage ∈ p.operators) : stage.Operates := by
  have hruns : stage.Runs .full .operator := h .operator _ (.inr ⟨stage, hs, .self _ _⟩)
  cases stage <;> simp_all [Stage.Runs, Stage.Operates]

theorem of_input (hs : stage ∈ p.stages) (hq : q ∈ stage.inputs) : q.InPlace :=
  fun _ _ hst => h _ _ (hst.of_input hs hq)

end Staged.InPlace

/-- A source asks for what its inputs ask for. -/
theorem Stage.failsAs_start (hsource : stage.isSource)
    (h : ∀ q ∈ stage.inputs, FailsAs (q.observe root a) a.function q.uses) :
    FailsAs (stage.start root a) a.function stage.uses := by
  cases stage with
  | watch | constant => exact .ok _
  | combineLatest inputs | merge inputs =>
    rw [start, observeInputs_eq_mapM]
    exact (FailsAs.mapM h).map _
  | _ => cases hsource

/-- An operator asks for its function; a scheduler is there. -/
theorem Stage.failsAs_applyTo (ha : a.scheduler.isSome) (hs : stage.Operates) (x : Stream F) :
    FailsAs (stage.applyTo root a x) a.function stage.uses := by
  cases stage with
  | select slot | convert slot => exact (FailsAs.one a.function slot).map _
  | observeOn =>
    obtain ⟨i, hi⟩ := Arguments.exists_needScheduler_iff.2 ha
    rw [applyTo, hi]
    exact .ok _
  | chain | wrap | distinct | skip | emptyIfNull | switch => exact .ok _
  | watch | constant | combineLatest | merge | tag => exact hs.elim

/-- Observing fails as looking up the functions does, in the order of the walk. -/
theorem Staged.failsAs_observe (ha : a.scheduler.isSome) (h : p.InPlace) :
    FailsAs (p.observe root a) a.function p.uses := by
  induction p using inputs_induction with
  | step p ih =>
    have hinputs : ∀ stage ∈ p.stages, ∀ q ∈ stage.inputs, FailsAs (q.observe root a) a.function q.uses :=
      fun stage hs q hq => ih stage hs q hq (h.of_input hs hq)
    obtain ⟨first, operators⟩ := p
    rw [observe, observePipeline, uses_eq, stages, List.flatMap_cons]
    refine (Stage.failsAs_start h.isSource (hinputs first List.mem_cons_self)).bind fun x => ?_
    exact FailsAs.foldlM (fun stage hs y => Stage.failsAs_applyTo ha (h.operates hs) y) x

/-- What comes again is not the first to fail. -/
theorem firstError_eraseDups {f : Slot → Except RunError F} {l : List Slot} {e : RunError} :
    FirstError f l.eraseDups e ↔ FirstError f l e := by
  induction l using List.reverseRecOn with
  | nil => rfl
  | append_singleton l s ih =>
    rw [eraseDups_concat, firstError_append]
    split
    · next hs =>
      rw [ih, iff_self_or]
      rintro ⟨hall, hlast⟩
      exact (hlast.not_forall (List.forall_mem_singleton.2 (hall s hs))).elim
    · rw [firstError_append, ih]
      simp only [List.mem_eraseDups]

theorem Arguments.function_eq_error_iff {slot : Slot} {e : RunError} :
    a.function slot = .error e ↔ a.slot? slot = none ∧ e = .missingArgument slot := by
  unfold function
  cases a.slot? slot <;> simp [eq_comm]

/-- **The slots of a pipeline tell what has to be supplied.** They are the slots of the stages that apply a
function, wherever these stand, in the order in which a walk through the pipeline comes to them, and none is
listed twice. If the stages stand where they can run and there is a scheduler, the pipeline is observed just if
functions are supplied for all of these slots, and otherwise the first slot without one is reported. -/
theorem Staged.slots_exact (p : Pipeline) :
    p.slots = (p.walk.filterMap Stage.slot?).eraseDups ∧
    p.slots.Nodup ∧
    (∀ slot, slot ∈ p.slots ↔ ∃ place stage, p.Has place stage ∧ stage.slot? = some slot) ∧
    (p.InPlace → ∀ (F : Type) (root : ObjectId) (a : Arguments F), a.scheduler.isSome →
      ((∃ x, p.observe root a = .ok x) ↔ ∀ slot ∈ p.slots, (a.slot? slot).isSome) ∧
      ∀ e, p.observe root a = .error e ↔ ∃ before slot after, p.slots = before ++ slot :: after ∧
        (∀ s ∈ before, (a.slot? s).isSome) ∧ a.slot? slot = none ∧ e = .missingArgument slot) := by
  refine ⟨p.slots_eq, p.slots_eq ▸ nodup_eraseDups _, fun slot => ?_, fun h F root a ha => ?_⟩
  · rw [p.slots_eq, List.mem_eraseDups, p.mem_uses_iff]
  · have hfails : FailsAs (p.observe root a) a.function p.slots := by
      intro e
      rw [p.slots_eq, firstError_eraseDups]
      exact p.failsAs_observe ha h e
    refine ⟨?_, fun e => ?_⟩
    · simp only [hfails.exists_ok_iff, Arguments.exists_function_iff]
    · simp only [hfails e, FirstError, Arguments.exists_function_iff, Arguments.function_eq_error_iff]

/-- The label of a person, converted, joined with a selection from the merged names of two others. -/
def labels : Pipeline :=
  let name : Stage := .watch ⟨"name", ⟨"String", false⟩, ⟨"Person", false⟩⟩ .after
  ⟨.combineLatest [⟨name, [.distinct, .convert .converter]⟩,
    ⟨.merge [⟨name, [.convert .backConverter]⟩, ⟨name, [.select .selector]⟩], [.convert .converter]⟩],
    [.select .selector, .observeOn]⟩

/-- Of the three functions only the one that is asked for first is supplied. -/
theorem labels_lack_back_converter : labels.InPlace ∧ labels.slots = [.converter, .backConverter, .selector] ∧
    labels.observe 0 { (default : Arguments Unit) with converter := some (), scheduler := some 4 } =
      .error (.missingArgument .backConverter) := by
  have hrun : ∃ x, labels.observe 0 Arguments.full = .ok x := ⟨_, rfl⟩
  have hplace : labels.InPlace := labels.exists_observe_iff.1 hrun
  obtain ⟨-, -, -, hobserve⟩ := labels.slots_exact
  have hmissing := (hobserve hplace Unit 0 { (default : Arguments Unit) with
    converter := some (), scheduler := some 4 } rfl).2 (.missingArgument .backConverter)
  exact ⟨hplace, rfl, hmissing.2 ⟨[.converter], .backConverter, [.selector], rfl, by decide, rfl, rfl⟩⟩

end DataBinding
