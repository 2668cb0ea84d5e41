import DataBinding.Dispatch
import DataBinding.Live.Binding
import DataBinding.Proofs.CallSite.Accepted
import DataBinding.Proofs.TwoWay.Wiring
/-!
# What a caller has to supply

Stages that apply a function or deliver on a scheduler need it from the caller (`Stage.need?`), and so do the
parameters of an entry point that stand for one (`Role.need?`). An outcome fits what is needed if it is a
success just when all of that is supplied, and otherwise the error that names something that is not
(`Arguments.Fits`). The plan of a call site that is accepted fits what its parameters ask for, whether it is
observed (`CallSite.fits_observation`) or wired (`CallSite.fits_activate`): so it is never an invalid plan.
-/

namespace DataBinding

variable {F C : Type} {a : Arguments F} {root : ObjectId}

/-- What a caller has to supply: the function for a slot, or a scheduler. -/
inductive Need where
  | function (slot : Slot)
  | scheduler
deriving DecidableEq

/-- What is needed for a parameter. -/
def Role.need? : Role → Option Need
  | .selector .. => some (.function .selector)
  | .converter .. => some (.function .converter)
  | .backConverter .. => some (.function .backConverter)
  | .scheduler => some .scheduler
  | _ => none

/-- What is needed for a stage. -/
def Stage.need? : Stage → Option Need
  | .select slot | .convert slot => some (.function slot)
  | .observeOn => some .scheduler
  | _ => none

/-- The error if this is not supplied. -/
def Need.missing? (a : Arguments F) : Need → Option RunError
  | .function slot => if (a.slot? slot).isSome then none else some (.missingArgument slot)
  | .scheduler => if a.scheduler.isSome then none else some .missingScheduler

/-- A success, and all that is needed is supplied; or the error that something needed is not supplied. -/
def Arguments.Fits {α : Type} (a : Arguments F) (needs : List Need) : Except RunError α → Prop
  | .ok _ => ∀ n ∈ needs, n.missing? a = none
  | .error e => ∃ n ∈ needs, n.missing? a = some e

namespace Arguments.Fits

variable {α β : Type} {needs needs' : List Need} {r : Except RunError α} {f : α → Except RunError β}

theorem pure (x : α) : a.Fits [] (.ok x : Except RunError α) := by
  intro n hn
  cases hn

theorem congr (h : a.Fits needs r) (hn : ∀ n, n ∈ needs ↔ n ∈ needs') : a.Fits needs' r := by
  cases r with
  | error e =>
    obtain ⟨n, hm, he⟩ := h
    exact ⟨n, (hn n).1 hm, he⟩
  | ok x =>
    intro n hm
    exact h n ((hn n).2 hm)

/-- One thing after the other needs what both need. -/
theorem bind (h : a.Fits needs r) (hf : ∀ x, r = .ok x → a.Fits needs' (f x)) :
    a.Fits (needs ++ needs') (r >>= f) := by
  cases r with
  | error e =>
    obtain ⟨n, hm, he⟩ := h
    exact ⟨n, List.mem_append_left _ hm, he⟩
  | ok x =>
    have hx := hf x rfl
    change a.Fits (needs ++ needs') (f x)
    cases hfx : f x with
    | error e =>
      rw [hfx] at hx
      obtain ⟨n, hm, he⟩ := hx
      exact ⟨n, List.mem_append_right _ hm, he⟩
    | ok y =>
      rw [hfx] at hx
      exact List.forall_mem_append.2 ⟨h, hx⟩

theorem map (h : a.Fits needs r) (g : α → β) : a.Fits needs (r.map g) := by
  cases r <;> exact h

/-- A plan that fits is not an invalid one. -/
theorem ne_invalidPlan (h : a.Fits needs r) (reason : Misplaced) : r ≠ .error (.invalidPlan reason) := by
  rintro rfl
  obtain ⟨n, -, he⟩ := h
  cases n <;> simp only [Need.missing?] at he <;> split at he <;> cases he

end Arguments.Fits

/-! ## Stages -/

/-- The stage can follow a source, in a binding or elsewhere. -/
def Stage.Operates : Stage → Prop
  | .watch .. | .constant .. | .combineLatest .. | .merge .. | .tag _ => False
  | _ => True

theorem fits_function (a : Arguments F) (slot : Slot) : a.Fits [.function slot] (a.function slot) := by
  unfold Arguments.function
  cases h : a.slot? slot with
  | none => exact ⟨_, List.mem_singleton_self _, by simp [Need.missing?, h]⟩
  | some f => simp [Arguments.Fits, Need.missing?, h]

theorem fits_needScheduler (a : Arguments F) : a.Fits [.scheduler] a.needScheduler := by
  unfold Arguments.needScheduler
  cases h : a.scheduler with
  | none => exact ⟨_, List.mem_singleton_self _, by simp [Need.missing?, h]⟩
  | some i => simp [Arguments.Fits, Need.missing?, h]

namespace Stage

variable {stage : Stage} {operators : List Stage}

/-- A stage that follows a source is applied if what it needs is supplied. -/
theorem fits_applyTo (hs : stage.Operates) (x : Stream F) :
    a.Fits stage.need?.toList (stage.applyTo root a x) := by
  cases stage with
  | select slot => exact (fits_function a slot).bind fun f _ => (.pure _ : a.Fits [] _)
  | convert slot => exact (fits_function a slot).bind fun f _ => (.pure _ : a.Fits [] _)
  | observeOn => exact (fits_needScheduler a).bind fun i _ => (.pure _ : a.Fits [] _)
  | chain | wrap | distinct | skip | emptyIfNull | switch => exact .pure _
  | watch | constant | combineLatest | merge | tag => exact hs.elim

end Stage

namespace Staged

variable {p : Pipeline} {stage : Stage}

theorem observe_andThen (p : Pipeline) (stage : Stage) :
    (p.andThen stage).observe root a = p.observe root a >>= stage.applyTo root a := by
  obtain ⟨first, operators⟩ := p
  simp only [observe, andThen, observePipeline, List.foldlM_append, List.foldlM_cons, List.foldlM_nil,
    bind_pure, bind_assoc]

/-- With one stage more, a pipeline needs what this stage needs. -/
theorem fits_andThen (stage : Stage) {needs : List Need} (hp : a.Fits needs (p.observe root a)) (hs : stage.Operates) :
    a.Fits (needs ++ stage.need?.toList) ((p.andThen stage).observe root a) := by
  rw [observe_andThen]
  exact hp.bind fun x _ => Stage.fits_applyTo hs x

theorem fits_andThenIf (stage : Stage) {needs : List Need} (hp : a.Fits needs (p.observe root a)) (hs : stage.Operates)
    (c : Bool) :
    a.Fits (needs ++ if c then stage.need?.toList else []) ((p.andThenIf c stage).observe root a) := by
  cases c with
  | false => simpa [andThenIf] using hp
  | true => simpa [andThenIf] using fits_andThen stage hp hs

/-- A pipeline that needs nothing can be observed. -/
theorem exists_of_fits (hp : a.Fits [] (p.observe root a)) : ∃ x, p.observe root a = .ok x := by
  cases h : p.observe root a with
  | ok x => exact ⟨x, rfl⟩
  | error e =>
    rw [h] at hp
    obtain ⟨n, hn, -⟩ := hp
    cases hn

end Staged

/-! ## Observations -/

/-- The pipeline of a path needs nothing. -/
theorem Path.fits_pipeline (p : Path) (t : Timing) (caps : Capabilities) :
    a.Fits [] ((p.pipeline t caps).observe root a) := by
  unfold pipeline
  split
  · exact .pure _
  split
  · exact .pure _
  have hlinked : a.Fits [] (Staged.observe root a ⟨.watch p.root t, [.chain p.links t]⟩) := .pure _
  refine (Staged.fits_andThenIf .distinct hlinked trivial _).congr ?_
  simp [Stage.need?]

namespace CallSite

variable {s : CallSite} {strategy : Strategy} {caps : Capabilities} {inputs : List Pipeline}

/-- Inputs that need nothing can be joined. -/
theorem fits_joined {join : List Pipeline → Stage} (hj : join = .combineLatest ∨ join = .merge)
    (hp : ∀ p ∈ inputs, a.Fits [] (p.observe root a)) : a.Fits [] ((joined inputs join).observe root a) := by
  unfold joined
  split
  · exact hp _ (List.mem_singleton_self _)
  · obtain ⟨xs, hxs⟩ : ∃ xs, observeInputs root a inputs = .ok xs := by
      rw [observeInputs_eq_mapM]
      exact exists_mapM_iff.2 fun p hm => Staged.exists_of_fits (hp p hm)
    rcases hj with rfl | rfl <;>
      simp only [Staged.observe, observePipeline, Stage.start, hxs, List.foldlM_nil] <;> exact .pure _

/-- What a call site that observes needs. -/
def needs (s : CallSite) : List Need :=
  (if s.features.selector then [.function .selector] else []) ++
    if s.features.scheduler then [.scheduler] else []

theorem fits_finish {p : Pipeline} (hp : a.Fits [] (p.observe root a)) :
    a.Fits s.needs ((s.finish p).observe root a) :=
  Staged.fits_andThenIf .observeOn (Staged.fits_andThenIf (.select .selector) hp trivial _) trivial _

/-- The plan of an observation needs a selector and a scheduler, each if the call site asks for it. -/
theorem fits_observation {p : Pipeline} (hp : s.plan caps = .ok (.observation p)) :
    a.Fits s.needs (p.observe root a) := by
  have hpaths : ∀ q ∈ s.pathPipelines caps, a.Fits [] (q.2.observe root a) := by
    simp only [pathPipelines, List.forall_mem_map]
    exact fun q _ => q.fits_pipeline s.timing caps
  unfold plan at hp
  split at hp
  · cases hp
    refine fits_finish (fits_joined (.inl rfl) ?_)
    simpa only [List.forall_mem_map] using hpaths
  · cases hp
    refine fits_finish (fits_joined (.inl rfl) ?_)
    simpa only [List.forall_mem_map] using hpaths
  · cases hp
    refine fits_finish (fits_joined (.inl rfl) ?_)
    simp only [List.forall_mem_map]
    exact fun q hq => Staged.fits_andThen (.wrap _) (hpaths q hq) trivial
  · cases hp
    refine fits_finish (fits_joined ?_ ?_)
    · split
      · exact .inl rfl
      · exact .inr rfl
    · simp only [List.forall_mem_map]
      intro q hq
      have hempty := Staged.fits_andThen .emptyIfNull (hpaths q hq) trivial
      exact Staged.fits_andThen .switch hempty trivial
  all_goals
    cases hb : s.bindingPlan caps <;> rw [hb] at hp <;> cases hp

end CallSite

/-! ## Bindings -/

/-- An operator of a direction, with the side noted so far. -/
def Stage.carry (root : ObjectId) (a : Arguments F) (x : Stream F × Option Side) (stage : Stage) :
    Except RunError (Stream F × Option Side) :=
  match stage with
  | .tag s => .ok (x.1, some s)
  | _ => do return (← stage.applyTo root a x.1, x.2)

/-- What operators need. -/
def Stage.needs (operators : List Stage) : List Need := operators.flatMap fun stage => stage.need?.toList

section Bindings

variable {operators : List Stage}

theorem applyOperators_eq_foldlM (x : Stream F) :
    applyOperators root a x operators = operators.foldlM (Stage.carry root a) (x, none) := rfl

/-- Any stage but a tag is applied, and notes no side. -/
theorem Stage.carry_eq_map {stage : Stage} (hs : ∀ side, stage ≠ .tag side) (x : Stream F × Option Side) :
    stage.carry root a x = (stage.applyTo root a x.1).map fun y => (y, x.2) := by
  have hbind : ∀ r : Except RunError (Stream F), (r >>= fun y => .ok (y, x.2)) = r.map fun y => (y, x.2) := by
    rintro (e | y) <;> rfl
  rw [← hbind]
  cases stage with
  | tag side => exact (hs side rfl).elim
  | _ => rfl

theorem Stage.Operates.carry_eq_map {stage : Stage} (hs : stage.Operates) (x : Stream F × Option Side) :
    stage.carry root a x = (stage.applyTo root a x.1).map fun y => (y, x.2) :=
  Stage.carry_eq_map (fun side he => by simp [he, Operates] at hs) x

/-- The operators of a direction need what each of them needs. -/
theorem fits_carry (ho : ∀ stage ∈ operators, stage.Operates ∨ ∃ side, stage = .tag side)
    (x : Stream F × Option Side) :
    a.Fits (Stage.needs operators) (operators.foldlM (Stage.carry root a) x) := by
  induction operators generalizing x with
  | nil => exact .pure _
  | cons stage rest ih =>
    obtain ⟨hs, hrest⟩ := List.forall_mem_cons.1 ho
    have hone : a.Fits stage.need?.toList (stage.carry root a x) := by
      rcases hs with hs | ⟨side, rfl⟩
      · rw [hs.carry_eq_map]
        exact (Stage.fits_applyTo hs x.1).map _
      · exact .pure _
    rw [List.foldlM_cons, Stage.needs, List.flatMap_cons]
    exact hone.bind fun y _ => ih hrest y

/-- A side is noted only if there is a tag. -/
theorem carry_noted (ho : ∀ stage ∈ operators, stage.Operates) {x y : Stream F × Option Side}
    (hy : operators.foldlM (Stage.carry root a) x = .ok y) : y.2 = x.2 := by
  refine foldlM_keeps (Q := fun z => z.2 = x.2) hy rfl fun stage hs z z' h hz => ?_
  rw [(ho stage hs).carry_eq_map] at h
  obtain ⟨_, -, rfl⟩ := map_eq_ok_iff.1 h
  exact hz

/-- A direction needs what its operators need; where a side is noted, there must be a subject for the
changes. -/
theorem fits_direction {p : Pipeline} {changes : Option SubjectId} (hp : a.Fits [] (p.observe root a))
    (ho : ∀ stage ∈ operators, stage.Operates ∨ changes.isSome ∧ ∃ side, stage = .tag side) :
    a.Fits (Stage.needs operators) (direction root a p operators changes) := by
  obtain ⟨x, hx⟩ := Staged.exists_of_fits hp
  have hfits : a.Fits (Stage.needs operators) (operators.foldlM (Stage.carry root a) (x, none)) :=
    fits_carry (fun stage hs => (ho stage hs).imp_right And.right) (x, none)
  rw [← applyOperators_eq_foldlM] at hfits
  rw [direction, hx, ← List.append_nil (Stage.needs operators)]
  refine hfits.bind fun y hy => ?_
  rw [applyOperators_eq_foldlM] at hy
  obtain ⟨y, side⟩ := y
  cases changes with
  | some subject => cases side <;> exact .pure _
  | none =>
    obtain rfl : side = none := carry_noted (fun stage hs => (ho stage hs).resolve_right (by simp)) hy
    exact .pure _

/-- The values of a direction are what its operators make of what is observed; what it publishes is the same, or
its publication. -/
theorem direction_eq_ok {p : Pipeline} {changes : Option SubjectId} {d : Direction F}
    (hd : direction root a p operators changes = .ok d) :
    ∃ x y, p.observe root a = .ok x ∧ operators.foldlM (Stage.carry root a) (x, none) = .ok y ∧ d.plain = y.1 ∧
      (d.published = y.1 ∨ ∃ j side, changes = some j ∧ d.published = .map y.1 (.publish j side)) := by
  obtain ⟨x, hx, hd⟩ := bind_eq_ok_iff.1 hd
  obtain ⟨⟨y, side⟩, hy, hd⟩ := bind_eq_ok_iff.1 hd
  cases side with
  | none =>
    cases hd
    exact ⟨x, _, hx, hy, rfl, .inl rfl⟩
  | some side =>
    cases changes with
    | none => cases hd
    | some j =>
      cases hd
      exact ⟨x, _, hx, hy, rfl, .inr ⟨j, side, rfl, rfl⟩⟩

variable {s : CallSite} {caps : Capabilities} {b : BindingPlan} {source target : ObjectId}

theorem operates_toTarget {mode : BindingMode} {changes : Option SubjectId}
    (hc : mode = .tagged → changes.isSome) : ∀ stage ∈ s.toTarget mode,
      stage.Operates ∨ changes.isSome ∧ ∃ side, stage = .tag side := by
  intro stage hs
  simp only [CallSite.toTarget, List.mem_append, List.mem_ite_nil_right, List.mem_singleton] at hs
  rcases hs with ((⟨-, rfl⟩ | ⟨-, rfl⟩) | ⟨-, rfl⟩) | ⟨hm, rfl⟩
  · exact .inl trivial
  · exact .inl trivial
  · exact .inl trivial
  · exact .inr ⟨hc hm, _, rfl⟩

theorem operates_toSource {mode : BindingMode} {changes : Option SubjectId}
    (hc : mode = .tagged → changes.isSome) : ∀ stage ∈ s.toSource mode,
      stage.Operates ∨ changes.isSome ∧ ∃ side, stage = .tag side := by
  intro stage hs
  simp only [CallSite.toSource, List.mem_append, List.mem_ite_nil_right, List.mem_singleton] at hs
  rcases hs with ((rfl | ⟨-, rfl⟩) | ⟨-, rfl⟩) | ⟨hm, rfl⟩
  · exact .inl trivial
  · exact .inl trivial
  · exact .inl trivial
  · exact .inr ⟨hc hm, _, rfl⟩

/-- The plan of a binding needs what the operators of its directions need. -/
theorem CallSite.fits_activate (hb : s.bindingPlan caps = .ok b) (h : Heap F C) :
    a.Fits (Stage.needs b.toTarget ++ Stage.needs b.toSource) (b.activate source target a h).1 := by
  obtain ⟨mode, -, -, -, rfl, hsource, hto, htarget, hfrom⟩ := CallSite.bindingPlan_eq hb
  obtain ⟨changes, hchanges⟩ : ∃ changes, changes = if b.mode = .tagged then some h.subjects.size else none :=
    ⟨_, rfl⟩
  have hsome : b.mode = .tagged → changes.isSome := by
    intro hm
    simp [hchanges, hm]
  have hwire : a.Fits (Stage.needs b.toTarget ++ Stage.needs b.toSource) (b.wire a source target changes) := by
    unfold BindingPlan.wire
    refine Arguments.Fits.bind ?_ fun x hx => ?_
    · rw [hsource, hto]
      exact fits_direction (Path.fits_pipeline ..) (operates_toTarget hsome)
    · rw [htarget, hfrom]
      split
      · exact .pure _
      · have hback : a.Fits (Stage.needs (s.toSource b.mode)) (direction target a
            (b.targetPath.pipeline .after caps) (s.toSource b.mode) changes) :=
          fits_direction (b.targetPath.fits_pipeline .after caps) (operates_toSource hsome)
        have hboth := (hback.map some).map (Wiring.mk x)
        simpa [Functor.map] using hboth
  have hactivate := hwire.map fun x =>
    (⟨b.subscriptions source target x, x.forward.plain, changes.map .subject⟩ : Activation F C)
  rw [hchanges] at hactivate
  exact hactivate

end Bindings

end DataBinding
