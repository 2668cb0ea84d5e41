import DataBinding.Proofs.Generation.Units
import DataBinding.Proofs.Supply.Opening
/-!
# Parameters of entry points

Call sites of one kind and signature have the same parameters (`CallSite.parameters_congr`), so an entry point
has those of every call site it serves. They ask for just what the plan of the call site needs
(`CallSite.mem_needs_parameters`).

`CallUnit.plans_fit_parameters`: whichever member of an entry point is run, it runs if all that the parameters
ask for is supplied, and otherwise says what is not. Where a binding is made between two objects that have
nothing in common, running it comes to an end.
-/

namespace DataBinding

/-! ## Call sites of one signature -/

/-- What is needed for parameters. -/
def Parameter.needs (l : List Parameter) : List Need := l.filterMap fun p => p.role.need?

namespace CallSite

variable {s s' : CallSite} {strategy : Strategy} {kind : CallKind} {caps : Capabilities}

/-- The types of the root and the leaf of each path. -/
def types (s : CallSite) : List (TypeRef × TypeRef) := s.paths.map fun p => (p.rootType, p.leafType)

theorem types_eq (s : CallSite) : s.types = s.signature.roots.zip s.signature.leaves := by
  simp [types, signature, List.zip_map']

theorem sourceParameters_eq (s : CallSite) : s.sourceParameters =
    if s.kind.isBinding then s.types.head?.toList.map fun t => ⟨"source", .sourceRoot t.1⟩ else [] := by
  unfold sourceParameters types
  cases s.kind.isBinding <;> cases s.paths <;> rfl

theorem propertyParameters_eq (s : CallSite) : s.propertyParameters =
    s.types.zipIdx.map fun x => ⟨s!"property{x.2 + 1}", .property x.1.1 x.1.2⟩ := by
  simp [propertyParameters, types, List.zipIdx_map]

theorem selectorParameters_eq (s : CallSite) : s.selectorParameters =
    if s.features.selector then
      [⟨"selector", .selector ((if s.kind.isBinding then s.types.take 1 else s.types).map Prod.snd) s.result⟩]
    else [] := by
  unfold selectorParameters types
  cases s.kind.isBinding <;> simp [← List.map_take, Function.comp_def]

theorem converterParameters_eq (s : CallSite) : s.converterParameters =
    match s.features.conversion && s.kind.isBinding, s.types with
    | true, source :: target :: _ =>
      ⟨"converter", .converter source.2 target.2⟩ ::
        (if s.kind.isBidirectional then [⟨"back_converter", .backConverter target.2 source.2⟩] else [])
    | _, _ => [] := by
  unfold converterParameters types
  cases s.features.conversion && s.kind.isBinding <;> rcases s.paths with - | ⟨p, - | ⟨q, l⟩⟩ <;> rfl

theorem callerParameters_eq (s : CallSite) : s.callerParameters strategy =
    match strategy with
    | .text => s.types.zipIdx.map fun x => ⟨s!"property{x.2 + 1}_expression", .argumentText x.2⟩
    | .positional => [⟨"caller_file", .filePath⟩, ⟨"caller_line", .lineNumber⟩] := by
  cases strategy with
  | text => simp [callerParameters, types, List.zipIdx_map]
  | positional => rfl

/-- The parameters depend on the paths only by the types of their roots and leaves. -/
theorem parameters_congr (hkind : s.kind = s'.kind) (h : s.signature = s'.signature) :
    s.parameters strategy = s'.parameters strategy := by
  have htypes : s.types = s'.types := by rw [types_eq, types_eq, h]
  have howner : s.owner = s'.owner := congrArg Signature.owner h
  have hresult : s.result = s'.result := congrArg Signature.result h
  have hfeatures : s.features = s'.features := congrArg Signature.features h
  simp only [parameters, sourceParameters_eq, propertyParameters_eq, selectorParameters_eq,
    converterParameters_eq, callerParameters_eq, schedulerParameters, hkind, htypes, howner, hresult, hfeatures]

/-- The parameters ask for the functions and the scheduler that the features stand for. -/
theorem mem_needs_parameters (hs : s.check kind strategy = .ok ()) (n : Need) :
    n ∈ Parameter.needs (s.parameters strategy) ↔
      (s.features.selector = true ∧ n = .function .selector) ∨
      (s.features.conversion = true ∧ s.kind.isBinding = true ∧ n = .function .converter) ∨
      (s.features.conversion = true ∧ s.kind.isBidirectional = true ∧ n = .function .backConverter) ∨
      (s.features.scheduler = true ∧ n = .scheduler) := by
  have hsource : Parameter.needs s.sourceParameters = [] := by
    rw [sourceParameters_eq]
    split
    · cases s.types.head? <;> rfl
    · rfl
  have hproperty : Parameter.needs s.propertyParameters = [] := by
    simp [Parameter.needs, propertyParameters, List.filterMap_map, Role.need?]
  have hcaller : Parameter.needs (s.callerParameters strategy) = [] := by
    cases strategy with
    | text => simp [Parameter.needs, callerParameters, List.filterMap_map, Role.need?]
    | positional => rfl
  have hconverter : n ∈ Parameter.needs s.converterParameters ↔
      (s.features.conversion = true ∧ s.kind.isBinding = true ∧ n = .function .converter) ∨
      (s.features.conversion = true ∧ s.kind.isBidirectional = true ∧ n = .function .backConverter) := by
    cases hb : s.kind.isBinding with
    | false =>
      have hone : s.kind.isBidirectional = false := by
        cases hk : s.kind <;> simp_all [CallKind.isBinding, CallKind.isBidirectional]
      simp [converterParameters, hb, hone, Parameter.needs]
    | true =>
      obtain ⟨source, target, hp⟩ := paths_of_isBinding hs hb
      cases hconv : s.features.conversion <;> cases hk : s.kind.isBidirectional <;>
        simp [converterParameters, hb, hp, hconv, hk, Parameter.needs, Role.need?]
  have hselector : n ∈ Parameter.needs s.selectorParameters ↔
      s.features.selector = true ∧ n = .function .selector := by
    cases hsel : s.features.selector <;> simp [selectorParameters, hsel, Parameter.needs, Role.need?]
  have hscheduler : n ∈ Parameter.needs s.schedulerParameters ↔
      s.features.scheduler = true ∧ n = .scheduler := by
    cases hsched : s.features.scheduler <;> simp [schedulerParameters, hsched, Parameter.needs, Role.need?]
  have happend : ∀ l l' : List Parameter,
      Parameter.needs (l ++ l') = Parameter.needs l ++ Parameter.needs l' := fun l l' => List.filterMap_append
  have hreceiver : ∀ l : List Parameter, Parameter.needs (⟨"receiver", .receiver s.owner⟩ :: l) =
      Parameter.needs l := fun l => rfl
  simp only [parameters, List.cons_append, hreceiver, happend, hsource, hproperty, hcaller, List.mem_append,
    hselector, hconverter, hscheduler, List.not_mem_nil, or_false, false_or]
  simp only [or_assoc]

/-- What is planned for observing is no binding. -/
theorem isBinding_of_observation {p : Pipeline} (hp : s.plan caps = .ok (.observation p)) :
    s.kind.isBinding = false := by
  unfold plan at hp
  cases hk : s.kind with
  | oneWayBind | twoWayBind | taggedBind =>
    rw [hk] at hp
    cases hb : s.bindingPlan caps <;> simp [hb, Except.map] at hp
  | _ => rfl

theorem bindingPlan_of_binding {b : BindingPlan} (hp : s.plan caps = .ok (.binding b)) :
    s.bindingPlan caps = .ok b := by
  unfold plan at hp
  cases hk : s.kind with
  | oneWayBind | twoWayBind | taggedBind =>
    rw [hk] at hp
    cases hb : s.bindingPlan caps <;> simp_all [Except.map]
  | _ =>
    rw [hk] at hp
    cases hp

/-- An observation needs what its parameters ask for. -/
theorem mem_needs_observation (hs : s.check kind strategy = .ok ()) (hb : s.kind.isBinding = false) (n : Need) :
    n ∈ s.needs ↔ n ∈ Parameter.needs (s.parameters strategy) := by
  have hone : s.kind.isBidirectional = false := by
    cases hk : s.kind <;> simp_all [CallKind.isBinding, CallKind.isBidirectional]
  rw [mem_needs_parameters hs]
  simp [needs, hb, hone]

/-- A binding needs what its parameters ask for. -/
theorem mem_needs_binding {b : BindingPlan} (hs : s.check kind strategy = .ok ())
    (hb : s.bindingPlan caps = .ok b) (n : Need) :
    n ∈ Stage.needs b.toTarget ++ Stage.needs b.toSource ↔ n ∈ Parameter.needs (s.parameters strategy) := by
  obtain ⟨mode, hm, -, -, -, -, hto, -, hfrom⟩ := bindingPlan_eq hb
  have hmem : ∀ (c : Bool) (stage : Stage) (m : Need), stage.need? = some m →
      (n ∈ Stage.needs (if c then [stage] else []) ↔ c = true ∧ n = m) := by
    intro c stage m hm
    cases c <;> simp [Stage.needs, hm]
  have htag : ∀ side, Stage.needs (if mode = .tagged then [.tag side] else []) = [] := by
    intro side
    split <;> rfl
  have happend : ∀ l l' : List Stage, Stage.needs (l ++ l') = Stage.needs l ++ Stage.needs l' :=
    fun l l' => List.flatMap_append
  have hskip : Stage.needs [.skip 1] = [] := rfl
  have hbinding : s.kind.isBinding = true := by
    cases hk : s.kind <;> simp_all [bindingMode?, CallKind.isBinding]
  have htarget : n ∈ Stage.needs b.toTarget ↔ (s.features.selector = true ∧ n = .function .selector) ∨
      (s.features.conversion = true ∧ n = .function .converter) ∨
      (s.features.scheduler = true ∧ n = .scheduler) := by
    simp only [hto, toTarget, happend, htag, List.mem_append, List.append_nil,
      hmem _ (.select .selector) _ rfl, hmem _ (.convert .converter) _ rfl, hmem _ .observeOn _ rfl, or_assoc]
  have hsource : n ∈ Stage.needs b.toSource ↔ s.kind.isBidirectional = true ∧
      ((s.features.conversion = true ∧ n = .function .backConverter) ∨
      (s.features.scheduler = true ∧ n = .scheduler)) := by
    by_cases hone : mode = .oneWay
    · have hkind : s.kind.isBidirectional = false := by
        subst hone
        cases hk : s.kind <;> simp_all [bindingMode?, CallKind.isBidirectional]
      simp [hfrom, hone, hkind, Stage.needs]
    · have hkind : s.kind.isBidirectional = true := by
        cases hk : s.kind <;> simp_all [bindingMode?, CallKind.isBidirectional]
      simp only [hfrom, if_neg hone, hkind, toSource, happend, htag, hskip, List.mem_append, List.append_nil,
        List.nil_append, hmem _ (.convert .backConverter) _ rfl, hmem _ .observeOn _ rfl, true_and]
  rw [mem_needs_parameters hs, List.mem_append, htarget, hsource, hbinding]
  grind

end CallSite

/-! ## Bindings between two objects that have nothing in common -/

variable {F C S : Type} {K : Client F C S} {a : Arguments F}

/-- The functions compute values of what is there. Two objects, which the client holds, lead to nothing in
common, and with what the second one leads to nobody has registered. -/
structure World.Apart (K : Client F C S) (a : Arguments F) (source target : ObjectId) (w : World F C S) :
    Prop where
  whole : w.heap.Whole
  computes : ∀ slot f, a.slot? slot = some f → K.Computes w.heap.objects.size f
  held : ∀ o ∈ [source, target], o < w.heap.objects.size ∧ Node.object o ∈ K.refs w.client
  apart : ∀ o, w.heap.Reaches source o → ¬ w.heap.Reaches target o
  quiet : ∀ o, w.heap.Reaches target o → w.heap.handlers o = []

section Activation

variable {root source target : ObjectId} {n : Nat} {operators : List Stage} {changes : Option SubjectId}

/-- The stage carries a value on without leaving any out. -/
def Stage.Passes : Stage → Prop
  | .select _ | .convert _ | .observeOn | .tag _ => True
  | _ => False

/-- Operators that leave nothing out carry a stream. -/
theorem carried_of_carry (ha : ∀ slot f, a.slot? slot = some f → K.Computes n f)
    (ho : ∀ stage ∈ operators, stage.Passes) {x y : Stream F × Option Side} {z : Stream F}
    (hz : z.Carried K n changes x.1) (hy : operators.foldlM (Stage.carry root a) x = .ok y) :
    z.Carried K n changes y.1 := by
  have hfunction : ∀ slot f, a.function slot = .ok f → K.Computes n f := by
    intro slot f hf
    refine ha slot f ?_
    unfold Arguments.function at hf
    split at hf <;> cases hf
    assumption
  refine foldlM_keeps (Q := fun x => z.Carried K n changes x.1) hy hz fun stage hs x x' h hz => ?_
  cases stage with
  | select slot | convert slot =>
    obtain ⟨_, hy, h⟩ := bind_eq_ok_iff.1 h
    obtain ⟨f, hf, hy⟩ := bind_eq_ok_iff.1 hy
    cases hy
    cases h
    exact .apply (hfunction slot f hf) hz
  | observeOn =>
    obtain ⟨_, hy, h⟩ := bind_eq_ok_iff.1 h
    obtain ⟨i, -, hy⟩ := bind_eq_ok_iff.1 hy
    cases hy
    cases h
    exact .relocate i hz
  | tag side =>
    cases h
    exact hz
  | _ => exact (ho _ hs).elim

/-- What a direction publishes is what is observed, carried on. -/
theorem carried_published {p : Pipeline} {d : Direction F} (ha : ∀ slot f, a.slot? slot = some f → K.Computes n f)
    (ho : ∀ stage ∈ operators, stage.Passes) (hd : direction root a p operators changes = .ok d) :
    ∃ x, p.observe root a = .ok x ∧ x.Carried K n changes d.published := by
  obtain ⟨x, y, hx, hy, -, hpublished⟩ := direction_eq_ok hd
  have hcarried : x.Carried K n changes y.1 := carried_of_carry ha ho .refl hy
  refine ⟨x, hx, ?_⟩
  obtain he | ⟨j, side, hj, he⟩ := hpublished
  · exact he ▸ hcarried
  · exact he ▸ .publish side hj hcarried

/-- So is what a direction publishes that leaves out the first value. -/
theorem carried_published_skip {p : Pipeline} {d : Direction F}
    (ha : ∀ slot f, a.slot? slot = some f → K.Computes n f) (ho : ∀ stage ∈ operators, stage.Passes)
    (hd : direction root a p (.skip 1 :: operators) changes = .ok d) :
    ∃ x, p.observe root a = .ok x ∧ (Stream.skip x 1).Carried K n changes d.published := by
  obtain ⟨x, y, hx, hy, -, hpublished⟩ := direction_eq_ok hd
  have hrest : operators.foldlM (Stage.carry root a) (.skip x 1, none) = .ok y := hy
  have hcarried : (Stream.skip x 1).Carried K n changes y.1 := carried_of_carry ha ho .refl hrest
  refine ⟨x, hx, ?_⟩
  obtain he | ⟨j, side, hj, he⟩ := hpublished
  · exact he ▸ hcarried
  · exact he ▸ .publish side hj hcarried

variable {s : CallSite} {caps : Capabilities} {b : BindingPlan} {w : World F C S} {x : Activation F C}
  {h h' : Heap F C}

theorem passes_toTarget (mode : BindingMode) : ∀ stage ∈ s.toTarget mode, stage.Passes := by
  intro stage hs
  simp only [CallSite.toTarget, List.mem_append, List.mem_ite_nil_right, List.mem_singleton] at hs
  rcases hs with ((⟨-, rfl⟩ | ⟨-, rfl⟩) | ⟨-, rfl⟩) | ⟨-, rfl⟩ <;> trivial

/-- The operators from the target leave out the first value and no other. -/
theorem passes_toSource (mode : BindingMode) :
    ∃ rest, s.toSource mode = .skip 1 :: rest ∧ ∀ stage ∈ rest, stage.Passes := by
  refine ⟨(if s.features.conversion then [.convert .backConverter] else []) ++
    (if s.features.scheduler then [.observeOn] else []) ++ if mode = .tagged then [.tag .target] else [], rfl, ?_⟩
  intro stage hs
  simp only [List.mem_append, List.mem_ite_nil_right, List.mem_singleton] at hs
  rcases hs with (⟨-, rfl⟩ | ⟨-, rfl⟩) | ⟨-, rfl⟩ <;> trivial

/-- An activation is made up of one direction, or of both. -/
theorem activate_eq_ok (hx : b.activate source target a h = (.ok x, h')) :
    ∃ changes forward, h' = b.prepared h ∧ (∀ j, changes = some j → h'.observers j = []) ∧
      direction source a b.source b.toTarget changes = .ok forward ∧
      ((b.target = none ∧ x.subscriptions = [(forward.published, .write target b.targetPath)]) ∨
        ∃ p backward, b.target = some p ∧ direction target a p b.toSource changes = .ok backward ∧
          x.subscriptions = [(forward.published, .write target b.targetPath),
            (backward.published, .write source b.sourcePath)]) := by
  obtain ⟨changes, hchanges⟩ : ∃ changes, changes = if b.mode = .tagged then some h.subjects.size else none :=
    ⟨_, rfl⟩
  have hactivate : b.activate source target a h = ((b.wire a source target changes).map fun y =>
      ⟨b.subscriptions source target y, y.forward.plain, changes.map .subject⟩, b.prepared h) := by
    rw [hchanges]
    rfl
  have hunheard : ∀ j, changes = some j → (b.prepared h).observers j = [] := by
    intro j hj
    refine BindingPlan.observers_of_tag (t := (j, .source)) rfl (?_ : b.tag h .source = some (j, .source))
    rw [hchanges] at hj
    unfold BindingPlan.tag
    split at hj <;> simp_all
  obtain ⟨hmap, rfl⟩ := Prod.mk.inj (hactivate.symm.trans hx)
  obtain ⟨_, hwire, rfl⟩ := map_eq_ok_iff.1 hmap
  obtain ⟨forward, hf, hwire⟩ := bind_eq_ok_iff.1 hwire
  obtain ⟨_, hd, hwire⟩ := bind_eq_ok_iff.1 hwire
  cases hwire
  cases ht : b.target with
  | none =>
    rw [ht] at hd
    cases hd
    exact ⟨changes, forward, rfl, hunheard, hf, .inl ⟨rfl, rfl⟩⟩
  | some p =>
    rw [ht, Option.mapM_some] at hd
    obtain ⟨backward, hbackward, rfl⟩ := map_eq_ok_iff.1 hd
    exact ⟨changes, forward, rfl, hunheard, hf, .inr ⟨p, backward, rfl, hbackward, rfl⟩⟩

open State

/-- The subscriptions of a binding between two objects that have nothing in common come to an end. -/
theorem goes_activation (hb : s.bindingPlan caps = .ok b) (hw : w.Apart K a source target)
    (hx : b.activate source target a w.heap = (.ok x, h)) : ∃ t h', Goes K
      ⟨.run (.subscribeAll [] x.subscriptions), [], h, w.client⟩ ⟨.pass (.subscription t), [], h', w.client⟩ := by
  obtain ⟨mode, -, -, -, -, hsource, hto, htarget, hfrom⟩ := CallSite.bindingPlan_eq hb
  obtain ⟨changes, forward, rfl, hunheard, hforward, hsubscriptions⟩ := activate_eq_ok hx
  obtain ⟨hso, hsk⟩ := hw.held source (by simp)
  obtain ⟨hto', htk⟩ := hw.held target (by simp)
  -- but for a new subject the binding is activated in the heap as it is
  have hagree : w.heap.Agrees (b.prepared w.heap) := .of_objects (BindingPlan.objects_prepared _)
  have hhandlers : ∀ o, (b.prepared w.heap).handlers o = w.heap.handlers o := fun o => by
    simp only [Heap.handlers, BindingPlan.objects_prepared]
  have hwhole := hagree.whole hw.whole
  have hrested : (b.prepared w.heap).Rested target changes w.heap.objects.size := by
    refine ⟨hagree.size, hwhole, fun o ho => ?_, hunheard⟩
    rw [hhandlers]
    exact hw.quiet o ((hagree.reaches ..).1 ho)
  have hapart : ∀ o, (b.prepared w.heap).Reaches source o → ¬ (b.prepared w.heap).Reaches target o := by
    intro o ho ht
    exact hw.apart o ((hagree.reaches ..).1 ho) ((hagree.reaches ..).1 ht)
  rw [hsource, hto] at hforward
  obtain ⟨y, hy, hcarried⟩ := carried_published hw.computes (passes_toTarget mode) hforward
  have hyields := Path.yields_pipeline (K := K) (k := w.client) hwhole.closed hy
  have hnear : ∀ e ∈ (b.prepared w.heap).readsFrom (.object source) b.sourcePath.segments,
      ¬ (b.prepared w.heap).Reaches target e.1 := fun e he =>
    hapart e.1 (Heap.reaches_of_mem_readsFrom (by rintro _ ⟨⟩; exact .refl) he)
  have hwithin : ((b.prepared w.heap).readPath source b.sourcePath).Within w.heap.objects.size := by
    rw [← hagree.size]
    exact hwhole.within_readFrom (Value.within_object.2 (hagree.size ▸ hso)) _
  obtain hone | ⟨p, backward, hp, hbackward, hboth⟩ := hsubscriptions
  · obtain ⟨t, h₁, -, -, hl⟩ := hcarried.goes_write hyields hsk hrested hnear hwithin hto' htk b.targetPath
      [.gathering (.write target b.targetPath) [] []]
    rw [hone.2]
    exact ⟨.all [t], h₁, .go id (hl.trans (.back (.go id (.refl _))))⟩
  · obtain ⟨t, h₁, -, hwhole₁, hl⟩ := hcarried.goes_write hyields hsk hrested hnear hwithin hto' htk b.targetPath
      [.gathering (.write target b.targetPath) [] [(backward.published, .write source b.sourcePath)]]
    have hmode : mode ≠ .oneWay := by
      rintro rfl
      rw [hp] at htarget
      cases htarget
    rw [if_neg hmode] at hfrom htarget
    obtain ⟨rest, hrest, hpasses⟩ := passes_toSource (s := s) mode
    rw [hfrom, hrest] at hbackward
    obtain ⟨z, hz, hskipped⟩ := carried_published_skip hw.computes hpasses hbackward
    obtain rfl : p = b.targetPath.pipeline .after caps := Option.some.inj (hp.symm.trans htarget)
    obtain ⟨t', h₂, hl₂⟩ := hskipped.goes_skip (Path.yields_pipeline hwhole₁.closed hz) htk
      (.write source b.sourcePath) [.gathering (.write source b.sourcePath) [t] []]
    rw [hboth]
    exact ⟨.all [t, t'], h₂, .go id (hl.trans (.back (.go id (hl₂.trans (.back (.go id (.refl _)))))))⟩

end Activation

open State

namespace CallUnit

variable {sites : List CallSite} {kind : CallKind} {caps : Capabilities} {strategy : Strategy} {u : CallUnit}
  {e : EntryPoint} {s : CallSite}

/-- An entry point has the parameters of each of its members. -/
theorem Serves.parameters_eq (hu : u.Serves sites caps strategy) (hkind : ∀ s ∈ sites, s.kind = u.kind)
    (he : e ∈ u.entryPoints) (hs : s ∈ sites) (hsig : s.signature = e.signature) :
    e.parameters = s.parameters strategy := by
  obtain ⟨s', hfind, hparams⟩ := hu.parameters e he
  have hs' : s' ∈ sites := List.mem_of_find?_eq_some hfind
  have hsig' : s'.signature = e.signature := by simpa using List.find?_some hfind
  rw [hparams]
  exact CallSite.parameters_congr ((hkind s' hs').trans (hkind s hs).symm) (hsig'.trans hsig.symm)

/-- Whichever member of an entry point is run: the entry point has its parameters, and its plan is one of the
unit's. The plan can be run if all that the parameters ask for is supplied; otherwise the error names
something that they ask for and that is not supplied. The plan is never invalid.

A binding between two objects that have nothing in common, the second of which leads to nothing that anybody
has registered with, then makes its subscriptions, and these come to an end. -/
theorem plans_fit_parameters (h : generate kind sites caps strategy = .ok (some u)) (he : e ∈ u.entryPoints)
    (hs : s ∈ sites) (hsig : s.signature = e.signature) {F C S : Type} (K : Client F C S) (a : Arguments F)
    (w : World F C S) :
    e.parameters = s.parameters strategy ∧ ∃ plan, s.plan caps = .ok plan ∧
      ⟨s.implementationName, s, plan⟩ ∈ u.implementations ∧
      match plan with
      | .observation p => ∀ root, a.Fits (Parameter.needs e.parameters) (p.observe root a) ∧
          ∀ reason, p.observe root a ≠ .error (.invalidPlan reason)
      | .binding b => ∀ source target,
          a.Fits (Parameter.needs e.parameters) (b.activate source target a w.heap).1 ∧
          (∀ reason, (b.activate source target a w.heap).1 ≠ .error (.invalidPlan reason)) ∧
          (w.Apart K a source target → ∀ x h', b.activate source target a w.heap = (.ok x, h') →
            ∃ l t w', Ends K [] (World.start ⟨h', w.client⟩ (.subscribeAll [] x.subscriptions)) l
              ⟨.pass (.subscription t), [], w'⟩) := by
  obtain ⟨rfl, hu, hchecked⟩ := serves_of_generate h
  have hcheck := hchecked s hs
  have hkind : ∀ s ∈ sites, s.kind = u.kind := fun s hs => (CallSite.check_eq_ok_iff.1 (hchecked s hs)).1
  have hparams := hu.parameters_eq hkind he hs hsig
  have hmem : s ∈ u.implementations.map Implementation.site := hu.conserved.mem_iff.2 hs
  obtain ⟨⟨name, site, plan⟩, hi, rfl⟩ := List.mem_map.1 hmem
  obtain ⟨hname, hplan⟩ := hu.implementations _ hi
  obtain rfl : name = site.implementationName := hname
  refine ⟨hparams, plan, hplan, hi, ?_⟩
  rw [hparams]
  cases plan with
  | observation p =>
    intro root
    have hfits : a.Fits site.needs (p.observe root a) := CallSite.fits_observation hplan
    have hobserves := CallSite.isBinding_of_observation hplan
    exact ⟨hfits.congr (CallSite.mem_needs_observation hcheck hobserves), hfits.ne_invalidPlan⟩
  | binding b =>
    have hb := CallSite.bindingPlan_of_binding hplan
    intro source target
    have hfits : a.Fits (Stage.needs b.toTarget ++ Stage.needs b.toSource)
        (b.activate source target a w.heap).1 := CallSite.fits_activate hb w.heap
    refine ⟨hfits.congr (CallSite.mem_needs_binding hcheck hb), hfits.ne_invalidPlan, fun hw x h' hx => ?_⟩
    obtain ⟨t, h'', l, hl⟩ := goes_activation hb hw hx
    exact ⟨l ++ [], t, _, hl.ends (.answer trivial rfl)⟩

/-- A second binding of the same types, to whether the heating of a hall is off. -/
def hallHeating : CallSite :=
  { CallSite.hall with
    paths := CallSite.hall.paths.take 1 ++
      [⟨⟨"Heating", ⟨"Lamp", false⟩, ⟨"Hall", false⟩⟩, [⟨"Off", ⟨"bool", false⟩, ⟨"Lamp", false⟩⟩], by decide⟩]
    location := ⟨"hall.rs", 2⟩ }

/-- What the properties of a room and a hall hold. -/
theorem get_roomAndHall (o : ObjectId) (p : String) : Heap.roomAndHall.get o p = .null ∨
    Heap.roomAndHall.get o p = .bool true ∨ (o = 0 ∧ Heap.roomAndHall.get o p = .object 1) ∨
      (o = 2 ∧ Heap.roomAndHall.get o p = .object 3) := by
  rcases o with - | - | - | - | o <;>
    simp [Heap.get, Heap.roomAndHall, Heap.empty, Object.get, List.lookup_cons] <;> split <;> simp

theorem holds_roomAndHall {a b : ObjectId} (h : Heap.roomAndHall.Holds a b) : a = 0 ∧ b = 1 ∨ a = 2 ∧ b = 3 := by
  obtain ⟨p, hp⟩ := h
  have hget := get_roomAndHall a p
  rw [hp] at hget
  simpa using hget

/-- The room and the hall have nothing in common. -/
theorem apart_roomAndHall (a : Arguments Bool) : World.Apart (Client.forgetting [.object 0, .object 2]) a 0 2
    ⟨Heap.roomAndHall, ()⟩ := by
  have hroom : ∀ o, Heap.roomAndHall.Reaches 0 o → o < 2 := by
    intro o ho
    induction ho with
    | refl => decide
    | tail _ hp ih =>
      rcases holds_roomAndHall hp with ⟨rfl, rfl⟩ | ⟨rfl, rfl⟩
      · decide
      · exact absurd ih (by decide)
  have hhall : ∀ o, Heap.roomAndHall.Reaches 2 o → 2 ≤ o := by
    intro o ho
    induction ho with
    | refl => decide
    | tail _ hp ih =>
      rcases holds_roomAndHall hp with ⟨rfl, rfl⟩ | ⟨rfl, rfl⟩
      · exact absurd ih (by decide)
      · decide
  have hopposite : ∀ v : Value, v.Within 4 → v.opposite.Within 4 := by
    intro v hv
    cases v with
    | bool b => simp [Value.opposite, Value.Within, Value.refs]
    | _ => exact hv
  refine ⟨?_, ?_, by decide, fun o hr ht => ?_, fun o _ => ?_⟩
  · intro o p b hb
    rcases get_roomAndHall o p with hg | hg | ⟨-, hg⟩ | ⟨-, hg⟩ <;> rw [hg] at hb <;>
      simp [Value.refs] at hb <;> subst hb <;> decide
  · intro slot f _
    cases f with
    | true => exact ⟨Value.opposite, fun _ _ => rfl, hopposite⟩
    | false => exact ⟨fun _ => .null, fun _ _ => rfl, fun _ _ => by simp [Value.Within, Value.refs]⟩
  · exact absurd (hroom o hr) (Nat.not_lt.2 (hhall o ht))
  · rcases o with - | - | - | - | o <;> simp [Heap.handlers, Heap.roomAndHall, Heap.empty]

/-- In one entry point with another binding, this one asks for both converters: with them it is made, and
without the second one it says so. -/
theorem plans_fit_parameters_heating :
    ∃ u e plan, generate .twoWayBind [CallSite.hall, hallHeating] ⟨[("Room", .full)]⟩ .positional = .ok (some u) ∧
      e ∈ u.entryPoints ∧ hallHeating.signature = e.signature ∧
      e.parameters = hallHeating.parameters .positional ∧
      hallHeating.plan ⟨[("Room", .full)]⟩ = .ok (.binding plan) ∧
      (∃ n ∈ Parameter.needs e.parameters,
        n.missing? (⟨none, some true, none, none⟩ : Arguments Bool) = some (.missingArgument .backConverter)) ∧
      ∃ x h l t w', plan.activate 0 2 ⟨none, some true, some false, none⟩ Heap.roomAndHall = (.ok x, h) ∧
        Ends (Client.forgetting [.object 0, .object 2]) []
          (World.start ⟨h, ()⟩ (.subscribeAll [] x.subscriptions)) l ⟨.pass (.subscription t), [], w'⟩ := by
  obtain ⟨u, e, h, he, hsig⟩ : ∃ u e, generate .twoWayBind [CallSite.hall, hallHeating] ⟨[("Room", .full)]⟩
      .positional = .ok (some u) ∧ e ∈ u.entryPoints ∧ hallHeating.signature = e.signature :=
    ⟨_, _, rfl, List.mem_cons_self, rfl⟩
  have hs : hallHeating ∈ [CallSite.hall, hallHeating] := by simp
  have hplan : hallHeating.plan ⟨[("Room", .full)]⟩ = .ok (.binding _) := rfl
  have hlacking := plans_fit_parameters h he hs hsig (Client.forgetting [.object 0, .object 2])
    ⟨none, some true, none, none⟩ ⟨Heap.roomAndHall, ()⟩
  have hsupplied := plans_fit_parameters h he hs hsig (Client.forgetting [.object 0, .object 2])
    ⟨none, some true, some false, none⟩ ⟨Heap.roomAndHall, ()⟩
  obtain ⟨hparams, plan, hp, -, hlacking⟩ := hlacking
  obtain ⟨-, plan', hp', -, hsupplied⟩ := hsupplied
  obtain rfl := Except.ok.inj (hplan.symm.trans hp)
  obtain rfl := Except.ok.inj (hplan.symm.trans hp')
  refine ⟨u, e, _, h, he, hsig, hparams, hplan, (hlacking 0 2).1, ?_⟩
  obtain ⟨l, t, w', hends⟩ := (hsupplied 0 2).2.2 (apart_roomAndHall _) _ _ rfl
  exact ⟨_, _, l, t, w', rfl, hends⟩

end CallUnit

end DataBinding
