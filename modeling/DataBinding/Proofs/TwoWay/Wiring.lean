import DataBinding.Live.Binding
import DataBinding.Plan.Synthesis
import DataBinding.Proofs.CallSite.Accepted
import DataBinding.Proofs.Outcomes
import DataBinding.Proofs.TwoWay.Exchange
/-!
# What a two-way binding subscribes to

The plan of a two-way binding between two properties is wired to two streams (`CallSite.activate_eq`):
each watches its property, that of the target leaves out its first value, and then come the mappings of
its direction: the conversion, and the publication of a tagged value.
-/

namespace DataBinding

variable {F C S : Type}

/-! ## Mappings -/

/-- The stream passed through mappings, one after the other. -/
def Stream.mapped (x : Stream F) (maps : List (Mapping F)) : Stream F := maps.foldl .map x

/-- The observer behind mappings. -/
def Observer.mapped (maps : List (Mapping F)) (y : Observer F C) : Observer F C := maps.foldr .map y

/-- The mappings of a direction: a conversion, and a publication of tagged values. -/
def Mapping.stages (convert : Option F) (tag : Option (SubjectId × Side)) : List (Mapping F) :=
  convert.toList.map .apply ++ tag.toList.map fun t => .publish t.1 t.2

/-- A stream on its way to a write: converted, relocated and published, each if the binding does so. -/
def Stream.carried (x : Stream F) (convert : Option F) (on : Option SchedulerId)
    (tag : Option (SubjectId × Side)) : Stream F :=
  (on.elim (x.mapped (Mapping.stages convert none)) (.relocate (x.mapped (Mapping.stages convert none)))).mapped
    (Mapping.stages none tag)

theorem Stream.carried_none (x : Stream F) (convert : Option F) (tag : Option (SubjectId × Side)) :
    x.carried convert none tag = x.mapped (Mapping.stages convert tag) := by
  simp [carried, mapped, Mapping.stages, List.foldl_append]

section Subscribe
open State
variable {K : Client F C S} (maps : List (Mapping F)) (x : Stream F) (y : Observer F C)
  (fs : List (Frame F C)) (w : World F C S)

/-- Mappings are put in front of the observer, one after the other. -/
theorem logs_subscribe_mapped {α : Type} {read : State F C S → Option α}
    (hn : ∀ x y, read ⟨.run (.subscribe x y), fs, w⟩ = none) :
    Logs K read ⟨.run (.subscribe (x.mapped maps) y), fs, w⟩ []
      ⟨.run (.subscribe x (.mapped maps y)), fs, w⟩ := by
  induction maps generalizing x with
  | nil => exact .refl _
  | cons f rest ih => exact (ih (.map x f)).after (.go id (hn ..) (.refl _))

theorem stores_subscribe_mapped : Stores K ⟨.run (.subscribe (x.mapped maps) y), fs, w⟩ []
    ⟨.run (.subscribe x (.mapped maps y)), fs, w⟩ :=
  logs_subscribe_mapped maps x y fs w fun _ _ => rfl

end Subscribe

/-- Values are converted first, if there is a conversion. -/
theorem Observer.Carries.converted {K : Client F C S} {h : Heap F C} {o : ObjectId} {p : String}
    {x : Observer F C} {map : Value → Value} {convert : Option F} {conv : Value → Value}
    (hx : x.Carries K h o p map) (hsome : ∀ f, convert = some f → ∀ v w, K.apply f v w = (conv v, w))
    (hnone : convert = none → ∀ v, conv v = v) :
    (Observer.mapped (convert.toList.map .apply) x).Carries K h o p (map ∘ conv) := by
  cases convert with
  | none =>
    obtain rfl : conv = id := funext (hnone rfl)
    exact hx
  | some f => exact .apply (hsome f rfl) hx

/-- A direction carries converted values, when nobody listens to the publication. -/
theorem Observer.carries_mapped {K : Client F C S} {h : Heap F C} {o : ObjectId} {path : Path}
    {convert : Option F} {tag : Option (SubjectId × Side)} {conv : Value → Value}
    (hl : path.links = []) (hn : path.root.property ≠ "")
    (hsome : ∀ f, convert = some f → ∀ v w, K.apply f v w = (conv v, w))
    (hnone : convert = none → ∀ v, conv v = v) (htag : ∀ t, tag = some t → h.observers t.1 = []) :
    (Observer.mapped (Mapping.stages convert tag) (.write o path)).Carries K h o path.root.property
      conv := by
  have hwrite : (Observer.write o path : Observer F C).Carries K h o path.root.property id :=
    .write hl rfl hn
  have hpublish : (Observer.mapped (tag.toList.map fun t => .publish t.1 t.2)
      (.write o path)).Carries K h o path.root.property id := by
    cases tag with
    | none => exact hwrite
    | some t => exact .publish (htag t rfl) hwrite
  have hconverted := hpublish.converted hsome hnone
  rwa [Observer.mapped, Observer.mapped, ← List.foldr_append] at hconverted

/-! ## Plans of bindings -/

namespace CallSite

variable {s : CallSite} {caps : Capabilities} {b : BindingPlan}

/-- A two-way binding that is accepted has no selector. -/
theorem selector_of_check {kind : CallKind} {strategy : Strategy}
    (hc : s.check kind strategy = .ok ()) (hk : s.kind.isBidirectional = true) :
    s.features.selector = false := by
  obtain ⟨-, -, -, -, -, -, -, -, hselector⟩ := check_eq_ok_iff.1 hc
  cases hs : s.features.selector with
  | false => rfl
  | true => exact absurd (hselector hs) (by simp [hk])

/-- A plan that is made pairs the two paths of the call site. -/
theorem bindingPlan_eq (hb : s.bindingPlan caps = .ok b) :
    ∃ mode, bindingMode? s.kind = some mode ∧ s.check s.kind .positional = .ok () ∧
      s.paths = [b.sourcePath, b.targetPath] ∧ b.mode = mode ∧
      b.source = b.sourcePath.pipeline .after caps ∧ b.toTarget = s.toTarget mode ∧
      b.target = (if mode = .oneWay then none else some (b.targetPath.pipeline .after caps)) ∧
      b.toSource = if mode = .oneWay then [] else s.toSource mode := by
  unfold bindingPlan at hb
  cases hm : bindingMode? s.kind with
  | none =>
    rw [hm] at hb
    cases hb
  | some mode =>
    rw [hm] at hb
    obtain ⟨_, hc, hb⟩ := bind_eq_ok_iff.1 hb
    split at hb
    · next source target hp =>
      cases hb
      exact ⟨mode, rfl, hc, hp, rfl, rfl, rfl, rfl, rfl⟩
    · cases hb

end CallSite

/-! ## Wiring -/

/-- The function for a slot, where the call site converts. -/
def Arguments.supplied? (a : Arguments F) (conversion : Bool) (slot : Slot) : Option F :=
  if conversion then a.slot? slot else none

/-- The function for a slot computes this one; without a conversion there is none, and this one changes
nothing. -/
structure Arguments.Supplies (K : Client F C S) (a : Arguments F) (conversion : Bool) (slot : Slot)
    (map : Value → Value) : Prop where
  some : conversion = true → ∃ f, a.slot? slot = some f ∧ ∀ v w, K.apply f v w = (map v, w)
  none : conversion = false → ∀ v, map v = v

namespace Arguments.Supplies

variable {K : Client F C S} {a : Arguments F} {conversion : Bool} {slot : Slot} {map : Value → Value}

theorem apply_of_some (ha : a.Supplies K conversion slot map) {f : F}
    (hf : a.supplied? conversion slot = Option.some f) (v : Value) (w : World F C S) :
    K.apply f v w = (map v, w) := by
  unfold supplied? at hf
  split at hf
  · next hc =>
    obtain ⟨g, hg, happly⟩ := ha.some hc
    obtain rfl : g = f := Option.some.inj (hg.symm.trans hf)
    exact happly v w
  · cases hf

theorem eq_of_none (ha : a.Supplies K conversion slot map)
    (hf : a.supplied? conversion slot = Option.none) (v : Value) : map v = v := by
  cases conversion with
  | false => exact ha.none rfl v
  | true =>
    obtain ⟨f, hf', -⟩ := ha.some rfl
    exact absurd (hf'.symm.trans hf) (by simp)

end Arguments.Supplies

/-- The pipeline of a path of one segment watches it. -/
theorem Path.pipeline_single {p : Path} {t : Timing} {caps : Capabilities}
    (hc : caps.supports p.rootType t = true) (hl : p.links = []) :
    p.pipeline t caps = ⟨.watch p.root t, []⟩ := by
  simp [pipeline, hc, hl]

namespace BindingPlan

variable {K : Client F C S} {b : BindingPlan} {s : CallSite} {caps : Capabilities} {a : Arguments F}

/-- Where the changes of a binding are published. -/
def tag (b : BindingPlan) (h : Heap F C) (side : Side) : Option (SubjectId × Side) :=
  if b.mode = .tagged then some (h.subjects.size, side) else none

/-- The heap in which a binding is activated: a tagged one gets a subject for its changes. -/
def prepared (b : BindingPlan) (h : Heap F C) : Heap F C :=
  if b.mode = .tagged then h.newSubject.2 else h

/-- Nobody listens to the changes yet. -/
theorem observers_of_tag {h h' : Heap F C} {side : Side} {t : SubjectId × Side}
    (hs : h'.subjects = (b.prepared h).subjects) (ht : b.tag h side = some t) :
    h'.observers t.1 = [] := by
  unfold tag at ht
  split at ht
  · next hm =>
    cases ht
    simp [Heap.observers, hs, prepared, hm, Heap.newSubject]
  · cases ht

@[simp] theorem objects_prepared (h : Heap F C) : (b.prepared h).objects = h.objects := by
  unfold prepared
  split <;> rfl

/-- What the source is observed by: each value is converted, published and written. -/
def forward (b : BindingPlan) (s : CallSite) (a : Arguments F) (h : Heap F C) (source : ObjectId) :
    Stream F :=
  (Stream.watch source b.sourcePath.root.property .after).mapped
    (Mapping.stages (a.supplied? s.features.conversion .converter) (b.tag h .source))

/-- What the target is observed by, after its first value. -/
def backward (b : BindingPlan) (s : CallSite) (a : Arguments F) (h : Heap F C) (target : ObjectId) :
    Stream F :=
  (Stream.skip (.watch target b.targetPath.root.property .after) 1).mapped
    (Mapping.stages (a.supplied? s.features.conversion .backConverter) (b.tag h .target))

/-- The operators of a direction: first the conversion, then the scheduler, at last the tag, if any. -/
theorem applyOperators_eq {map : Value → Value} {conversion scheduler : Bool} {slot : Slot}
    (ha : a.Supplies K conversion slot map) (hs : scheduler = true → ∃ i, a.scheduler = some i)
    (root : ObjectId) (x : Stream F) (tagged : Bool) (side : Side) :
    applyOperators root a x ((if conversion then [.convert slot] else []) ++
        (if scheduler then [.observeOn] else []) ++ if tagged then [.tag side] else []) =
      .ok (x.carried (a.supplied? conversion slot) (if scheduler then a.scheduler else none) none,
        if tagged then some side else none) := by
  have hfun : ∀ f, a.slot? slot = some f → a.function slot = .ok f := fun f hf => by
    simp [Arguments.function, hf]
  have hneed : ∀ i, a.scheduler = some i → a.needScheduler = .ok i := fun i hi => by
    simp [Arguments.needScheduler, hi]
  cases conversion with
  | false =>
    cases scheduler with
    | false => cases tagged <;> rfl
    | true =>
      obtain ⟨i, hi⟩ := hs rfl
      cases tagged <;> simp [applyOperators, Stage.applyTo, hneed i hi, hi, Arguments.supplied?,
        Stream.carried, Stream.mapped, Mapping.stages, bind, Except.bind, pure, Except.pure]
  | true =>
    obtain ⟨f, hf, -⟩ := ha.some rfl
    cases scheduler with
    | false =>
      cases tagged <;> simp [applyOperators, Stage.applyTo, hfun f hf, hf, Arguments.supplied?,
        Stream.carried, Stream.mapped, Mapping.stages, bind, Except.bind, pure, Except.pure]
    | true =>
      obtain ⟨i, hi⟩ := hs rfl
      cases tagged <;> simp [applyOperators, Stage.applyTo, hfun f hf, hf, hneed i hi, hi,
        Arguments.supplied?, Stream.carried, Stream.mapped, Mapping.stages, bind, Except.bind, pure,
        Except.pure]

/-- A direction publishes the values that it is written with, if it is tagged. -/
theorem direction_eq {root : ObjectId} {p : Pipeline} {operators : List Stage} {x y : Stream F}
    {convert : Option F} {on : Option SchedulerId} {tagged : Bool} {side : Side} (i : SubjectId)
    (hx : p.observe root a = .ok x) (ho : applyOperators root a x operators =
      .ok (y.carried convert on none, if tagged then some side else none)) :
    direction root a p operators (if tagged then some i else none) =
      .ok ⟨y.carried convert on (if tagged then some (i, side) else none), y.carried convert on none⟩ := by
  simp only [direction, hx, ho, bind, Except.bind]
  cases tagged <;> rfl

/-- A plan of a two-way binding is wired to two streams: what the source is observed by, on its way to
the target, and the same of the target after its first value. -/
theorem activate_of_pipelines {conv back : Value → Value} {source target : ObjectId} {x y : Stream F}
    (hb : s.bindingPlan caps = .ok b) (hk : s.kind.isBidirectional = true)
    (hs : s.features.scheduler = true → ∃ i, a.scheduler = some i)
    (hx : (b.sourcePath.pipeline .after caps).observe source a = .ok x)
    (hy : (b.targetPath.pipeline .after caps).observe target a = .ok y)
    (hconv : a.Supplies K s.features.conversion .converter conv)
    (hback : a.Supplies K s.features.conversion .backConverter back) (h : Heap F C) :
    ∃ pipeline changes, b.activate source target a h =
      (.ok ⟨[(x.carried (a.supplied? s.features.conversion .converter)
            (if s.features.scheduler then a.scheduler else none) (b.tag h .source),
          .write target b.targetPath),
        ((Stream.skip y 1).carried (a.supplied? s.features.conversion .backConverter)
            (if s.features.scheduler then a.scheduler else none) (b.tag h .target),
          .write source b.sourcePath)], pipeline, changes⟩, b.prepared h) := by
  obtain ⟨mode, hm, hc, -, hmode, hp, hto, hq, hfrom⟩ := CallSite.bindingPlan_eq hb
  have hsel := CallSite.selector_of_check hc hk
  have hone : mode ≠ .oneWay := by
    rintro rfl
    cases hkind : s.kind <;> simp_all [CallSite.bindingMode?, CallKind.isBidirectional]
  rw [if_neg hone] at hq hfrom
  subst hmode
  have hto' : b.toTarget = (if s.features.conversion then [.convert .converter] else []) ++
      (if s.features.scheduler then [.observeOn] else []) ++
        if decide (b.mode = .tagged) then [.tag .source] else [] := by
    simp [hto, CallSite.toTarget, hsel]
  have hfrom' : b.toSource = [.skip 1] ++ ((if s.features.conversion then [.convert .backConverter]
      else []) ++ (if s.features.scheduler then [.observeOn] else []) ++
        if decide (b.mode = .tagged) then [.tag .target] else []) := by
    simp [hfrom, CallSite.toSource]
  obtain ⟨on, hon⟩ : ∃ on, on = if s.features.scheduler then a.scheduler else none := ⟨_, rfl⟩
  have hforward : direction source a b.source b.toTarget
      (if decide (b.mode = .tagged) then some h.subjects.size else none) =
      .ok ⟨x.carried (a.supplied? s.features.conversion .converter) on (b.tag h .source),
        x.carried (a.supplied? s.features.conversion .converter) on none⟩ := by
    rw [hp, hto', hon, direction_eq h.subjects.size hx (applyOperators_eq hconv hs source x _ .source)]
    simp only [tag, decide_eq_true_eq]
  have hbackward : direction target a (b.targetPath.pipeline .after caps) b.toSource
      (if decide (b.mode = .tagged) then some h.subjects.size else none) =
      .ok ⟨(Stream.skip y 1).carried (a.supplied? s.features.conversion .backConverter) on
          (b.tag h .target),
        (Stream.skip y 1).carried (a.supplied? s.features.conversion .backConverter) on none⟩ := by
    have hskip : applyOperators target a y b.toSource = applyOperators target a (.skip y 1)
        ((if s.features.conversion then [.convert .backConverter] else []) ++
          (if s.features.scheduler then [.observeOn] else []) ++
            if decide (b.mode = .tagged) then [.tag .target] else []) := by
      rw [hfrom']
      rfl
    rw [hon, direction_eq h.subjects.size hy
      (hskip.trans (applyOperators_eq hback hs target (.skip y 1) _ .target))]
    simp only [tag, decide_eq_true_eq]
  simp only [decide_eq_true_eq] at hforward hbackward
  rw [← hon]
  refine ⟨x.carried (a.supplied? s.features.conversion .converter) on none,
    (if b.mode = .tagged then some h.subjects.size else none).map .subject, ?_⟩
  simp only [activate, wire, Heap.newSubject, hq, hforward, bind, Except.bind, pure, Except.pure,
    Option.mapM_some, hbackward]
  rfl

/-- Without a scheduler the values are converted, published and written at once. -/
theorem activate_of_observe {conv back : Value → Value} {source target : ObjectId} {x y : Stream F}
    (hb : s.bindingPlan caps = .ok b) (hk : s.kind.isBidirectional = true)
    (hs : s.features.scheduler = false)
    (hx : (b.sourcePath.pipeline .after caps).observe source a = .ok x)
    (hy : (b.targetPath.pipeline .after caps).observe target a = .ok y)
    (hconv : a.Supplies K s.features.conversion .converter conv)
    (hback : a.Supplies K s.features.conversion .backConverter back) (h : Heap F C) :
    ∃ pipeline changes, b.activate source target a h =
      (.ok ⟨[(x.mapped (Mapping.stages (a.supplied? s.features.conversion .converter) (b.tag h .source)),
          .write target b.targetPath),
        ((Stream.skip y 1).mapped (Mapping.stages (a.supplied? s.features.conversion .backConverter)
          (b.tag h .target)), .write source b.sourcePath)], pipeline, changes⟩, b.prepared h) := by
  have hon : s.features.scheduler = true → ∃ i, a.scheduler = some i := by
    rw [hs]
    exact nofun
  obtain ⟨pipeline, changes, h⟩ := activate_of_pipelines hb hk hon hx hy hconv hback h
  rw [hs, if_neg Bool.false_ne_true, Stream.carried_none, Stream.carried_none] at h
  exact ⟨pipeline, changes, h⟩

/-- A plan of a two-way binding between two properties is wired to two streams that watch these. -/
theorem activate_eq {conv back : Value → Value} (hb : s.bindingPlan caps = .ok b)
    (hk : s.kind.isBidirectional = true) (hs : s.features.scheduler = false)
    (hsource : b.sourcePath.links = []) (hsc : caps.supports b.sourcePath.rootType .after = true)
    (htarget : b.targetPath.links = []) (htc : caps.supports b.targetPath.rootType .after = true)
    (hconv : a.Supplies K s.features.conversion .converter conv)
    (hback : a.Supplies K s.features.conversion .backConverter back) (source target : ObjectId)
    (h : Heap F C) :
    ∃ pipeline changes, b.activate source target a h =
      (.ok ⟨[(b.forward s a h source, .write target b.targetPath),
        (b.backward s a h target, .write source b.sourcePath)], pipeline, changes⟩, b.prepared h) := by
  have hx : (b.sourcePath.pipeline .after caps).observe source a =
      .ok (.watch source b.sourcePath.root.property .after) := by
    rw [Path.pipeline_single hsc hsource]
    rfl
  have hy : (b.targetPath.pipeline .after caps).observe target a =
      .ok (.watch target b.targetPath.root.property .after) := by
    rw [Path.pipeline_single htc htarget]
    rfl
  exact activate_of_observe hb hk hs hx hy hconv hback h

end BindingPlan

end DataBinding
