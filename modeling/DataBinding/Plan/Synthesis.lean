import DataBinding.Capability
import DataBinding.CallSite.Check
import DataBinding.Plan
/-!
# Planning call sites

From a call site and the capabilities of types to a plan. A path whose root raises no notifications
is read once. Otherwise its root property is watched, further links follow the latest parent, and
for completed changes a value equal to the one before is left out.
-/

namespace DataBinding

/-- The pipeline that observes one path. -/
def Path.pipeline (p : Path) (timing : Timing) (caps : Capabilities) : Pipeline :=
  if !caps.supports p.rootType timing then ⟨.constant p, []⟩
  else if p.links.isEmpty then ⟨.watch p.root timing, []⟩
  else
    Staged.andThenIf ⟨.watch p.root timing, [.chain p.links timing]⟩
      (timing == .after && !p.leaf.isAny) .distinct

namespace CallSite

variable (s : CallSite) (caps : Capabilities)

/-- The pipeline of each path. -/
def pathPipelines : List (Path × Pipeline) :=
  s.paths.map fun p => (p, p.pipeline s.timing caps)

/-- Several inputs joined as `join` says; a single input stands for itself. -/
def joined (inputs : List Pipeline) (join : List Pipeline → Stage) : Pipeline :=
  match inputs with
  | [p] => p
  | _ => ⟨join inputs, []⟩

/-- Apply the selector if there is one, then deliver on the scheduler if there is one. -/
def finish (p : Pipeline) : Pipeline :=
  (p.andThenIf s.features.selector (.select .selector)).andThenIf s.features.scheduler .observeOn

/-- Plain observation: the value of the path, or a tuple of the values of several. -/
def observation : Pipeline :=
  s.finish (joined ((s.pathPipelines caps).map Prod.snd) .combineLatest)

/-- Observation of changes: each value comes with the sender and the dotted path, which is absent
where the path ends in every property. -/
def changeObservation : Pipeline :=
  let wrapped := (s.pathPipelines caps).map fun (p, plan) =>
    plan.andThen (.wrap (if p.leaf.isAny then none else some p.display))
  s.finish (joined wrapped .combineLatest)

/-- Observation of properties that hold streams. Several are merged, or joined to tuples where a
selector wants them. -/
def streamObservation : Pipeline :=
  let flattened := (s.pathPipelines caps).map fun (_, plan) =>
    (plan.andThen .emptyIfNull).andThen .switch
  s.finish (joined flattened (if s.features.selector then .combineLatest else .merge))

/-- The mode of binding a kind asks for. -/
def bindingMode? : CallKind → Option BindingMode
  | .oneWayBind => some .oneWay
  | .twoWayBind => some .twoWay
  | .taggedBind => some .tagged
  | _ => none

/-- The operators between the source and the write into the target. -/
def toTarget (mode : BindingMode) : List Stage :=
  (if s.features.selector then [.select .selector] else [])
    ++ (if s.features.conversion then [.convert .converter] else [])
    ++ (if s.features.scheduler then [.observeOn] else [])
    ++ (if mode = .tagged then [.tag .source] else [])

/-- The operators between the target and the write into the source. The first value read back is
the one just written into the target, and is left out. -/
def toSource (mode : BindingMode) : List Stage :=
  [.skip 1]
    ++ (if s.features.conversion then [.convert .backConverter] else [])
    ++ (if s.features.scheduler then [.observeOn] else [])
    ++ (if mode = .tagged then [.tag .target] else [])

/-- The plan of a binding; turns down a call site of another kind, or one with a defect. Missing
texts do not matter here. -/
def bindingPlan : Except Rejection BindingPlan := do
  let some mode := bindingMode? s.kind
    | .error ⟨s.kind, s.location, .kindMismatch .oneWayBind s.kind⟩
  s.check s.kind .positional
  match s.paths with
  | [source, target] =>
    return {
      mode
      sourcePath := source
      targetPath := target
      source := source.pipeline .after caps
      toTarget := s.toTarget mode
      target := if mode = .oneWay then none else some (target.pipeline .after caps)
      toSource := if mode = .oneWay then [] else s.toSource mode }
  | paths => .error ⟨s.kind, s.location, .arity "2" paths.length⟩

/-- The plan of a call site, as its kind asks. -/
def plan : Except Rejection Plan :=
  match s.kind with
  | .observe | .observeMany => .ok (.observation (s.observation caps))
  | .whenAny => .ok (.observation (s.changeObservation caps))
  | .whenAnyObservable => .ok (.observation (s.streamObservation caps))
  | .oneWayBind | .twoWayBind | .taggedBind => (s.bindingPlan caps).map .binding

end CallSite

end DataBinding
