import DataBinding.Script.Act
/-!
# Steps on bindings and dispatchers

A binding is activated from its plan, or from a call site that stands for one. A dispatcher takes a
caller to the implementation generated for it, and may invoke it.
-/

namespace DataBinding.Script

open Reading

/-! ## Bindings -/

/-- The plan of a binding, given as such or by a call site. -/
def bindingPlanOf (d : Data) : Reading BindingPlan := do
  if (d.get "site").isNull then liftM (BindingPlan.ofData (d.get "plan"))
  else
    let site ← liftM (d.siteField "site")
    let caps ← liftM (d.capsField (← get).client.caps)
    liftM ((site.bindingPlan caps).mapError Failure.rejected)

/-- What supplied functions hold. -/
def argumentRefs (a : Arguments Function) : List Node :=
  [a.selector, a.converter, a.backConverter].flatMap (·.elim [] Function.refs)

/-- Make the subscriptions of a binding, and store it if an id is given. Meanwhile its streams and
all supplied functions are held, whether or not the plan needs them, besides what is listed. -/
def activation (id : Option String) (x : Activation Function Code) (a : Arguments Function)
    (result : Bool → Data) (holding : List Node) : Reading Act := do
  let pipeline ← newStream x.pipeline
  let changes ← x.changes.mapM newStream
  return .perform (.subscribeAll [] x.subscriptions)
    (.bound id pipeline changes (result changes.isSome))
    (holding ++ argumentRefs a ++ x.refs Function.refs)

def activateStep (d : Data) : Reading Act := do
  let id ← text d "id"
  let plan ← bindingPlanOf d
  let source ← objectField d "source"
  let target ← objectField d "target"
  let a ← argumentsField d
  let w ← get
  let (x, h) := plan.activate source target a w.heap
  set (w.withHeap h)
  let x ← liftM (x.mapError Failure.run)
  activation (some id) x a (fun b => .record [("changes", .bool b)])
    [.object source, .object target]

def bindingDisposeStep (d : Data) : Reading Act := do
  let b ← binding (← text d "binding")
  return .perform (.dispose b.handle) (.result (.ok (.bool true))) []

def bindingDisposedStep (d : Data) : Reading Act := do
  let b ← binding (← text d "binding")
  return .result (.bool ((← get).heap.teardown b.handle).isNothing)

def dropBindingStep (d : Data) : Reading Act := do
  let id ← text d "binding"
  let b ← binding id
  update fun s => { s with bindings := s.bindings.remove id }
  return .silently (.dispose b.handle) []

/-! ## Dispatchers -/

def dispatcherStep (d : Data) : Reading Act := do
  let id ← text d "id"
  let strategy ← liftM d.strategyField
  let caps ← liftM (d.capsField (← get).client.caps)
  let sets ← (← liftM (d.listField "site_sets")).mapM fun set => do
    let sites ← (← need "site_sets" set.asList?).mapM fun s => liftM (CallSite.ofData s)
    liftM ((CallUnit.generateAll sites caps strategy).mapError Failure.rejected)
  let units ← liftM (CallUnit.applyMutations sets.flatten (d.listFieldD "mutations"))
  store Session.dispatchers (fun s t => { s with dispatchers := t }) id ⟨units⟩
  return .result (.list (units.map fun u => .texts (u.entryPoints.map EntryPoint.name)))

/-- The name of an entry point, given as such or by a call site it would serve. -/
def entryName (d : Data) : Reading String := do
  match d.get "entry" with
  | .text name => return name
  | e =>
    if (e.get "site").isNull then fail (.field "entry")
    else
      let site ← liftM (e.siteField "site")
      return entryPointName site.kind site.signature

def entryStep (d : Data) : Reading Act := do
  let x ← dispatcher (← text d "dispatcher")
  let name ← entryName d
  return .result (Data.ofOption (fun (_, e) => e.toData) (x.entry? name))

def resolveStep (d : Data) : Reading Act := do
  let x ← dispatcher (← text d "dispatcher")
  let name ← entryName d
  let c ← liftM (Caller.ofData (d.get "caller"))
  let i ← liftM ((x.resolve name c).mapError Failure.run)
  return .result (.record [("name", .text i.name), ("location", i.site.place),
    ("plan", .text i.plan.describe)])

/-- What an invocation tells: what came of it, and whether that was wanted. -/
def invoked (kind : String) (taken : Bool) : Data :=
  .record [("activation", .text kind), ("taken", .bool taken)]

def invokeStep (d : Data) : Reading Act := do
  let id ← text d "id"
  let x ← dispatcher (← text d "dispatcher")
  let name ← entryName d
  let c ← liftM (Caller.ofData (d.get "caller"))
  let receiver ← objectField d "receiver"
  let source ← if (d.get "source").isNull then pure none else some <$> objectField d "source"
  let a ← argumentsField d
  let take := d.textFieldD "take" ""
  let w ← get
  let (outcome, h) := x.invoke name c receiver source a w.heap
  set (w.withHeap h)
  match ← liftM (outcome.mapError Failure.run) with
  | .observation stream =>
    if take = "binding" then return .result (invoked "observation" false)
    else
      let i ← newStream stream
      store Session.streams (fun s t => { s with streams := t }) id i
      return .result (invoked "observation" true)
  | .binding b =>
    let taken := take ≠ "stream"
    activation (if taken then some id else none) b a (fun _ => invoked "binding" taken)
      (.object receiver :: source.toList.map .object)

end DataBinding.Script
