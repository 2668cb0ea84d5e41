import DataBinding.Live.RunError
import DataBinding.Live.Stream
/-!
# Observing by plan

A pipeline together with a root object and the supplied arguments gives a stream. All functions and
the scheduler are looked up here, so a plan that cannot run fails before anything is subscribed to.
-/

namespace DataBinding

/-- What a caller supplies besides the objects. -/
structure Arguments (F : Type) where
  selector : Option F
  converter : Option F
  backConverter : Option F
  scheduler : Option SchedulerId
deriving Inhabited

namespace Arguments

variable {F : Type} (a : Arguments F)

def slot? : Slot → Option F
  | .selector => a.selector
  | .converter => a.converter
  | .backConverter => a.backConverter

/-- The function for a slot, or the error that it is missing. -/
def function (s : Slot) : Except RunError F :=
  match a.slot? s with
  | some f => .ok f
  | none => .error (.missingArgument s)

def needScheduler : Except RunError SchedulerId :=
  match a.scheduler with
  | some s => .ok s
  | none => .error .missingScheduler

end Arguments

section Observe

variable {F : Type} (root : ObjectId) (a : Arguments F)

/-- Follow a link from the objects of a stream. -/
def Stream.follow (x : Stream F) (link : Segment) (timing : Timing) : Stream F :=
  .switch x (.link link.property timing)

/-- A stream passed through an operator stage. Tagging belongs to bindings, and a source cannot
come later. -/
def Stage.applyTo (x : Stream F) : Stage → Except RunError (Stream F)
  | .chain links timing => .ok (links.foldl (fun parent link => parent.follow link timing) x)
  | .select slot => do return .map x (.apply (← a.function slot))
  | .convert slot => do return .map x (.apply (← a.function slot))
  | .wrap property => .ok (.map x (.wrap root property))
  | .distinct => .ok (.distinct x)
  | .skip n => .ok (.skip x n.toNat)
  | .emptyIfNull => .ok (.map x .emptyIfNull)
  | .switch => .ok (.switch x .stream)
  | .observeOn => do return .relocate x (← a.needScheduler)
  | .tag _ => .error (.invalidPlan .tagOutsideBinding)
  | .watch .. | .constant _ | .combineLatest _ | .merge _ => .error (.invalidPlan .sourceLater)

mutual

/-- The stream a source stage starts. -/
def Stage.start : Stage → Except RunError (Stream F)
  | .watch segment timing => .ok (.watch root segment.property timing)
  | .constant path => .ok (.constant root path)
  | .combineLatest inputs => (observeInputs inputs).map .combineLatest
  | .merge inputs => (observeInputs inputs).map .merge
  | _ => .error (.invalidPlan .noSourceFirst)

def observeInputs : List (Staged Stage) → Except RunError (List (Stream F))
  | [] => .ok []
  | p :: rest => do
    let x ← observePipeline p
    return x :: (← observeInputs rest)

def observePipeline : Staged Stage → Except RunError (Stream F)
  | ⟨first, operators⟩ => do
    let x ← first.start
    operators.foldlM (fun y stage => stage.applyTo root a y) x

end

/-- The stream of a pipeline that starts at a root object. -/
def Staged.observe (p : Pipeline) : Except RunError (Stream F) := observePipeline root a p

end Observe

end DataBinding
