import DataBinding.Live.Observation
import DataBinding.Live.Step
/-!
# Live bindings

A binding plan becomes streams whose values are written on the other side. Both directions are
built before anything is subscribed to. The direction from the source is subscribed first, so its
first value is written into the target before the target is read back.
-/

namespace DataBinding

/-- One direction of a binding: the values as they are written, and the same values without their
publication. -/
structure Direction (F : Type) where
  published : Stream F
  plain : Stream F

section Build

variable {F : Type} (root : ObjectId) (a : Arguments F)

/-- Pass a stream through the operators of a direction. Tagging only notes the side; the last one
counts. -/
def applyOperators (x : Stream F) (operators : List Stage) :
    Except RunError (Stream F × Option Side) :=
  operators.foldlM (fun (y, side) stage =>
    match stage with
    | .tag s => .ok (y, some s)
    | _ => do return (← stage.applyTo root a y, side)) (x, none)

/-- A direction from a root object; `changes` is where tagged values are published. -/
def direction (p : Pipeline) (operators : List Stage) (changes : Option SubjectId) :
    Except RunError (Direction F) := do
  let (plain, side) ← applyOperators root a (← p.observe root a) operators
  match side, changes with
  | none, _ => return ⟨plain, plain⟩
  | some side, some subject => return ⟨.map plain (.publish subject side), plain⟩
  | some _, none => .error (.invalidPlan .tagWithoutChanges)

/-- Both directions of a binding. -/
structure Wiring (F : Type) where
  forward : Direction F
  backward : Option (Direction F)

namespace BindingPlan

variable (b : BindingPlan) (source target : ObjectId)

def wire (changes : Option SubjectId) : Except RunError (Wiring F) := do
  let forward ← direction source a b.source b.toTarget changes
  let backward ← b.target.mapM fun p => direction target a p b.toSource changes
  return ⟨forward, backward⟩

/-- The subscriptions that make up the live binding, in order. -/
def subscriptions {C : Type} (x : Wiring F) : List (Stream F × Observer F C) :=
  (x.forward.published, .write target b.targetPath) ::
    x.backward.toList.map fun y => (y.published, .write source b.sourcePath)

end BindingPlan

end Build

/-- What is left of a plan once it is wired: the subscriptions to be made, the values of the forward
direction, and the published changes of a tagged binding. -/
structure Activation (F C : Type) where
  subscriptions : List (Stream F × Observer F C)
  pipeline : Stream F
  changes : Option (Stream F)

/-- What the streams of an activation hold. -/
def Activation.refs {F C : Type} (functionRefs : F → List Node) (x : Activation F C) : List Node :=
  x.subscriptions.flatMap (·.1.refs functionRefs) ++ x.pipeline.refs functionRefs

/-- Wire a plan between two objects. A tagged binding gets a new subject for its changes, and it gets it
before it is wired: the heap that is left is told of failures too. -/
def BindingPlan.activate {F C : Type} (b : BindingPlan) (source target : ObjectId)
    (a : Arguments F) (h : Heap F C) : Except RunError (Activation F C) × Heap F C :=
  let (subject, h') := h.newSubject
  let changes := if b.mode = .tagged then some subject else none
  ((b.wire a source target changes).map fun x =>
      ⟨b.subscriptions source target x, x.forward.plain, changes.map .subject⟩,
    if b.mode = .tagged then h' else h)

/-- A live binding. -/
structure Binding where
  handle : Nat
  pipeline : StreamId
  changes : Option StreamId

end DataBinding
