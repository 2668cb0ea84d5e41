import DataBinding.Script.Objects
import DataBinding.Script.Subscriptions
import DataBinding.Script.Bindings
import DataBinding.Script.Inspection
/-!
# Script steps

A step names its operation. `actOf` reads it and carries it out as far as the session goes.
-/

namespace DataBinding.Script

open Reading

/-- Read a step and carry it out as far as the session goes. -/
def actOf (d : Data) : Reading Act := do
  match d.textFieldD "op" "" with
  | "object" => objectStep d
  | "init" => initStep d
  | "set" => setStep d
  | "get" => getStep d Heap.get
  | "read" => getStep d Heap.read
  | "on_change" => onChangeStep d
  | "drop_object" => dropObjectStep d
  | "read_path" => readPathStep d
  | "write_path" => writePathStep d
  | "subject" => subjectStep d
  | "next" => nextStep d
  | "drop_subject" => dropSubjectStep d
  | "scheduler" => schedulerStep d
  | "drain" => drainStep d
  | "schedule" => scheduleStep d
  | "stream" => streamStep d
  | "subscribe" => subscribeStep d
  | "teardown" => teardownStep d
  | "empty_sub" => emptyStep d
  | "dispose" => disposeStep d
  | "drop_sub" => dropSubscriptionStep d
  | "disposed" => disposedStep d
  | "panic" => return .panic (← text d "message")
  | "composite" => compositeStep d
  | "add" => addStep d
  | "composite_state" => compositeStateStep d
  | "composite_dispose" => disposeCompositeStep d
  | "composite_fold" => foldStep d
  | "drop_composite" => dropCompositeStep d
  | "activate" => activateStep d
  | "binding_dispose" => bindingDisposeStep d
  | "binding_disposed" => bindingDisposedStep d
  | "drop_binding" => dropBindingStep d
  | "dispatcher" => dispatcherStep d
  | "entry" => entryStep d
  | "resolve" => resolveStep d
  | "invoke" => invokeStep d
  | "counts" => countsStep
  | "eq" => eqStep d
  | "same_stream" => sameStreamStep d
  | "echo" => return .result ((← get).written (← valueField d "value"))
  | "apply" => applyStep d
  | "debug" => return .result (.text (← debugText d))
  | _ => fail .step

end DataBinding.Script
