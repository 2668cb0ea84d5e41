import DataBinding.Plan
import DataBinding.Written.Site
/-!
# Written plans

A stage is a record that names it; a pipeline is the list of its stages.
-/

namespace DataBinding

/-! ## Writing -/

mutual

def Stage.toData : Stage → Data
  | .watch s t => named "watch" [("segment", s.toData), ("mode", t.toData)]
  | .constant p => named "constant" [("path", p.toData)]
  | .combineLatest inputs => named "combine_latest" [("inputs", .list (inputsToData inputs))]
  | .merge inputs => named "merge" [("inputs", .list (inputsToData inputs))]
  | .chain links t =>
    named "chain" [("links", .list (links.map Segment.toData)), ("mode", t.toData)]
  | .select s => named "select" [("slot", .text s.word)]
  | .convert s => named "convert" [("slot", .text s.word)]
  | .wrap p => named "wrap" [("property", Data.ofOption .text p)]
  | .distinct => named "distinct" []
  | .skip n => named "skip" [("n", .ofNat n.toNat)]
  | .emptyIfNull => named "empty_if_null" []
  | .switch => named "switch" []
  | .observeOn => named "observe_on" []
  | .tag s => named "tag" [("origin", .text s.word)]
where
  named (name : String) (fields : List (String × Data)) : Data :=
    .record (("stage", .text name) :: fields)

def inputsToData : List (Staged Stage) → List Data
  | [] => []
  | p :: rest => pipelineToData p :: inputsToData rest

def pipelineToData : Staged Stage → Data
  | ⟨first, operators⟩ => .list (first.toData :: operatorsToData operators)

def operatorsToData : List Stage → List Data
  | [] => []
  | s :: rest => s.toData :: operatorsToData rest

end

/-- The list of the stages. -/
def Staged.toData (p : Pipeline) : Data := pipelineToData p

/-- A pipeline with what can be told of it. -/
def Staged.report (p : Pipeline) : Data := .record [
  ("describe", .text p.describe),
  ("stages", p.toData),
  ("constant", .bool p.isConstant),
  ("operators", .ofNat p.operators.length),
  ("source_ok", .bool p.first.isSource),
  ("slots", .texts (p.slots.map Slot.word))]

def BindingPlan.report (b : BindingPlan) : Data := .record [
  ("describe", .text b.describe),
  ("mode", .text b.mode.name),
  ("source_path", b.sourcePath.toData),
  ("target_path", b.targetPath.toData),
  ("source", b.source.toData),
  ("target", Data.ofOption Staged.toData b.target),
  ("to_target", .list (b.toTarget.map Stage.toData)),
  ("to_source", .list (b.toSource.map Stage.toData))]

/-! ## Reading -/

def Data.slotField (d : Data) : Read Slot :=
  Read.need "slot" ((d.get "slot").asText?.bind fun w =>
    [Slot.selector, .converter, .backConverter].find? (·.word == w))

def Side.ofWord? (w : String) : Option Side := [Side.source, .target].find? (·.word == w)

def Data.sideField (d : Data) : Read Side :=
  Read.need "origin" ((d.get "origin").asText?.bind Side.ofWord?)

def Data.segmentField (d : Data) (name : String) : Read Segment :=
  Read.need name (Segment.ofData? (d.get name))

mutual

/-- How deep lists and records are nested. -/
def Data.depth : Data → Nat
  | .list items => depthItems items + 1
  | .record fields => depthFields fields + 1
  | _ => 0

def depthItems : List Data → Nat
  | [] => 0
  | d :: rest => max d.depth (depthItems rest)

def depthFields : List (String × Data) → Nat
  | [] => 0
  | (_, d) :: rest => max d.depth (depthFields rest)

end

/-- The stages of a pipeline, of which there must be one. -/
def Staged.ofStages : List Stage → Read Pipeline
  | [] => .error (.fault .emptyPlan)
  | first :: operators => .ok ⟨first, operators⟩

/-- The stage in a tree of at most this depth. -/
def Stage.ofDataWithin : (depth : Nat) → Data → Read Stage
  | 0, _ => .error (.fault (.field "stage"))
  | depth + 1, d => do
    let inputs : Read (List Pipeline) := do
      (← d.listField "inputs").mapM fun input => do
        Staged.ofStages (← (← Read.need "inputs" input.asList?).mapM (ofDataWithin depth))
    match ← d.textField "stage" with
    | "watch" => return .watch (← d.segmentField "segment") (← d.timingField)
    | "constant" => return .constant (← d.pathField "path")
    | "combine_latest" => return .combineLatest (← inputs)
    | "merge" => return .merge (← inputs)
    | "chain" =>
      let links ← (← d.listField "links").mapM Segment.ofData
      return .chain links (← d.timingField)
    | "select" => return .select (← d.slotField)
    | "convert" => return .convert (← d.slotField)
    | "wrap" => return .wrap (d.get "property").asText?
    | "distinct" => return .distinct
    | "skip" => return .skip (← d.indexField "n").toUInt64
    | "empty_if_null" => return .emptyIfNull
    | "switch" => return .switch
    | "observe_on" => return .observeOn
    | "tag" => return .tag (← d.sideField)
    | _ => .error (.fault (.field "stage"))

def Stage.ofData (d : Data) : Read Stage := Stage.ofDataWithin (d.depth + 1) d

/-- The list of stages in a field. -/
def Data.stagesField (d : Data) (name : String) : Read (List Stage) := do
  (← d.listField name).mapM Stage.ofData

def Data.pipelineField (d : Data) (name : String) : Read Pipeline := do
  Staged.ofStages (← d.stagesField name)

namespace BindingPlan

def ofData (d : Data) : Read BindingPlan := do
  let mode ← Read.need "mode" ((d.get "mode").asText?.bind fun n =>
    [BindingMode.oneWay, .twoWay, .tagged].find? (·.name == n))
  let sourcePath ← d.pathField "source_path"
  let targetPath ← d.pathField "target_path"
  let source ← d.pipelineField "source"
  let toTarget ← d.stagesField "to_target"
  let target ← if (d.get "target").isNull then pure none else some <$> d.pipelineField "target"
  let toSource ← d.stagesField "to_source"
  return { mode, sourcePath, targetPath, source, toTarget, target, toSource }

end BindingPlan

end DataBinding
