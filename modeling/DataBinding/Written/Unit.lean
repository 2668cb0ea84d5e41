import DataBinding.CallUnit
import DataBinding.Written.Plan
/-!
# Written units

How rules, parameters, entry points, groups and units are written, and the changes that can be
made to units by request.
-/

namespace DataBinding

namespace Rule

def toData : Rule → Data
  | exactText texts => .record [("texts", .texts texts)]
  | positional line suffix => .record [("line", .ofNat line.toNat), ("suffix", .text suffix)]

/-- A rule by text if there are texts, else one by position. -/
def ofData (d : Data) : Read Rule := do
  if (d.get "texts").isNull then
    let line ← d.lineField
    return .positional line (← d.textField "suffix")
  else
    return .exactText (← d.textsField "texts")

end Rule

def Role.toData : Role → Data
  | receiver t => .list [.text "receiver", t.toData]
  | sourceRoot t => .list [.text "source_root", t.toData]
  | property r l => .list [.text "property", r.toData, l.toData]
  | selector inputs o =>
    .list [.text "selector", .list (inputs.map TypeRef.toData), o.toData]
  | converter s t => .list [.text "converter", s.toData, t.toData]
  | backConverter s t => .list [.text "back_converter", s.toData, t.toData]
  | scheduler => .list [.text "scheduler"]
  | argumentText i => .list [.text "argument_expression", .ofNat i]
  | filePath => .list [.text "file_path"]
  | lineNumber => .list [.text "line_number"]

def Parameter.toData (p : Parameter) : Data :=
  .record [("name", .text p.name), ("kind", p.role.toData)]

def Arm.toData (a : Arm) : Data :=
  .record [("rule", a.rule.toData), ("implementation", .text a.implementation)]

def EntryPoint.toData (e : EntryPoint) : Data := .record [
  ("name", .text e.name),
  ("kind", e.kind.toData),
  ("signature", .text e.signature.describe),
  ("parameters", .list (e.parameters.map Parameter.toData)),
  ("arms", .list (e.arms.map Arm.toData))]

def Group.toData (g : Group) : Data := .record [
  ("key", g.signature.toData),
  ("representative", g.first.place),
  ("members", .list (g.members.map fun s => .list [s.place, .text s.discriminator]))]

def Implementation.toData (i : Implementation) : Data := .record [
  ("name", .text i.name),
  ("location", i.site.place),
  ("discriminator", .text i.site.discriminator),
  ("plan", .text i.plan.describe)]

namespace CallUnit

def toData (u : CallUnit) : Data := .record [
  ("kind", u.kind.toData),
  ("entry_points", .list (u.entryPoints.map EntryPoint.toData)),
  ("implementations", .list (u.implementations.map Implementation.toData))]

def Problem.toData (p : Problem) : Data := .list [.text p.name, .text p.message]

/-! ## Changes by request -/

/-- A change to one unit. -/
inductive Mutation where
  | entryName (entry : Nat) (name : String)
  | armImplementation (entry arm : Nat) (name : String)
  | dropArms (entry : Nat)
  | implementationName (index : Nat) (name : String)
  | implementationSite (index : Nat) (site : CallSite)
  | dropImplementation (index : Nat)

/-- Change the element at an index, if there is one. -/
def modifyAt? {α : Type} (l : List α) (i : Nat) (f : α → Option α) : Option (List α) := do
  let a ← l[i]?
  return l.set i (← f a)

def mutate? (u : CallUnit) : Mutation → Option CallUnit
  | .entryName e name => do
    return { u with entryPoints := ← modifyAt? u.entryPoints e fun x => some { x with name } }
  | .armImplementation e a name => do
    return { u with
      entryPoints := ← modifyAt? u.entryPoints e fun x => do
        return { x with
          arms := ← modifyAt? x.arms a fun y => some { y with implementation := name } } }
  | .dropArms e => do
    return { u with entryPoints := ← modifyAt? u.entryPoints e fun x => some { x with arms := [] } }
  | .implementationName i name => do
    return { u with
      implementations := ← modifyAt? u.implementations i fun x => some { x with name } }
  | .implementationSite i site => do
    return { u with
      implementations := ← modifyAt? u.implementations i fun x => some { x with site } }
  | .dropImplementation i =>
    if i < u.implementations.length then
      some { u with implementations := u.implementations.eraseIdx i }
    else none

namespace Mutation

def ofData (d : Data) : Read Mutation := do
  match ← d.textField "m" with
  | "entry_name" => return .entryName (← d.indexField "entry") (← d.textField "name")
  | "arm_impl" =>
    return .armImplementation (← d.indexField "entry") (← d.indexField "arm") (← d.textField "name")
  | "drop_arms" => return .dropArms (← d.indexField "entry")
  | "impl_name" => return .implementationName (← d.indexField "impl") (← d.textField "name")
  | "impl_site" => return .implementationSite (← d.indexField "impl") (← d.siteField "site")
  | "drop_impl" => return .dropImplementation (← d.indexField "impl")
  | _ => .error (.fault (.field "m"))

end Mutation

/-- Read a change and make it. -/
def applyMutation (units : List CallUnit) (d : Data) : Read (List CallUnit) := do
  let unit ← d.indexField "unit"
  let mutation ← Mutation.ofData d
  match modifyAt? units unit (·.mutate? mutation) with
  | some units => return units
  | none => .error (.fault .mutationIndex)

def applyMutations (units : List CallUnit) (ds : List Data) : Read (List CallUnit) :=
  ds.foldlM applyMutation units

end CallUnit

end DataBinding
