import DataBinding.CallUnit
import DataBinding.Live.Binding
/-!
# Calling entry points

A dispatcher holds units. A call names an entry point; its first arm that accepts the caller decides
which implementation of the same unit runs.
-/

namespace DataBinding

structure Dispatcher where
  units : List CallUnit

namespace Dispatcher

variable (d : Dispatcher)

/-- All entry points, each with its unit, in order. -/
def entries : List (CallUnit × EntryPoint) :=
  d.units.flatMap fun u => u.entryPoints.map (u, ·)

/-- The entry point of a name with its unit; of several the last one counts. -/
def entry? (name : String) : Option (CallUnit × EntryPoint) :=
  d.entries.reverse.find? fun (_, e) => e.name == name

/-- How many names there are. -/
def entryCount : Nat := (d.entries.map fun (_, e) => e.name).eraseDups.length

/-- The implementation a call leads to. -/
def resolve (name : String) (c : Caller) : Except RunError Implementation :=
  match d.entry? name with
  | none => .error (.unknownEntry name)
  | some (u, e) =>
    match e.resolve? c with
    | none => .error (.unresolved name c.file c.line)
    | some arm =>
      match u.implementation? arm.implementation with
      | none => .error (.unknownImplementation name arm.implementation)
      | some i => .ok i

/-- What a call sets going. -/
inductive Outcome (F C : Type) where
  | observation (stream : Stream F)
  | binding (activation : Activation F C)

/-- Run the implementation a call leads to. A binding writes into the receiver and needs a source
object to read from. The heap that is left is told of failures too. -/
def invoke {F C : Type} (name : String) (c : Caller) (receiver : ObjectId)
    (source : Option ObjectId) (a : Arguments F) (h : Heap F C) :
    Except RunError (Outcome F C) × Heap F C :=
  match d.resolve name c with
  | .error e => (.error e, h)
  | .ok i =>
    match i.plan with
    | .observation p => ((p.observe receiver a).map .observation, h)
    | .binding b =>
      match source with
      | none => (.error (.missingSource i.name), h)
      | some source =>
        let (x, h') := b.activate source receiver a h
        (x.map .binding, h')

end Dispatcher

end DataBinding
