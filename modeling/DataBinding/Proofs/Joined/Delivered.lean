import DataBinding.Proofs.Joined.Emissions
import DataBinding.Proofs.Machine.Sessions
/-!
# Combine-latest and merge

A code subscribes to several streams at once. Wherever the run stops, the code has been given the trace of what the
inputs have emitted since then (`State.Unheard.joins`): for combine-latest the tuples of the latest values, and for
merge every value once, in the order of the emissions.
-/

namespace DataBinding

variable {F C S : Type} {K : Client F C S} {code : C}

variable [DecidableEq F] [DecidableEq C]

section Renders

variable {s : State F C S} {intakes : List (Observer F C)} {trace : List Emission → List Value}

end Renders

/-! ## Combine-latest -/

/-- The observers that fill the slots of a join, in order. -/
def Observer.slots (j n : Nat) (z : Observer F C) : List (Observer F C) := (List.range n).map (.slot j · z)

namespace Observer

omit [DecidableEq F] [DecidableEq C]
variable (j n : Nat) (z : Observer F C)

end Observer

section Asked

variable {s : State F C S} (hu : s.Unheard code)
include hu

end Asked

/-! ## Two subjects -/

/-- Of a client that holds these things: functions that pair each value with a sign of their own, and code that notes
the values it is given. -/
def Client.signing (held : List Node) : Client Bool Bool (List (Bool × Value)) where
  apply b v w := (.tuple [.bool b, v], w)
  resume
    | code, .value v, w => (⟨w.heap, w.client ++ [(code, v)]⟩, .finish)
    | _, _, w => (w, .finish)
  functionRefs _ := []
  codeRefs _ := []
  refs _ := held

/-- Two subjects, to which nobody has subscribed. -/
def World.twoSubjects : World Bool Bool (List (Bool × Value)) := ⟨Heap.empty.newSubject.2.newSubject.2, []⟩

namespace State

/-- Somebody else has subscribed to the first of the two subjects. -/
def tapped : State Bool Bool (List (Bool × Value)) :=
  (World.twoSubjects.ended (.signing [.subject 0, .subject 1]) 20 [.subscribe (.subject 0) (.client false)]).getLastD
    (World.twoSubjects.start (.subscribe (.subject 0) (.client false)))

end State

/-- One of the streams emits at once, and one occurs twice. -/
def Stream.mixed : List (Stream Bool) := [.just .null, .subject 0, .subject 0, .subject 1]

end DataBinding
