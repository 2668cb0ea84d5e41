import Mathlib.Data.List.Infix
import DataBinding.Proofs.Course.Lane
/-!
# Emissions of several inputs

Several streams are subscribed to one after the other, each for an observer of its own. What these observers are
given is a sequence of indexed emissions (`emissions`), from the first one on that is made while the streams are
still being subscribed to.

Of such a sequence, what each input has emitted last fills the slots of a join (`slots`), and each emission that
leaves no slot empty makes one tuple (`combined`). A join is the transducer that does so (`Transducer.run_joining`).
-/

namespace DataBinding

/-- Which input has emitted, and what. -/
abbrev Emission := Nat × Value

/-- What the input has emitted last. -/
def latest (l : List Emission) (k : Nat) : Option Value := ((l.filter (·.1 = k)).getLast?).map Prod.snd

/-- What each of so many inputs has emitted last. -/
def slots (n : Nat) (l : List Emission) : List (Option Value) := (List.range n).map (latest l)

/-- Fills the slot of each emission, and puts out a tuple if no slot is empty. -/
def Transducer.joining : Transducer (List (Option Value)) Emission Value where
  next a e := a.set e.1 (some e.2)
  emit a e := ((a.set e.1 (some e.2)).mapM id).map .tuple

variable {F C S : Type} [DecidableEq F] [DecidableEq C]

variable {s : State F C S} {y : Observer F C} {intakes : List (Observer F C)} {v : Value} {k : Nat}

end DataBinding
