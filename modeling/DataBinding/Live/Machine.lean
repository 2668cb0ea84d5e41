import DataBinding.Live.Client
/-!
# States of the machine

A state has a control (the command to run, a signal to pass back, or a panic), the frames of what is
under way, innermost first, and the world. Frames say what remains to be done when a signal comes
back, and what has to be cleaned up when a panic does. A frame that delivers a value also keeps the
observer it delivers to, whether or not that is still registered anywhere.
-/

namespace DataBinding

/-- What is under way, waiting for a signal. -/
inductive Frame (F C : Type) where
  /-- Client code waits for an answer. -/
  | client (code : C)
  /-- The first value is being delivered to the observer of a new subscription, which is then the
  answer. -/
  | subscribed (observer : Observer F C) (teardown : Teardown C)
  /-- Handlers of an object are being told a value: one of them now, then the rest. -/
  | notifying (current : Handler F C) (rest : List (Handler F C)) (object : ObjectId)
      (value : Value)
  /-- Observers of a subject are being given a value: one of them now, then the rest. -/
  | publishing (current : Observer F C) (rest : List (Observer F C)) (subject : SubjectId)
      (value : Value)
  /-- A change is being announced beforehand. -/
  | announcing (object : ObjectId) (property : String) (old new : Value)
  /-- A change is being announced afterwards. -/
  | changed (object : ObjectId) (old new : Value)
  /-- A value has been published and is then passed on. -/
  | passing (next : Observer F C) (value : Value)
  /-- A value is being written through a path from an object. -/
  | writing (root : ObjectId)
  /-- One of several streams is being subscribed to, for this observer; these remain. -/
  | gathering (observer : Observer F C) (members : List (Teardown C))
      (rest : List (Stream F × Observer F C))
  /-- The source of a relocated stream is being subscribed to. -/
  | relocating (gate : Nat)
  /-- The source of a switch is being subscribed to. -/
  | opening (switch : Nat)
  /-- The inner subscription before this one is being undone. -/
  | switching (switch generation : Nat) (inner : Stream F) (next : Observer F C)
  /-- An inner stream is being subscribed to. -/
  | entering (switch generation : Nat) (inner : Stream F)
  /-- The source of a stopped switch is being undone. -/
  | closing (switch : Nat)
  /-- Members are being undone; these remain. -/
  | undoing (rest : List (Teardown C)) (panic : Option String)
  /-- One of the kept tasks is being run. -/
  | draining (scheduler : SchedulerId) (ran : Nat) (task : Task F C)
  /-- Cleaning up after a panic, which then goes on. -/
  | unwinding (message : String)

inductive Control (F C : Type) where
  | run (command : Command F C)
  | pass (signal : Signal C)
  | resume (code : C) (signal : Signal C)
  | panic (message : String)

structure State (F C S : Type) where
  control : Control F C
  frames : List (Frame F C)
  world : World F C S

end DataBinding
