import DataBinding.Live.Heap
/-!
# Clients

The machine runs what a client asks for, and calls the client back. A client is given by what its
function codes compute and by how its code goes on when it is resumed: it looks at the signal,
changes the world, and makes a move. Code that waits for a command is resumed with the command's
answer.
-/

namespace DataBinding

/-- What the machine is asked to do. -/
inductive Command (F C : Type) where
  /-- Assign a property and announce the change. -/
  | set (object : ObjectId) (property : String) (value : Value)
  /-- Assign through a path. -/
  | write (root : ObjectId) (path : Path) (value : Value)
  /-- Push a value into a subject. -/
  | next (subject : SubjectId) (value : Value)
  | deliver (observer : Observer F C) (value : Value)
  | subscribe (stream : Stream F) (observer : Observer F C)
  /-- Subscribe to one after the other, given the members so far. -/
  | subscribeAll (members : List (Teardown C)) (rest : List (Stream F × Observer F C))
  | undo (teardown : Teardown C)
  /-- Undo members one after the other, given the first panic so far. -/
  | undoAll (members : List (Teardown C)) (panic : Option String)
  /-- Undo what a handle has to undo, once. -/
  | dispose (handle : Nat)
  | disposeComposite (composite : Nat)
  /-- Move a subscription into a composite. -/
  | add (composite handle : Nat)
  | schedule (scheduler : SchedulerId) (task : Task F C)
  /-- Run the kept tasks, given how many have been run so far. -/
  | drain (scheduler : SchedulerId) (ran : Nat)

/-- What code is resumed with, and what a command answers. -/
inductive Signal (C : Type) where
  | done
  | flag (b : Bool)
  | count (n : Nat)
  | subscription (t : Teardown C)
  | value (v : Value)

/-- What resumed code does next. -/
inductive Move (F C : Type) where
  | finish
  /-- Run a command, then go on with its answer. -/
  | perform (command : Command F C) (code : C)
  /-- Go on at once. -/
  | goOn (code : C)
  | panic (message : String)

/-- The heap together with the client's own state. -/
structure World (F C S : Type) where
  heap : Heap F C
  client : S

/-- Something that can be kept alive by references to it. -/
inductive Node where
  | object (id : ObjectId)
  | subject (id : SubjectId)
  | stream (id : StreamId)
deriving DecidableEq

/-- What a client's codes mean, and what they refer to. -/
structure Client (F C S : Type) where
  /-- The result of a supplied function. -/
  apply : F → Value → World F C S → Value × World F C S
  resume : C → Signal C → World F C S → World F C S × Move F C
  functionRefs : F → List Node
  codeRefs : C → List Node
  /-- What the client itself holds. -/
  refs : S → List Node

end DataBinding
