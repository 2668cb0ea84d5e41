import DataBinding.Live.Value
/-!
# Streams and observers

A stream is a definition: it does nothing until it is subscribed to, and each subscription has its
own state. An observer is what receives the values of a subscription: a chain of operators that ends
in client code or in a write through a path. Operators with state refer to a cell of the heap by its
number. A teardown says what there is to undo when a subscription is disposed.

Functions and code of the client occur here only as codes, of types `F` and `C`; what they do is
given with the machine.
-/

namespace DataBinding

/-- What a mapping does to each value. -/
inductive Mapping (F : Type) where
  /-- Apply a supplied function. -/
  | apply (f : F)
  /-- Wrap the value in a record of the change. -/
  | wrap (sender : ObjectId) (property : Option String)
  /-- Put a new empty stream in the place of what is no stream. -/
  | emptyIfNull
  /-- Publish the value with its side, and pass it on unchanged. -/
  | publish (subject : SubjectId) (side : Side)

/-- How a switch takes the next inner stream from a value. -/
inductive Selection where
  /-- Watch a property of an object; a single null for anything else. -/
  | link (property : String) (timing : Timing)
  /-- The stream itself; the empty stream for anything else. -/
  | stream

inductive Stream (F : Type) where
  | empty
  | just (value : Value)
  /-- The present value of a property, then one value for each notification. An empty property name
  stands for every property; then the object itself is reported. -/
  | watch (object : ObjectId) (property : String) (timing : Timing)
  /-- The value at the end of a path, read at subscription. -/
  | constant (root : ObjectId) (path : Path)
  /-- What is pushed into a subject. -/
  | subject (id : SubjectId)
  | map (source : Stream F) (f : Mapping F)
  /-- The values for which the function yields true. -/
  | filter (source : Stream F) (f : F)
  /-- All but the first values. -/
  | skip (source : Stream F) (count : Nat)
  /-- All but the values equal to the one before. -/
  | distinct (source : Stream F)
  /-- The values of the latest inner stream. -/
  | switch (source : Stream F) (select : Selection)
  /-- The values delivered on a scheduler. -/
  | relocate (source : Stream F) (scheduler : SchedulerId)
  | merge (sources : List (Stream F))
  /-- Tuples of the latest value of each source, once each has one. -/
  | combineLatest (sources : List (Stream F))
deriving Inhabited

/-- What receives the values of a subscription. -/
inductive Observer (F C : Type) where
  | client (code : C)
  /-- Write each value through a path. -/
  | write (root : ObjectId) (path : Path)
  | map (f : Mapping F) (next : Observer F C)
  | filter (f : F) (next : Observer F C)
  /-- Cell `counter` holds how many values are still to be left out. -/
  | skip (counter : Nat) (next : Observer F C)
  /-- Cell `memory` holds the value passed on last. -/
  | distinct (memory : Nat) (next : Observer F C)
  /-- Receives the values that inner streams are taken from. -/
  | outer (switch : Nat) (select : Selection) (next : Observer F C)
  /-- Receives the values of the inner stream with this number. -/
  | inner (switch generation : Nat) (next : Observer F C)
  /-- Hand each value to a scheduler, to be delivered while the gate is open. -/
  | relocate (gate : Nat) (scheduler : SchedulerId) (next : Observer F C)
  /-- Source `index` of a join. -/
  | slot (join index : Nat) (next : Observer F C)

/-- What there is to undo when a subscription is disposed. -/
inductive Teardown (C : Type) where
  | nothing
  /-- Take a handler off an object. -/
  | handler (object : ObjectId) (id : Nat)
  /-- Take an observer off a subject. -/
  | observer (subject : SubjectId) (id : Nat)
  /-- Shut the gate, then undo the source. -/
  | relocate (gate : Nat) (source : Teardown C)
  /-- Stop the switch, undo its source, then its inner subscription. -/
  | switch (switch : Nat) (source : Teardown C)
  /-- Undo each member, in order. -/
  | all (members : List (Teardown C))
  /-- Dispose a composite. -/
  | composite (id : Nat)
  | client (code : C)
deriving Inhabited

namespace Teardown

/-- With nothing to undo a subscription counts as disposed. -/
def isNothing {C : Type} : Teardown C → Bool
  | nothing => true
  | _ => false

end Teardown

end DataBinding
