import DataBinding.Live.Machine
/-!
# What is still alive

Objects and subjects live as long as something refers to them strongly: the client, what is under
way, kept tasks, or something that is itself alive. Streams, handles and bindings refer to them
weakly, and look first whether they are alive.

An observer holds what its operators have been given and what they remember. What delivers a value
holds the observer until the delivery returns, so an observer that is taken off while it runs keeps
what it holds until then; the value itself is moved along the operators and held by none of them.

Liveness is read off the state by taking away, again and again, what nothing left refers to. So
things that refer to each other in a circle stay alive.
-/

namespace DataBinding

mutual

def Value.refs : Value → List Node
  | .object id => [.object id]
  | .stream id => [.stream id]
  | .tuple items => refsItems items
  | .change sender _ v => .object sender :: v.refs
  | .tagged _ v => v.refs
  | _ => []

def refsItems : List Value → List Node
  | [] => []
  | v :: rest => v.refs ++ refsItems rest

end

section Streams

variable {F : Type} (functionRefs : F → List Node)

def Mapping.refs : Mapping F → List Node
  | .apply f => functionRefs f
  | .publish s _ => [.subject s]
  | _ => []

mutual

/-- What a stream definition holds; the objects it observes are not held. -/
def Stream.refs : Stream F → List Node
  | .just v => v.refs
  | .map s f => s.refs ++ f.refs functionRefs
  | .filter s f => s.refs ++ functionRefs f
  | .skip s _ => s.refs
  | .distinct s => s.refs
  | .switch s _ => s.refs
  | .relocate s _ => s.refs
  | .merge ss => refsStreams ss
  | .combineLatest ss => refsStreams ss
  | _ => []

def refsStreams : List (Stream F) → List Node
  | [] => []
  | s :: rest => s.refs ++ refsStreams rest

end

end Streams

section Refs

variable {F C S : Type} (K : Client F C S)

/-- What an observer holds, the values in its cells included. -/
def Observer.refs (h : Heap F C) : Observer F C → List Node
  | .client c => K.codeRefs c
  | .write .. => []
  | .map f next => f.refs K.functionRefs ++ next.refs h
  | .filter f next => K.functionRefs f ++ next.refs h
  | .skip _ next => next.refs h
  | .distinct m next => (h.memory m).elim [] Value.refs ++ next.refs h
  | .outer _ _ next => next.refs h
  | .inner _ _ next => next.refs h
  | .relocate _ _ next => next.refs h
  | .slot j _ next => (h.join j).flatMap (·.elim [] Value.refs) ++ next.refs h

def Task.refs (h : Heap F C) : Task F C → List Node
  | .deliver _ o v => o.refs K h ++ v.refs
  | .client c => K.codeRefs c

/-- What a task still holds while it is run: its value is moved on. -/
def Task.refsInRun (h : Heap F C) : Task F C → List Node
  | .deliver _ o _ => o.refs K h
  | .client c => K.codeRefs c

def Command.refs (h : Heap F C) : Command F C → List Node
  | .set o _ v => .object o :: v.refs
  | .write o _ v => .object o :: v.refs
  | .next s v => .subject s :: v.refs
  | .deliver o v => o.refs K h ++ v.refs
  | .subscribe s o => s.refs K.functionRefs ++ o.refs K h
  | .subscribeAll _ rest => rest.flatMap fun (s, o) => s.refs K.functionRefs ++ o.refs K h
  | .schedule _ t => t.refs K h
  | _ => []

def Frame.refs (h : Heap F C) : Frame F C → List Node
  | .client c => K.codeRefs c
  | .subscribed x t => x.refs K h ++ owner t
  | .notifying x rest o v =>
    .object o :: v.refs ++ (x :: rest).flatMap (·.observer.refs K h)
  | .publishing x rest s v => .subject s :: v.refs ++ (x :: rest).flatMap (·.refs K h)
  | .announcing o _ old new => .object o :: old.refs ++ new.refs
  | .changed o old new => .object o :: old.refs ++ new.refs
  | .passing next v => next.refs K h ++ v.refs
  | .writing root => [.object root]
  | .gathering x _ rest =>
    x.refs K h ++ rest.flatMap fun (s, o) => s.refs K.functionRefs ++ o.refs K h
  | .switching _ _ inner next => inner.refs K.functionRefs ++ next.refs K h
  | .entering _ _ inner => inner.refs K.functionRefs
  | .draining _ _ t => t.refsInRun K h
  | _ => []
where
  owner : Teardown C → List Node
    | .handler o _ => [.object o]
    | _ => []

def Control.refs (h : Heap F C) : Control F C → List Node
  | .run c => c.refs K h
  | .resume c s => K.codeRefs c ++ signal s
  | .pass s => signal s
  | .panic _ => []
where
  signal : Signal C → List Node
    | .value v => v.refs
    | _ => []

/-- What a live thing keeps alive. -/
def Node.refs (h : Heap F C) : Node → List Node
  | .object o =>
    match h.objects[o]? with
    | some x => x.properties.flatMap (·.2.refs) ++ x.handlers.flatMap (·.observer.refs K h)
    | none => []
  | .subject s => (h.observers s).flatMap (·.refs K h)
  | .stream s => (h.stream s).refs K.functionRefs

end Refs

namespace State

variable {F C S : Type} (K : Client F C S) (s : State F C S)

/-- What is held from outside the heap, or by kept tasks. -/
def roots : List Node :=
  let h := s.world.heap
  K.refs s.world.client ++ s.control.refs K h ++ s.frames.flatMap (·.refs K h) ++
    h.schedulers.toList.flatMap fun
      | .queue tasks => tasks.flatMap (·.refs K h)
      | .immediate => []

/-- All there is. -/
def nodes : List Node :=
  let h := s.world.heap
  (List.range h.objects.size).map .object ++ (List.range h.subjects.size).map .subject
    ++ (List.range h.streams.size).map .stream

/-- Keep what a root or something kept refers to. -/
def sweep (roots kept : List Node) : List Node :=
  let held := roots ++ kept.flatMap (·.refs K s.world.heap)
  kept.filter (· ∈ held)

/-- Sweep until nothing more is taken away; at most once for each thing there is. -/
def survivors (roots : List Node) : (rounds : Nat) → List Node → List Node
  | 0, kept => kept
  | rounds + 1, kept =>
    let kept' := s.sweep K roots kept
    if kept'.length = kept.length then kept else survivors roots rounds kept'

/-- Whether something is still alive. -/
def alive (n : Node) : Bool :=
  (K.refs s.world.client).contains n || (s.roots K).contains n ||
    (s.survivors K (s.roots K) s.nodes.length s.nodes).contains n

end State

end DataBinding
