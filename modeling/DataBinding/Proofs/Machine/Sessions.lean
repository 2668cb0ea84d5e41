import Mathlib.Data.List.Forall2
import DataBinding.Proofs.Machine.Completes
/-!
# Commands one after the other

A command that is run with nothing else under way answers and leaves a world (`World.Answers`); from
there the next one is run (`World.Performs`). Where it matters what happens on the way, the states gone
through are given too, of the whole session (`World.Traces`) or of each call (`World.Each`). Commands may also
be undergone, whatever each of them comes to (`World.Undergoes`).
-/

namespace DataBinding

variable {F C S : Type} {K : Client F C S}

/-- A property of an object and the value it is given. -/
structure Assignment where
  object : ObjectId
  property : String
  value : Value

namespace Assignment

variable (s : Assignment)

def command : Command F C := .set s.object s.property s.value

/-- The object exists, and so does the one that is assigned, if any. -/
def Valid (h : Heap F C) : Prop :=
  s.object < h.objects.size ∧ ∀ b, s.value = .object b → b < h.objects.size

/-- What the property holds before. -/
def old (h : Heap F C) : Value := h.get s.object s.property

end Assignment

namespace World

/-- A new handle undoes this. -/
def keeping (w : World F C S) (t : Teardown C) : World F C S := w.withHeap (w.heap.newHandle t).2

/-- Run on its own, the command comes to an end with this signal and leaves this world. -/
def Answers (K : Client F C S) (w : World F C S) (command : Command F C) (signal : Signal C)
    (w' : World F C S) : Prop :=
  ∃ n, (w.start command).run K n = ⟨.pass signal, [], w'⟩

/-- The commands are run one after the other; these are the worlds that they leave. -/
inductive Performs (K : Client F C S) :
    World F C S → List (Command F C) → List (World F C S) → Prop
  | nil {w} : Performs K w [] []
  | cons {w command signal w' rest ws} : w.Answers K command signal w' → Performs K w' rest ws →
      Performs K w (command :: rest) (w' :: ws)

/-- The worlds that commands leave one after the other, each run for so many steps at most; none from
the first one on that is not done by then. -/
def after (K : Client F C S) (limit : Nat) : World F C S → List (Command F C) → List (World F C S)
  | _, [] => []
  | w, command :: rest =>
    match (w.start command).run K limit with
    | ⟨.pass _, [], w'⟩ => w' :: after K limit w' rest
    | _ => []

theorem performs_after (limit : Nat) {w : World F C S} {commands : List (Command F C)}
    (h : (w.after K limit commands).length = commands.length) :
    w.Performs K commands (w.after K limit commands) := by
  induction commands generalizing w with
  | nil => exact .nil
  | cons command rest ih =>
    rw [after] at h ⊢
    split at h
    · next signal w' he => exact .cons ⟨limit, he⟩ (ih (Nat.succ.inj h))
    · cases h

/-- The commands are run one after the other, through these states, and leave this world. -/
inductive Traces (K : Client F C S) :
    World F C S → List (Command F C) → List (State F C S) → World F C S → Prop
  | nil {w} : Traces K w [] [] w
  | cons {w command l signal w' rest l' w''} :
      State.Ends K [] (w.start command) l ⟨.pass signal, [], w'⟩ → Traces K w' rest l' w'' →
      Traces K w (command :: rest) (l ++ l') w''

/-- The assignments are made one after the other, and each call, with the states it goes through and the
world it leaves, is as described. -/
inductive Each (K : Client F C S) (Q : Assignment → List (State F C S) → World F C S → Prop) :
    World F C S → List Assignment → Prop
  | nil {w} : Each K Q w []
  | cons {w s l signal w' rest} : State.Ends K [] (w.start s.command) l ⟨.pass signal, [], w'⟩ →
      Q s l w' → Each K Q w' rest → Each K Q w (s :: rest)

/-- The states that commands go through one after the other, each run for so many steps at most. -/
def states (K : Client F C S) (limit : Nat) : World F C S → List (Command F C) → List (State F C S)
  | _, [] => []
  | w, command :: rest =>
    (w.start command).visited K limit ++ states K limit ((w.start command).run K limit).world rest

theorem traces_states (limit : Nat) {w : World F C S} {commands : List (Command F C)}
    (h : (w.after K limit commands).length = commands.length) :
    w.Traces K commands (w.states K limit commands) ((w.after K limit commands).getLastD w) := by
  induction commands generalizing w with
  | nil => exact .nil
  | cons command rest ih =>
    rw [after] at h ⊢
    rw [states]
    split at h
    · next signal w' he =>
      have hend : State.Ends K [] (w.start command) ((w.start command).visited K limit)
          ⟨.pass signal, [], w'⟩ := State.ends_iff_run.2 ⟨limit, he, rfl, rfl⟩
      have hrest := ih (w := w') (Nat.succ.inj h)
      simp only [he]
      refine .cons hend ?_
      cases hafter : after K limit w' rest <;> rw [hafter] at hrest <;> exact hrest
    · cases h

end World

/-- A call that completes without frames below answers. -/
theorem State.Completes.answers {command : Command F C} {w : World F C S}
    {Q : Signal C → World F C S → Prop} (h : Completes K [] (w.start command) Q) :
    ∃ signal w', w.Answers K command signal w' ∧ Q signal w' := by
  obtain ⟨l, signal, w', he, hq⟩ := h
  obtain ⟨n, hr, -⟩ := ends_iff_run.1 he
  exact ⟨signal, w', ⟨n, hr⟩, hq⟩

/-! ## Whatever they come to -/

/-- The commands are run one after the other, through these states, and come to these ends, be they panics. -/
inductive World.Undergoes (K : Client F C S) :
    World F C S → List (Command F C) → List (State F C S) → List (State F C S) → Prop
  | nil {w} : Undergoes K w [] [] []
  | cons {w command l e rest l' es} : State.Ends K [] (w.start command) l e →
      Undergoes K e.world rest l' es → Undergoes K w (command :: rest) (l ++ l') (e :: es)

/-- The state is gone through when the commands are run one after the other. -/
inductive World.Visits (K : Client F C S) : World F C S → List (Command F C) → State F C S → Prop
  | now {w command rest l st} : State.Leads K [] (w.start command) l st → Visits K w (command :: rest) st
  | later {w command rest l e st} : State.Ends K [] (w.start command) l e → Visits K e.world rest st →
      Visits K w (command :: rest) st

/-- The ends that commands come to one after the other, each run for so many steps at most. -/
def World.ended (K : Client F C S) (limit : Nat) : World F C S → List (Command F C) → List (State F C S)
  | _, [] => []
  | w, command :: rest =>
    (w.start command).run K limit :: ended K limit ((w.start command).run K limit).world rest

theorem World.undergoes_states (limit : Nat) {w : World F C S} {commands : List (Command F C)}
    (h : ∀ e ∈ w.ended K limit commands, e.finished = true) :
    w.Undergoes K commands (w.states K limit commands) (w.ended K limit commands) := by
  induction commands generalizing w with
  | nil => exact .nil
  | cons command rest ih =>
    obtain ⟨hend, hrest⟩ := List.forall_mem_cons.1 h
    exact .cons (State.ends_iff_run.2 ⟨limit, rfl, hend, rfl⟩) (ih hrest)

/-- Both calls have the same answer, and leave the same value in each property. -/
structure State.Agrees (e e' : State F C S) : Prop where
  control : e'.control = e.control
  get : ∀ o p, e'.world.heap.get o p = e.world.heap.get o p

theorem State.Agrees.map_get {es es' : List (State F C S)} (h : List.Forall₂ State.Agrees es es') (o : ObjectId)
    (p : String) : es'.map (·.world.heap.get o p) = es.map (·.world.heap.get o p) := by
  induction h with
  | nil => rfl
  | cons he _ ih => rw [List.map_cons, List.map_cons, he.get, ih]

end DataBinding
