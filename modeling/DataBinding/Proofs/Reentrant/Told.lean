import DataBinding.Proofs.Machine.Calls
import DataBinding.Proofs.Chain.Live
/-!
# What handlers are told

When changes are made while others are announced, what is delivered depends on the order in which
handlers are told. Here is how that order is read off a run: a state tells a handler a value
(`State.Tells`), and of the states gone through the last one that does counts (`LastTold`).
-/

namespace DataBinding

variable {F C S : Type}

namespace State

/-- A handler is told a value: of a change of its object, or the first one when it is registered. -/
def Tells (s : State F C S) (o : ObjectId) (x : Handler F C) (v : Value) : Prop :=
  s.control = .run (.deliver x.observer v) ∧ ∃ f below, s.frames = f :: below ∧
    ((∃ rest u, f = .notifying x rest o u) ∨ f = .subscribed x.observer (.handler o x.id))

/-- No handler of this code is told anything. -/
def Silent (s : State F C S) (code : C) : Prop :=
  ∀ o x v, x.observer.code? = some code → ¬ s.Tells o x v

variable {s : State F C S} {o : ObjectId} {x : Handler F C} {u v : Value} {code : C}

theorem Tells.unique (h : s.Tells o x v) (h' : s.Tells o x u) : u = v := by
  have he := h'.1.symm.trans h.1
  simpa using he

theorem Tells.notifying {rest : List (Handler F C)} {base : List (Frame F C)} {w : World F C S} :
    Tells ⟨.run (.deliver x.observer v), .notifying x rest o u :: base, w⟩ o x v :=
  ⟨rfl, _, _, rfl, .inl ⟨rest, u, rfl⟩⟩

theorem Tells.subscribed {base : List (Frame F C)} {w : World F C S} :
    Tells ⟨.run (.deliver x.observer v), .subscribed x.observer (.handler o x.id) :: base, w⟩ o x v :=
  ⟨rfl, _, _, rfl, .inr rfl⟩

theorem silent_of_control (h : ∀ y v, s.control = .run (.deliver y v) → y.code? ≠ some code) :
    s.Silent code := by
  intro o x v hx ht
  exact h _ v ht.1 hx

end State

/-- Of all the values that these states tell the handler, this is the last one. -/
def LastTold (past : List (State F C S)) (o : ObjectId) (x : Handler F C) (v : Value) : Prop :=
  ∃ before s after, past = before ++ s :: after ∧ s.Tells o x v ∧ ∀ s' ∈ after, ∀ u, ¬ s'.Tells o x u

namespace LastTold

variable {past more : List (State F C S)} {s : State F C S} {o : ObjectId} {x : Handler F C}
  {u v : Value}

theorem here (h : s.Tells o x v) : LastTold (past ++ [s]) o x v := ⟨past, s, [], rfl, h, by simp⟩

theorem append (h : LastTold past o x v) (hm : ∀ s ∈ more, ∀ u, ¬ s.Tells o x u) :
    LastTold (past ++ more) o x v := by
  obtain ⟨before, s, after, rfl, hs, ha⟩ := h
  refine ⟨before, s, after ++ more, by simp, hs, fun s' hs' => ?_⟩
  rcases List.mem_append.1 hs' with hs' | hs'
  · exact ha s' hs'
  · exact hm s' hs'

theorem unique (h : LastTold past o x v) (h' : LastTold past o x u) : u = v := by
  obtain ⟨before, s, after, rfl, hs, ha⟩ := h
  obtain ⟨before', s', after', he, hs', ha'⟩ := h'
  -- a different place for the later one would be in the part where nothing is told
  rcases List.append_eq_append_iff.1 he with ⟨mid, -, hmid⟩ | ⟨mid, -, hmid⟩
  · cases mid with
    | nil =>
      obtain ⟨rfl, -⟩ := List.cons.inj hmid
      exact hs.unique hs'
    | cons a mid =>
      obtain ⟨-, rfl⟩ := List.cons.inj hmid
      exact absurd hs' (ha s' (by simp) u)
  · cases mid with
    | nil =>
      obtain ⟨rfl, -⟩ := List.cons.inj hmid
      exact hs.unique hs'
    | cons a mid =>
      obtain ⟨-, rfl⟩ := List.cons.inj hmid
      exact absurd hs (ha' s (by simp) v)

end LastTold

end DataBinding
