import DataBinding.Proofs.Machine.Deliveries
/-!
# Rounds of handlers

Handlers are told of a change in rounds. A round takes the registrations there are when it begins
(`Heap.due`) and calls them one after the other; the first panic ends it (`State.Round`). What the calls
do to the registrations is for the next round. `Round.ends` ties this to the machine, and
`State.exists_round` says that a round comes to an end if its calls do.
-/

namespace DataBinding

variable {F C S : Type}

/-- The registrations that are due to be told of a change: those for the property and those for every
property, with this timing, and none if the object does not raise such notifications. -/
def Heap.due (h : Heap F C) (o : ObjectId) (t : Timing) (p : String) : List (Handler F C) :=
  if h.supports o t then (h.handlers o).filter fun x => x.timing = t ∧ (x.property = "" ∨ x.property = p) else []

theorem Heap.handlersFor_eq_due (h : Heap F C) (o : ObjectId) (t : Timing) (p : String) :
    h.handlersFor o t p = h.due o t p := by
  rw [handlersFor_eq, due]
  congr 2
  funext x
  rw [Bool.eq_iff_iff]
  simp

/-- What a handler is shown of a value. -/
def Handler.shown (x : Handler F C) (o : ObjectId) (v : Value) : Value := if x.reportsOwner then .object o else v

namespace State

/-- A handler is called with a value, the rest of its round to come after it. -/
def calling (base : List (Frame F C)) (o : ObjectId) (v : Value) (w : World F C S) (x : Handler F C)
    (rest : List (Handler F C)) : State F C S :=
  ⟨.run (.deliver x.observer (x.shown o v)), .notifying x rest o v :: base, w⟩

/-- The call comes back to its frames, with a signal or a panic, and until then every property stays as
it is. -/
def Harmless (K : Client F C S) (s : State F C S) : Prop :=
  ∃ l e, Ends K s.frames s l e ∧ ∀ x ∈ l ++ [e], ∀ o p, x.world.heap.get o p = s.world.heap.get o p

/-- Handlers are called with a value one after the other, until one panics: these are the states they go
through, the panic if there is one, and the world they leave. -/
inductive Round (K : Client F C S) (base : List (Frame F C)) (o : ObjectId) (v : Value) :
    World F C S → List (Handler F C) → List (State F C S) → Option String → World F C S → Prop
  | ended {w} : Round K base o v w [] [] none w
  | told {w x rest l signal w₁ l' panic w'} :
      Ends K (.notifying x rest o v :: base) (calling base o v w x rest) l
        ⟨.pass signal, .notifying x rest o v :: base, w₁⟩ →
      Round K base o v w₁ rest l' panic w' →
      Round K base o v w (x :: rest) (l ++ ⟨.pass signal, .notifying x rest o v :: base, w₁⟩ :: l') panic w'
  | panicked {w x rest l message w'} :
      Ends K (.notifying x rest o v :: base) (calling base o v w x rest) l
        ⟨.panic message, .notifying x rest o v :: base, w'⟩ →
      Round K base o v w (x :: rest) (l ++ [⟨.panic message, .notifying x rest o v :: base, w'⟩])
        (some message) w'

variable {K : Client F C S} {base : List (Frame F C)} {o : ObjectId} {v : Value}

/-- What a round passes on. -/
def afterRound (base : List (Frame F C)) (panic : Option String) (w : World F C S) : State F C S :=
  ⟨panic.elim (.pass .done) .panic, base, w⟩

/-- A round is what the machine goes through when it tells handlers. -/
theorem Round.ends {w w' : World F C S} {hs : List (Handler F C)} {l : List (State F C S)} {panic : Option String}
    (h : Round K base o v w hs l panic w') (c : Control F C) :
    Ends K base (stepNotify ⟨c, base, w⟩ o v hs) l (afterRound base panic w') := by
  induction h generalizing c with
  | ended => exact .answer trivial rfl
  | told he _ ih =>
    refine he.call (List.suffix_cons ..) (List.suffix_refl _) (.step ?_ (ih _))
    exact fun _ => List.cons_ne_self _ _
  | panicked he =>
    refine he.call (List.suffix_cons ..) (List.suffix_refl _) (.step ?_ (.answer trivial rfl))
    exact fun _ => List.cons_ne_self _ _

/-- If telling handlers comes to an end, that was a round. -/
theorem Ends.round {hs : List (Handler F C)} {w : World F C S} {c : Control F C} {l : List (State F C S)}
    {e : State F C S} (h : Ends K base (stepNotify ⟨c, base, w⟩ o v hs) l e) :
    ∃ panic w', Round K base o v w hs l panic w' ∧ e = afterRound base panic w' := by
  induction hs generalizing c w l with
  | nil =>
    obtain ⟨rfl, rfl⟩ := h.of_answer trivial rfl
    exact ⟨none, w, .ended, rfl⟩
  | cons x rest ih =>
    obtain ⟨l₁, ⟨c₁, fs, w₁⟩, l₂, rfl, h₁, h₂⟩ := h.split (List.suffix_cons ..) (List.suffix_refl _)
    obtain ⟨hc, hf⟩ := h₁.answered
    obtain rfl : fs = .notifying x rest o v :: base := hf
    obtain ⟨l₃, rfl, h₃⟩ := h₂.next fun _ => List.cons_ne_self _ _
    cases c₁ with
    | run | resume => exact hc.elim
    | panic message =>
      obtain ⟨rfl, rfl⟩ := h₃.of_answer trivial rfl
      exact ⟨_, _, .panicked h₁, rfl⟩
    | pass signal =>
      obtain ⟨panic, w', hr, rfl⟩ := ih h₃
      exact ⟨panic, w', .told h₁ hr, rfl⟩

/-- If every handler called in the course of a round comes back, so does the round; and if none of them
touches a property, they all stay as they are. -/
theorem exists_round {hs : List (Handler F C)} {w : World F C S} (c : Control F C)
    (hK : ∀ l w' x rest, Leads K base (stepNotify ⟨c, base, w⟩ o v hs) l (calling base o v w' x rest) →
      (calling base o v w' x rest).Harmless K) :
    ∃ l panic w', Round K base o v w hs l panic w' ∧
      ∀ s ∈ l ++ [afterRound base panic w'], ∀ a q, s.world.heap.get a q = w.heap.get a q := by
  induction hs generalizing c w with
  | nil => exact ⟨[], none, w, .ended, List.forall_mem_singleton.2 fun _ _ => rfl⟩
  | cons x rest ih =>
    obtain ⟨l, e, he, hget⟩ := hK [] w x rest .here
    obtain ⟨hl, hgete⟩ := List.forall_mem_append.1 hget
    have hgete := List.forall_mem_singleton.1 hgete
    obtain ⟨e, fs, w₁⟩ := e
    obtain rfl : fs = .notifying x rest o v :: base := he.answered.2
    cases e with
    | run | resume => exact he.isAnswer.elim
    | panic message =>
      refine ⟨_, some message, w₁, .panicked he, ?_⟩
      simp only [List.forall_mem_append, List.forall_mem_singleton]
      exact ⟨⟨hl, hgete⟩, hgete⟩
    | pass signal =>
      have hlead := (he.leads (List.suffix_cons ..) (List.suffix_refl _)).trans (.back .here)
      obtain ⟨l', panic, w', hr, hget'⟩ := ih (w := w₁) (.pass signal) fun l' w' y ys hy =>
        hK _ w' y ys (hlead.trans hy)
      refine ⟨_, panic, w', .told he hr, ?_⟩
      have hget' : ∀ s ∈ l' ++ [afterRound base panic w'], ∀ a q, s.world.heap.get a q = w.heap.get a q :=
        fun s hs a q => (hget' s hs a q).trans (hgete a q)
      rw [List.append_assoc, List.cons_append]
      exact List.forall_mem_append.2 ⟨hl, List.forall_mem_cons.2 ⟨hgete, hget'⟩⟩

end State

end DataBinding
