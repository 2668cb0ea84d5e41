import DataBinding.Proofs.Chain.Advance
import DataBinding.Proofs.Machine.Keeps
import DataBinding.Proofs.Machine.Sessions
import DataBinding.Proofs.Reentrant.Told
/-!
# A chain while others make changes

While handlers and observers make assignments of their own, a chain need not follow its path. What
stays true is that it is attached (`Chain.Attached`): it is live, it goes by what its handlers were told
last, and the last operator has caught the value at its end.

`Chain.Endures` says this of all that others do (`Chain.Aside`) in a number of steps. It is proved by
induction on that number in the modules after this one.
-/

namespace DataBinding

variable {F C S : Type}

/-! ## What others do -/

/-- The move makes an assignment at most. -/
def Move.Assigns : Move F C → Prop
  | .finish | .goOn _ | .perform (.set ..) _ | .perform (.write ..) _ => True
  | _ => False

/-- All code makes assignments at most, one after the other, and leaves the heap alone otherwise. `code`
notes each value it is given, and nothing else is noted. -/
structure Client.Assigns (K : Client F C S) (seen : S → List Value) (code : C) : Prop where
  pure : K.Pure seen
  heap : ∀ x signal w, (K.resume x signal w).1.heap = w.heap
  moves : ∀ x signal w, (K.resume x signal w).2.Assigns
  notes : ∀ v w, seen (K.resume code (.value v) w).1.client = seen w.client ++ [v]
  silent : ∀ x signal w, (x = code → ∀ v, signal ≠ .value v) →
    seen (K.resume x signal w).1.client = seen w.client

instance (s : Assignment) (h : Heap F C) : Decidable (s.Valid h) :=
  decidable_of_iff (s.object < h.objects.size ∧ ∀ b ∈ s.value.object?, b < h.objects.size)
    (by simp [Assignment.Valid, Value.object?_eq_some])

/-- An assignment that is made is to an existing object, and of one, if of any. -/
def State.Valid (s : State F C S) : Prop :=
  match s.control with
  | .run (.set o p v) => (⟨o, p, v⟩ : Assignment).Valid s.world.heap
  | _ => True

instance (s : State F C S) : Decidable s.Valid := by
  unfold State.Valid
  split <;> infer_instance

mutual

/-- Switches in the stream follow links, and it publishes nothing. -/
def Stream.Plain : Stream F → Prop
  | .empty | .just _ | .watch .. | .constant .. | .subject _ => True
  | .map x f => x.Plain ∧ ∀ s side, f ≠ .publish s side
  | .filter x _ | .skip x _ | .distinct x | .relocate x _ => x.Plain
  | .switch x select => x.Plain ∧ select ≠ .stream
  | .merge xs | .combineLatest xs => plainStreams xs

def plainStreams : List (Stream F) → Prop
  | [] => True
  | x :: rest => x.Plain ∧ plainStreams rest

end

theorem plainStreams_iff {xs : List (Stream F)} : plainStreams xs ↔ ∀ x ∈ xs, x.Plain := by
  induction xs with
  | nil => simp [plainStreams]
  | cons x rest ih => simp [plainStreams, ih]

namespace Chain

variable (c : Chain C)

/-- Others are at work: they deliver, assign, subscribe, or resume code of theirs; or they are done. -/
def Aside : Control F C → Prop
  | .run (.deliver x _) => c.Spares x
  | .run (.set ..) | .run (.write ..) => True
  | .run (.subscribe x y) => x.Plain ∧ c.Spares y
  | .run (.subscribeAll _ rest) => ∀ p ∈ rest, p.1.Plain ∧ c.Spares p.2
  | .run (.schedule _ (.deliver _ x _)) => c.Spares x
  | .resume code signal => code = c.code → ∀ v, signal ≠ .value v
  | .pass signal => ∀ v, signal ≠ .value v
  | _ => False

/-! ## What stays true -/

/-- The chain is live and goes by what its handlers were told last; what is remembered is what was noted
last. -/
structure Following (seen : S → List Value) (past : List (State F C S))
    (pending : List (ObjectId × Nat)) (w : World F C S) (todo : List Link)
    (regs : List (Registration F C)) (v : Value) : Prop where
  live : c.Live pending w.heap todo regs v
  tidy : c.Tidy c.Spares w.heap
  told : ∀ r ∈ regs, LastTold past r.owner r.handler r.told
  remembered : ∀ u, c.remembered w.heap = some u → (seen w.client).getLast? = some u

/-- The chain is followed to its end, and its value there was noted last, or one equal to it. -/
structure Attached (seen : S → List Value) (past : List (State F C S))
    (pending : List (ObjectId × Nat)) (w : World F C S) (regs : List (Registration F C))
    (v : Value) : Prop extends c.Following seen past pending w [] regs v where
  caught : ∃ u, (seen w.client).getLast? = some u ∧ (u = v ∨ u.eqv v = true)

/-- A call has answered, with no value, and left the chain attached. -/
def Done (seen : S → List Value) (pending : List (ObjectId × Nat)) (h : Heap F C)
    (past : List (State F C S)) (signal : Signal C) (w : World F C S) : Prop :=
  (∀ v, signal ≠ .value v) ∧ (∃ regs v, c.Attached seen past pending w regs v) ∧ c.Onward h w.heap

/-- Whatever others do, within so many steps it leaves the chain attached. -/
def Endures (K : Client F C S) (seen : S → List Value) (n : Nat) : Prop :=
  ∀ pending past base control (w : World F C S) regs v, c.Aside control →
    c.Attached seen past pending w regs v →
    State.Keeps K State.Valid n base past ⟨control, base, w⟩ (c.Done seen pending w.heap)

variable {c} {K : Client F C S} {seen : S → List Value} {past : List (State F C S)} {n m : Nat}
  {pending : List (ObjectId × Nat)} {w : World F C S} {todo : List Link}
  {regs : List (Registration F C)} {v : Value} {control : Control F C} {base : List (Frame F C)}

open State

/-- What others do tells the chain nothing. -/
theorem Aside.silent (h : c.Aside control) : (⟨control, base, w⟩ : State F C S).Silent c.code := by
  refine silent_of_control fun y v (hc : control = _) => ?_
  subst hc
  exact code?_of_spares h

theorem silent_pass (signal : Signal C) :
    (⟨.pass signal, base, w⟩ : State F C S).Silent c.code :=
  silent_of_control fun _ _ (hc : Control.pass signal = _) => by cases hc

theorem silent_of_not_delivers {l : List (State F C S)} (hl : ∀ s ∈ l, ¬ s.Delivers) :
    ∀ s ∈ l, s.Silent c.code :=
  fun s hs => silent_of_control fun y v hc => absurd ⟨y, v, hc⟩ (hl s hs)

/-- None of the registrations is told anything. -/
theorem Following.append (h : c.Following seen past pending w todo regs v) (L : List (State F C S))
    (hm : ∀ r ∈ regs, ∀ s ∈ L, ∀ u, ¬ s.Tells r.owner r.handler u) :
    c.Following seen (past ++ L) pending w todo regs v where
  live := h.live
  tidy := h.tidy
  told r hr := (h.told r hr).append (hm r hr)
  remembered := h.remembered

theorem Following.more (h : c.Following seen past pending w todo regs v) (L : List (State F C S))
    (hm : ∀ s ∈ L, s.Silent c.code) : c.Following seen (past ++ L) pending w todo regs v :=
  h.append L fun r hr s hs u => hm s hs _ _ u (h.live.follows.code? r hr)

theorem Attached.more (h : c.Attached seen past pending w regs v) (L : List (State F C S))
    (hm : ∀ s ∈ L, s.Silent c.code) : c.Attached seen (past ++ L) pending w regs v :=
  ⟨h.toFollowing.more L hm, h.caught⟩

theorem Attached.one (h : c.Attached seen past pending w regs v) {s : State F C S}
    (hs : s.Silent c.code) : c.Attached seen (past ++ [s]) pending w regs v :=
  h.more [s] (List.forall_mem_singleton.2 hs)

/-- Others have changed something of their own. -/
theorem Attached.passes (h : c.Attached seen past pending w regs v) (w' : World F C S)
    (hp : c.Leaves w.heap w'.heap) (ht : c.Tidy c.Spares w'.heap)
    (hs : seen w'.client = seen w.client) : c.Attached seen past pending w' regs v where
  live := h.live.leaves hp
  tidy := ht
  told := h.told
  remembered := by
    rw [hp.remembered, hs]
    exact h.remembered
  caught := by
    rw [hs]
    exact h.caught

/-- Several calls, one after the other. -/
theorem Done.after {h h' : Heap F C} {signal : Signal C} (ho : c.Onward h h')
    (hd : c.Done seen pending h' past signal w) : c.Done seen pending h past signal w :=
  ⟨hd.1, hd.2.1, ho.trans hd.2.2⟩

/-- Nothing has been done. -/
theorem Attached.done (h : c.Attached seen past pending w regs v) {signal : Signal C}
    (hs : ∀ u, signal ≠ .value u) : c.Done seen pending w.heap past signal w :=
  ⟨hs, ⟨regs, v, h⟩, .refl _⟩

/-! ## Steps of others -/

/-- A frame that passes a signal on that is no value. -/
theorem aside_frame {f : Frame F C} (answer : Signal C → Signal C)
    (hs : ∀ signal u, answer signal ≠ .value u)
    (hf : ∀ signal (w' : World F C S), stepFrame (⟨.pass signal, base, w'⟩ : State F C S) signal f =
      ⟨.pass (answer signal), base, w'⟩) :
    ∀ signal (w' : World F C S), (∀ u, signal ≠ .value u) → ∃ control', c.Aside control' ∧
      stepFrame (⟨.pass signal, base, w'⟩ : State F C S) signal f = ⟨control', base, w'⟩ :=
  fun signal w' _ => ⟨.pass (answer signal), hs signal, hf signal w'⟩

section Steps
variable (ih : ∀ m < n, c.Endures K seen m) (ha : c.Attached seen past pending w regs v)
include ih ha

/-- Others are at work under a frame, which then goes on with something of theirs. -/
theorem Attached.under {f : Frame F C} (hm : m < n) (hc : c.Aside control)
    (hf : ∀ signal w', (∀ u, signal ≠ .value u) → ∃ control', c.Aside control' ∧
      stepFrame (⟨.pass signal, base, w'⟩ : State F C S) signal f = ⟨control', base, w'⟩) :
    Keeps K State.Valid m base past ⟨control, f :: base, w⟩ (c.Done seen pending w.heap) := by
  refine .call (List.suffix_refl _) (ih m hm pending past (f :: base) control w regs v hc ha) ?_
  rintro past' signal w' ⟨hs, ⟨regs', v', ha'⟩, ho⟩
  refine .back fun k hk => ?_
  obtain ⟨control', hc', he⟩ := hf signal w' hs
  rw [he]
  exact (ih k (Nat.lt_trans hk hm) _ _ _ _ _ _ _ hc' (ha'.one (silent_pass signal))).mono
    fun _ _ _ hd => hd.after ho

/-- A step of others to something of theirs. -/
theorem Attached.go (hn : ¬ control.IsAnswer) (hc : c.Aside control) (control' : Control F C)
    (w₁ : World F C S) (hc' : c.Aside control')
    (hstep : State.step K ⟨control, base, w⟩ = ⟨control', base, w₁⟩)
    (hp : c.Passes c.Spares w.heap w₁.heap) (hs : seen w₁.client = seen w.client) :
    Keeps K State.Valid n base past ⟨control, base, w⟩ (c.Done seen pending w.heap) := by
  refine .go hn fun _ m hm => ?_
  rw [hstep]
  exact (ih m hm _ _ _ _ _ _ _ hc' ((ha.passes w₁ hp.leaves hp.tidy hs).one hc.silent)).mono
    fun _ _ _ hd => hd.after (.of_leaves hp.leaves)

/-- A step of others to something of theirs under a frame. -/
theorem Attached.go_under (hn : ¬ control.IsAnswer) (hc : c.Aside control) (control' : Control F C)
    (f : Frame F C) (w₁ : World F C S) (hc' : c.Aside control')
    (hstep : State.step K ⟨control, base, w⟩ = ⟨control', f :: base, w₁⟩)
    (hp : c.Passes c.Spares w.heap w₁.heap) (hs : seen w₁.client = seen w.client)
    (hf : ∀ signal w', (∀ u, signal ≠ .value u) → ∃ control', c.Aside control' ∧
      stepFrame (⟨.pass signal, base, w'⟩ : State F C S) signal f = ⟨control', base, w'⟩) :
    Keeps K State.Valid n base past ⟨control, base, w⟩ (c.Done seen pending w.heap) := by
  refine .go hn fun _ m hm => ?_
  rw [hstep]
  exact (Attached.under ih ((ha.passes w₁ hp.leaves hp.tidy hs).one hc.silent) hm hc' hf).mono
    fun _ _ _ hd => hd.after (.of_leaves hp.leaves)

/-- Code has made its move. -/
theorem Attached.move {move : Move F C} (hm : m < n) (hmove : move.Assigns)
    (control : Control F C) (base : List (Frame F C)) :
    Keeps K State.Valid m base past (stepMove ⟨control, base, w⟩ move)
      (c.Done seen pending w.heap) := by
  cases move with
  | finish => exact .pass (ha.done (by simp))
  | goOn code => exact ih m hm _ _ _ _ _ _ _ (fun _ => by simp) ha
  | panic => exact hmove.elim
  | perform command code =>
    have hf : ∀ (signal : Signal C) (w' : World F C S), (∀ u, signal ≠ .value u) →
        ∃ control', c.Aside control' ∧
          stepFrame (⟨.pass signal, base, w'⟩ : State F C S) signal (.client code) =
            ⟨control', base, w'⟩ :=
      fun signal w' hs => ⟨.resume code signal, fun _ => hs, rfl⟩
    cases command with
    | set => exact Attached.under ih ha hm trivial hf
    | write => exact Attached.under ih ha hm trivial hf
    | _ => exact hmove.elim

end Steps

end Chain

end DataBinding
