import DataBinding.Proofs.Machine.Calls
/-!
# Calls that answer

`State.Completes` says that a call comes back to given frames with a signal, and what then holds. Its
rules follow the machine: a step, a call and what the frame above goes on with, client code that does
nothing but return.
-/

namespace DataBinding

variable {F C S : Type} {K : Client F C S}

namespace State

/-- The state comes back to the frames `base` with a signal, in a world as described. -/
def Completes (K : Client F C S) (base : List (Frame F C)) (s : State F C S)
    (Q : Signal C → World F C S → Prop) : Prop :=
  ∃ l signal w, Ends K base s l ⟨.pass signal, base, w⟩ ∧ Q signal w

namespace Completes
variable {base : List (Frame F C)} {s : State F C S} {Q R : Signal C → World F C S → Prop}

theorem pass {signal : Signal C} {w : World F C S} (hq : Q signal w) :
    Completes K base ⟨.pass signal, base, w⟩ Q :=
  ⟨[], signal, w, .answer trivial rfl, hq⟩

theorem step (hs : ¬ s.control.IsAnswer) (h : Completes K base (s.step K) Q) :
    Completes K base s Q := by
  obtain ⟨l, signal, w, he, hq⟩ := h
  exact ⟨s :: l, signal, w, .step (fun hc => absurd hc hs) he, hq⟩

theorem mono (h : Completes K base s R) (hq : ∀ signal w, R signal w → Q signal w) :
    Completes K base s Q := by
  obtain ⟨l, signal, w, he, hr⟩ := h
  exact ⟨l, signal, w, he, hq signal w hr⟩

theorem leads {s' : State F C S} {l : List (State F C S)} (hl : Leads K base s l s')
    (h : Completes K base s' Q) : Completes K base s Q := by
  obtain ⟨l', signal, w, he, hq⟩ := h
  exact ⟨_, signal, w, hl.ends he, hq⟩

/-- A frame above goes on with a signal. -/
theorem back {f : Frame F C} {signal : Signal C} {w : World F C S}
    (h : Completes K base (stepFrame ⟨.pass signal, base, w⟩ signal f) Q) :
    Completes K base ⟨.pass signal, f :: base, w⟩ Q :=
  leads (.back .here) h

/-- A call, and then what the frames below go on with. -/
theorem call_above {base' : List (Frame F C)} (hb : base <:+ base') (hs : base' <:+ s.frames)
    (h : Completes K base' s R)
    (hf : ∀ signal w, R signal w → Completes K base ⟨.pass signal, base', w⟩ Q) :
    Completes K base s Q := by
  obtain ⟨l, signal, w, he, hr⟩ := h
  obtain ⟨l', signal', w', he', hq⟩ := hf signal w hr
  exact ⟨_, signal', w', he.call hb hs he', hq⟩

/-- A call, and then what its frame goes on with. -/
theorem call {f : Frame F C} (hs : f :: base <:+ s.frames) (h : Completes K (f :: base) s R)
    (hf : ∀ signal w, R signal w → Completes K base ⟨.pass signal, f :: base, w⟩ Q) :
    Completes K base s Q :=
  call_above (List.suffix_cons _ _) hs h hf

end Completes

end State

/-- The values in a signal. -/
def Signal.values : Signal C → List Value
  | .value v => [v]
  | _ => []

/-- Resumed code does nothing but go on and finish, and leaves this world. -/
inductive Client.Returns (K : Client F C S) :
    C → Signal C → World F C S → World F C S → Prop
  | finish {code signal w w'} : K.resume code signal w = (w', .finish) →
      Returns K code signal w w'
  | goOn {code signal w w₁ code' w'} : K.resume code signal w = (w₁, .goOn code') →
      Returns K code' .done w₁ w' → Returns K code signal w w'

/-- Code that only returns is gone through before its answer. -/
theorem State.leads_returns {base : List (Frame F C)} {code : C} {signal : Signal C} {w w' : World F C S}
    (fs : List (Frame F C)) (h : K.Returns code signal w w') : ∃ l, Leads K base ⟨.resume code signal, fs, w⟩
      (⟨.resume code signal, fs, w⟩ :: l) ⟨.pass .done, fs, w'⟩ ∧
      ∀ s ∈ l, ∃ c w, s = ⟨.resume c .done, fs, w⟩ := by
  induction h with
  | finish he =>
    refine ⟨[], .one id ?_, List.forall_mem_nil _⟩
    simp only [step, he, stepMove]
    rfl
  | @goOn code signal w w₁ code' w' he _ ih =>
    obtain ⟨l, hl, hmem⟩ := ih
    refine ⟨_ :: l, .go id ?_, List.forall_mem_cons.2 ⟨⟨code', w₁, rfl⟩, hmem⟩⟩
    simp only [step, he, stepMove]
    exact hl

theorem State.Completes.resume {base : List (Frame F C)} {code : C} {signal : Signal C}
    {w w' : World F C S} {Q : Signal C → World F C S → Prop}
    (hr : K.Returns code signal w w') (hq : Q .done w') :
    Completes K base ⟨.resume code signal, base, w⟩ Q := by
  induction hr with
  | finish he =>
    refine step id ?_
    simp only [State.step, he, stepMove]
    exact pass hq
  | goOn he _ ih =>
    refine step id ?_
    simp only [State.step, he, stepMove]
    exact ih hq

end DataBinding
