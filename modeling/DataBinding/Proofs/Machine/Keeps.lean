import DataBinding.Proofs.Machine.Calls
/-!
# Calls that may or may not answer

Client code can go on for ever, so about calls that run it only this is said: if they answer, then with
a signal and in a world as described (`State.Keeps`). What is described may speak of all the states gone
through. A bound on the number of steps is for inductions: the calls within a call are shorter.
-/

namespace DataBinding

variable {F C S : Type}

namespace State

/-- If the state comes back to the frames `base` within `n` steps, through states that are `Ok`, it does
so with a signal, and after these states, those in `past` included, the world is as described. -/
def Keeps (K : Client F C S) (Ok : State F C S → Prop) (n : Nat) (base : List (Frame F C))
    (past : List (State F C S)) (s : State F C S)
    (Q : List (State F C S) → Signal C → World F C S → Prop) : Prop :=
  ∀ l e, l.length ≤ n → Ends K base s l e → (∀ x ∈ l, Ok x) →
    ∃ signal w, e = ⟨.pass signal, base, w⟩ ∧ Q (past ++ l) signal w

namespace Keeps

variable {K : Client F C S} {Ok : State F C S → Prop} {n m : Nat} {base : List (Frame F C)}
  {past : List (State F C S)} {s : State F C S}
  {Q R : List (State F C S) → Signal C → World F C S → Prop}

theorem mono (h : Keeps K Ok n base past s R) (hq : ∀ past signal w, R past signal w → Q past signal w) :
    Keeps K Ok n base past s Q := by
  intro l e hl he ho
  obtain ⟨signal, w, rfl, hr⟩ := h l e hl he ho
  exact ⟨signal, w, rfl, hq _ _ _ hr⟩

theorem pass {signal : Signal C} {w : World F C S} (hq : Q past signal w) :
    Keeps K Ok n base past ⟨.pass signal, base, w⟩ Q := by
  intro l e _ he _
  have hend : Ends K base ⟨.pass signal, base, w⟩ [] ⟨.pass signal, base, w⟩ := .answer trivial rfl
  obtain ⟨rfl, rfl⟩ := hend.unique he
  refine ⟨signal, w, rfl, ?_⟩
  rw [List.append_nil]
  exact hq

/-- Some way, and then the rest. -/
theorem leads {s' : State F C S} {l : List (State F C S)} (hl : Leads K base s l s')
    (h : Keeps K Ok n base (past ++ l) s' Q) : Keeps K Ok n base past s Q := by
  intro l' e hl' he ho
  obtain ⟨l'', rfl, he'⟩ := hl.rest he
  rw [← List.append_assoc]
  refine h l'' e ?_ he' fun x hx => ho x (List.mem_append_right _ hx)
  rw [List.length_append] at hl'
  omega

/-- After a step fewer remain. -/
theorem step (hs : s.control.IsAnswer → s.frames ≠ base)
    (h : Ok s → ∀ m < n, Keeps K Ok m base (past ++ [s]) (s.step K) Q) :
    Keeps K Ok n base past s Q := by
  intro l e hl he ho
  obtain ⟨l', rfl, he'⟩ := he.next hs
  have hq := h (ho s List.mem_cons_self) l'.length hl l' e (Nat.le_refl _) he'
    fun x hx => ho x (List.mem_cons_of_mem _ hx)
  rwa [List.append_assoc] at hq

/-- A step with a command or with code to resume. -/
theorem go (hs : ¬ s.control.IsAnswer)
    (h : Ok s → ∀ m < n, Keeps K Ok m base (past ++ [s]) (s.step K) Q) :
    Keeps K Ok n base past s Q :=
  step (fun hc => absurd hc hs) h

/-- The state itself is `Ok` if it makes a step. -/
theorem of_ok (hs : ¬ s.control.IsAnswer) (h : Ok s → Keeps K Ok n base past s Q) : Keeps K Ok n base past s Q := by
  intro l e hl he ho
  obtain ⟨l', rfl, -⟩ := he.next fun hc => absurd hc hs
  exact h (ho s List.mem_cons_self) _ e hl he ho

/-- After some way fewer steps remain. -/
theorem leads_lt {s' : State F C S} {l : List (State F C S)} (hl : Leads K base s (s :: l) s')
    (h : ∀ m < n, Keeps K Ok m base (past ++ s :: l) s' Q) : Keeps K Ok n base past s Q := by
  intro l' e hl' he ho
  obtain ⟨l'', rfl, he'⟩ := hl.rest he
  rw [← List.append_assoc]
  refine h l''.length ?_ l'' e (Nat.le_refl _) he' fun x hx => ho x (List.mem_append_right _ hx)
  simp only [List.cons_append, List.length_cons, List.length_append] at hl'
  omega

/-- A frame above goes on with a signal. -/
theorem back {f : Frame F C} {signal : Signal C} {w : World F C S}
    (h : ∀ m < n, Keeps K Ok m base (past ++ [⟨.pass signal, f :: base, w⟩])
      (stepFrame ⟨.pass signal, base, w⟩ signal f) Q) :
    Keeps K Ok n base past ⟨.pass signal, f :: base, w⟩ Q :=
  step (fun _ hb => absurd (congrArg List.length hb) (Nat.succ_ne_self _)) fun _ => h

/-- A call, and then what the frames below go on with. -/
theorem call_above {base' : List (Frame F C)} (hb : base <:+ base') (hs : base' <:+ s.frames)
    (h : Keeps K Ok n base' past s R)
    (hf : ∀ past signal w, R past signal w →
      Keeps K Ok n base past ⟨.pass signal, base', w⟩ Q) : Keeps K Ok n base past s Q := by
  intro l e hl he ho
  obtain ⟨l₁, s₁, l₂, rfl, h₁, h₂⟩ := he.split hb hs
  rw [List.length_append] at hl
  obtain ⟨signal, w, rfl, hr⟩ := h l₁ s₁ (by omega) h₁ fun x hx => ho x (List.mem_append_left _ hx)
  rw [← List.append_assoc]
  exact hf _ signal w hr l₂ e (by omega) h₂ fun x hx => ho x (List.mem_append_right _ hx)

/-- A call, and then what its frame goes on with. -/
theorem call {f : Frame F C} (hs : f :: base <:+ s.frames) (h : Keeps K Ok n (f :: base) past s R)
    (hf : ∀ past signal w, R past signal w →
      Keeps K Ok n base past ⟨.pass signal, f :: base, w⟩ Q) : Keeps K Ok n base past s Q :=
  call_above (List.suffix_cons _ _) hs h hf

end Keeps

end State

end DataBinding
