import DataBinding.Proofs.Heap.Tables
import DataBinding.Proofs.Machine.Calls
/-!
# What is read off a way

A way from one state to another, together with what a reading takes from the states on it, in their
order (`State.Logs`). Ways are put together from single steps, and what is read off them with them.
-/

namespace DataBinding.State

variable {F C S α : Type} {K : Client F C S} {read : State F C S → Option α}

/-- The state leads to another one, and this is read off the states on the way, in this order. -/
def Logs (K : Client F C S) (read : State F C S → Option α) (s : State F C S) (log : List α)
    (e : State F C S) : Prop :=
  ∃ l, Leads K [] s l e ∧ l.filterMap read = log

namespace Logs

variable {s s' e : State F C S} {log log' : List α}

theorem refl (s : State F C S) : Logs K read s [] s := ⟨[], .here, rfl⟩

theorem trans (h : Logs K read s log s') (h' : Logs K read s' log' e) :
    Logs K read s (log ++ log') e := by
  obtain ⟨l, hl, rfl⟩ := h
  obtain ⟨l', hl', rfl⟩ := h'
  exact ⟨l ++ l', hl.trans hl', List.filterMap_append⟩

/-- First nothing is read, and then this. -/
theorem after (h : Logs K read s [] s') (h' : Logs K read s' log e) : Logs K read s log e := h.trans h'

/-- A step that nothing is read from. -/
theorem go (hs : ¬ s.control.IsAnswer) (hn : read s = none) (h : Logs K read (s.step K) log e) :
    Logs K read s log e := by
  obtain ⟨l, hl, rfl⟩ := h
  exact ⟨s :: l, .go hs hl, by simp [hn]⟩

/-- A step that something is read from. -/
theorem act {a : α} (hs : ¬ s.control.IsAnswer) (ha : read s = some a)
    (h : Logs K read (s.step K) log e) : Logs K read s (a :: log) e := by
  obtain ⟨l, hl, rfl⟩ := h
  exact ⟨s :: l, .go hs hl, by simp [ha]⟩

/-- A frame goes on with a signal. -/
theorem back {f : Frame F C} {fs : List (Frame F C)} {signal : Signal C} {w : World F C S}
    (hn : read ⟨.pass signal, f :: fs, w⟩ = none)
    (h : Logs K read (stepFrame ⟨.pass signal, fs, w⟩ signal f) log e) :
    Logs K read ⟨.pass signal, f :: fs, w⟩ log e := by
  obtain ⟨l, hl, rfl⟩ := h
  exact ⟨_ :: l, .step (fun _ => List.cons_ne_nil _ _) hl, by simp [hn]⟩

/-- A way that ends with a signal and without frames is a call. -/
theorem ends {signal : Signal C} {w : World F C S} (h : Logs K read s log ⟨.pass signal, [], w⟩) :
    ∃ l, Ends K [] s l ⟨.pass signal, [], w⟩ ∧ l.filterMap read = log := by
  obtain ⟨l, hl, rfl⟩ := h
  refine ⟨l ++ [], hl.ends (.answer trivial rfl), ?_⟩
  rw [List.append_nil]

end Logs

/-! ## Assignments that nobody hears of -/

section Set
variable {h : Heap F C} {k : S} {fs : List (Frame F C)} {o : ObjectId} {p : String} {v : Value}

/-- An equal value is not stored. -/
theorem logs_set_equal (he : (h.get o p).eqv v = true) (hn : read ⟨.run (.set o p v), fs, h, k⟩ = none) :
    Logs K read ⟨.run (.set o p v), fs, h, k⟩ [] ⟨.pass (.flag false), fs, h, k⟩ := by
  refine .go id hn ?_
  rw [step_set_same he]
  exact .refl _

/-- Another value is stored, and that is all there is to it if there are no handlers to tell. -/
theorem logs_set_unheard {a : α} (hn : (h.get o p).eqv v = false)
    (hh : ∀ t, h.handlersFor o t p = []) (ha : read ⟨.run (.set o p v), fs, h, k⟩ = some a)
    (hp : ∀ signal gs w, read ⟨.pass signal, gs, w⟩ = none) :
    Logs K read ⟨.run (.set o p v), fs, h, k⟩ [a] ⟨.pass (.flag true), fs, h.put o p v, k⟩ := by
  have hh' : ∀ t, (h.put o p v).handlersFor o t p = [] := fun t => by rw [Heap.handlersFor_put, hh]
  refine .act id ha ?_
  rw [step_set_other hn, hh', stepNotify]
  refine .back (hp ..) ?_
  simp only [stepFrame, under, goOn, World.withHeap, hh', stepNotify]
  exact .back (hp ..) (.refl _)

end Set

end DataBinding.State
