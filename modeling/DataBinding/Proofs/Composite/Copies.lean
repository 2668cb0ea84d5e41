import DataBinding.Proofs.Machine.Tally
/-!
# Teardowns are used up

The teardown of client code is kept in handles, composites and switches, by what is under way, and by what the
control is about. The machine moves it from one to another, and to run it uses it up: counted with their copies
(`State.copies`), a step leaves at most those that were there, less the one that it runs (`State.copies_step`).
Only client code can make more of them.

To count the copies is to let each weigh one (`State.copies_eq`), so that this is a case of `State.tally_step`.
-/

namespace DataBinding

variable {F C S : Type}

/-! ## Counting -/

section Counting
variable [DecidableEq C] (code : C)

mutual

/-- How many teardowns of this client code are in a teardown. -/
def Teardown.copies : Teardown C → Nat
  | .client c => if c = code then 1 else 0
  | .relocate _ source => source.copies
  | .switch _ source => source.copies
  | .all members => copiesAll members
  | _ => 0

def copiesAll : List (Teardown C) → Nat
  | [] => 0
  | t :: rest => t.copies + copiesAll rest

end

def Switch.copies (x : Switch C) : Nat := (x.current.getD .nothing).copies code

def Signal.copies : Signal C → Nat
  | .subscription t => t.copies code
  | _ => 0

def Command.copies : Command F C → Nat
  | .undo t => t.copies code
  | .undoAll members _ => copiesAll code members
  | .subscribeAll members _ => copiesAll code members
  | _ => 0

def Control.copies : Control F C → Nat
  | .run c => c.copies code
  | .pass signal => signal.copies code
  | .resume _ signal => signal.copies code
  | .panic _ => 0

def Frame.copies : Frame F C → Nat
  | .subscribed _ t => t.copies code
  | .gathering _ members _ => copiesAll code members
  | .undoing rest _ => copiesAll code rest
  | _ => 0

def Heap.copies (h : Heap F C) : Nat :=
  (h.handles.toList.map (Teardown.copies code)).sum + (h.composites.toList.map (copiesAll code ·.members)).sum +
    (h.switches.toList.map (Switch.copies code)).sum

/-- How many there are in the heap and under way, whatever the control is about. -/
def State.copiesBelow (s : State F C S) : Nat := (s.frames.map (Frame.copies code)).sum + s.world.heap.copies code

/-- How many teardowns of this client code are there to be run. -/
def State.copies (s : State F C S) : Nat := s.control.copies code + s.copiesBelow code

/-- The teardown of this client code is run. -/
def State.undoes (s : State F C S) : Bool :=
  match s.control with
  | .run (.undo (.client c)) => c = code
  | _ => false

end Counting

/-! ## Copies as weights -/

section Weights
variable [DecidableEq C] (code : C)

/-- A teardown of this client code weighs one, any other nothing. -/
def Teardown.single : Teardown C → Nat
  | .client c => if c = code then 1 else 0
  | _ => 0

mutual

theorem Teardown.copies_eq : ∀ t : Teardown C, t.copies code = t.tally (Teardown.single code)
  | .nothing | .handler .. | .observer .. | .composite _ | .client _ => rfl
  | .relocate _ source => source.copies_eq
  | .switch _ source => source.copies_eq
  | .all members => copiesAll_eq members

theorem copiesAll_eq : ∀ l : List (Teardown C), copiesAll code l = tallyAll (Teardown.single code) l
  | [] => rfl
  | t :: rest => congrArg₂ (· + ·) t.copies_eq (copiesAll_eq rest)

end

theorem Control.copies_eq (c : Control F C) : c.copies code = c.tally (Teardown.single code) := by
  cases c with
  | run c =>
    cases c with
    | undo t => exact t.copies_eq code
    | undoAll members => exact copiesAll_eq code members
    | subscribeAll members => exact copiesAll_eq code members
    | _ => rfl
  | pass signal | resume _ signal =>
    cases signal with
    | subscription t => exact t.copies_eq code
    | _ => rfl
  | panic => rfl

theorem Frame.copies_eq (f : Frame F C) : f.copies code = f.tally (Teardown.single code) := by
  cases f with
  | subscribed _ t => exact t.copies_eq code
  | gathering _ members => exact copiesAll_eq code members
  | undoing rest => exact copiesAll_eq code rest
  | _ => rfl

theorem State.copies_eq (s : State F C S) : s.copies code = s.tally (Teardown.single code) := by
  have hframes : (Frame.copies code : Frame F C → Nat) = Frame.tally (Teardown.single code) :=
    funext (Frame.copies_eq code)
  have hteardowns : Teardown.copies code = Teardown.tally (Teardown.single code) := funext (Teardown.copies_eq code)
  have hmembers : copiesAll code = tallyAll (Teardown.single code) := funext (copiesAll_eq code)
  have hswitches : Switch.copies code = Switch.tally (Teardown.single code) :=
    funext fun x => Teardown.copies_eq code _
  rw [copies, tally, Control.copies_eq, copiesBelow, tallyBelow, Heap.copies, Heap.tally, hframes, hteardowns,
    hmembers, hswitches]

end Weights

namespace State
variable [DecidableEq C] {code : C} {K : Client F C S}

theorem spent_single (s : State F C S) : s.spent (Teardown.single code) = (s.undoes code).toNat := by
  obtain ⟨ctl, fs, w⟩ := s
  cases ctl with
  | run c =>
    cases c with
    | undo t =>
      cases t with
      | client c => by_cases hc : c = code <;> simp [spent, undoes, Teardown.spent, Teardown.single, hc]
      | _ => rfl
    | _ => rfl
  | _ => rfl

/-- Registrations are no client code. -/
theorem gained_single (s : State F C S) : s.gained (Teardown.single code) K = 0 := by
  unfold gained
  cases s.registers? K with
  | none => rfl
  | some p => rcases p with ⟨_ | _ | _, _⟩ <;> rfl

/-- A step that is not the client's makes no teardown, and uses up the one that it runs. -/
theorem copies_step (s : State F C S) (hn : ¬ s.ClientActs) :
    (s.step K).copies code + (s.undoes code).toNat ≤ s.copies code := by
  have hstep : (s.step K).tally (Teardown.single code) + _ ≤ _ := tally_step s hn
  rwa [spent_single, gained_single, Nat.add_zero, ← copies_eq, ← copies_eq] at hstep

end State

end DataBinding
