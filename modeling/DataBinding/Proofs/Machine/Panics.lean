import DataBinding.Proofs.Machine.Calls
/-!
# Panics go on

Nothing stops a panic: on its way members and subscriptions are still undone, and then it goes on. So a
call that answers with a signal has met none (`State.ne_panic_of_ends`).
-/

namespace DataBinding

variable {F C S : Type} {K : Client F C S}

/-- The frame lets a panic go on once it is done. -/
def Frame.Panics : Frame F C → Prop
  | .undoing _ (some _) | .unwinding _ => True
  | _ => False

namespace State

/-- A panic is under way. -/
def Panics (s : State F C S) : Prop :=
  (∃ m, s.control = .panic m) ∨ (∃ l m, s.control = .run (.undoAll l (some m))) ∨
    ∃ f ∈ s.frames, f.Panics

variable {s e : State F C S} {l : List (State F C S)} {base : List (Frame F C)}

theorem panics_unwind (s : State F C S) (m : String) (f : Frame F C) : (unwindFrame s m f).Panics := by
  cases f with
  | subscribed | gathering => exact .inr (.inr ⟨_, List.mem_cons_self, trivial⟩)
  | undoing rest panic => exact .inr (.inl ⟨_, _, rfl⟩)
  | _ => exact .inl ⟨_, rfl⟩

theorem panics_undoAll (s : State F C S) (members : List (Teardown C)) (m : String) :
    (stepUndoAll s (some m) members).Panics := by
  cases members with
  | nil => exact .inl ⟨_, rfl⟩
  | cons => exact .inr (.inr ⟨_, List.mem_cons_self, trivial⟩)

theorem panics_frame {s : State F C S} {signal : Signal C} {f : Frame F C} (hf : f.Panics) :
    (stepFrame s signal f).Panics := by
  cases f with
  | undoing rest panic =>
    cases panic with
    | none => exact hf.elim
    | some m => exact .inr (.inl ⟨_, _, rfl⟩)
  | unwinding m => exact .inl ⟨_, rfl⟩
  | _ => exact hf.elim

theorem Panics.step (h : s.Panics) : (s.step K).Panics := by
  obtain ⟨c, fs, w⟩ := s
  have hkept : ∀ f ∈ fs, f.Panics → ∀ s' : State F C S, fs <:+ s'.frames → s'.Panics := fun f hm hf s' hs =>
    .inr (.inr ⟨f, hs.subset hm, hf⟩)
  rcases h with ⟨m, rfl⟩ | ⟨members, m, rfl⟩ | ⟨f, hm, hf⟩
  · cases fs with
    | nil => exact .inl ⟨m, rfl⟩
    | cons f fs => exact panics_unwind ..
  · exact panics_undoAll ..
  · cases c with
    | run command => exact hkept f hm hf _ (suffix_command K ⟨_, fs, w⟩ command)
    | resume code signal => exact hkept f hm hf _ (suffix_move ⟨.resume code signal, fs, _⟩ _)
    | pass signal =>
      obtain - | ⟨g, fs⟩ := fs
      · cases hm
      · rcases List.mem_cons.1 hm with rfl | hm
        · exact panics_frame hf
        · exact .inr (.inr ⟨f, (suffix_frame ⟨_, fs, w⟩ signal g).subset hm, hf⟩)
    | panic m =>
      obtain - | ⟨g, fs⟩ := fs
      · cases hm
      · exact panics_unwind ..

theorem Panics.ends (h : s.Panics) (he : Ends K base s l e) : e.Panics := by
  induction he with
  | answer => exact h
  | step _ _ ih => exact ih h.step

/-- What answers with a signal has met no panic. -/
theorem ne_panic_of_ends {signal : Signal C} {w : World F C S} (he : Ends K [] s l ⟨.pass signal, [], w⟩) :
    ∀ x ∈ l, ∀ m, x.control ≠ .panic m := by
  intro x hx m hc
  obtain ⟨l₁, l₂, rfl⟩ := List.append_of_mem hx
  rcases Panics.ends (.inl ⟨m, hc⟩) he.cut.2 with ⟨m', hm⟩ | ⟨members, m', hm⟩ | ⟨f, hf, -⟩
  · cases hm
  · cases hm
  · cases hf

end State

end DataBinding
