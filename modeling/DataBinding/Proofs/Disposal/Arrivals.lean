import DataBinding.Proofs.Disposal.Ground
/-!
# What a step brings

A step at which client code minds its own business leads to a later heap. What is new in it is what the state
subscribes to: observers on rosters, and a switch or a gate under the next number
(`State.arrivals`, `State.later_step`).
-/

namespace DataBinding

variable {F C S : Type}

namespace State

/-- What may be in the heap after the step that was not there before. -/
def arrivals (code : C) (s : State F C S) : Heap.Arrivals F C where
  observer y := y.Foreign code ∨ ∃ x, s.control = .run (.subscribe x y)
  switch i := i = s.world.heap.switches.size ∧
    ∃ x select y, s.control = .run (.subscribe (.switch x select) y)
  gate g := g = s.world.heap.gates.size ∧
    ∃ x scheduler y, s.control = .run (.subscribe (.relocate x scheduler) y)

end State

namespace Heap.Later

variable {K : Client F C S} {N : Arrivals F C} (s : State F C S) {code : C}

theorem edits {h h' : Heap F C} (he : Edits code h h') (hN : ∀ y, y.Foreign code → N.observer y) :
    Later N h h' := he.later.mono hN (fun _ => False.elim) (fun _ => False.elim)

theorem notify (o : ObjectId) (v : Value) (l : List (Handler F C)) :
    Later N s.world.heap (stepNotify s o v l).world.heap := by
  cases l <;> exact .refl N _

theorem publish (i : SubjectId) (v : Value) (l : List (Observer F C)) :
    Later N s.world.heap (stepPublish s i v l).world.heap := by
  cases l <;> exact .refl N _

theorem set (o : ObjectId) (p : String) (v : Value) :
    Later N s.world.heap (stepSet s o p v).world.heap := by
  simp only [stepSet]
  split
  · exact .refl N _
  · exact (of_alike (alike_put ..)).trans (notify (s.under _ _ _) ..)

theorem deliver (hN : ∀ y, y.Foreign code → N.observer y) {v : Value} {y : Observer F C}
    (hs : s.control = .run (.deliver y v)) (hm : s.Minds K code) :
    Later N s.world.heap (stepDeliver K s v y).world.heap := by
  obtain ⟨c, fs, w⟩ := s
  cases hs
  cases y with
  | client c => exact .refl N _
  | write root p => simp only [stepDeliver]; split <;> exact .refl N _
  | map f next =>
    cases f with
    | apply f => exact edits hm hN
    | wrap => exact .refl N _
    | emptyIfNull =>
      simp only [stepDeliver, stepMap]
      split
      · exact .refl N _
      · exact of_alike (alike_newStream ..)
    | publish => exact .refl N _
  | filter f next => exact edits hm hN
  | skip i next =>
    simp only [stepDeliver]
    split
    · exact .refl N _
    · exact of_alike (alike_setCounter ..)
  | distinct i next =>
    simp only [stepDeliver]
    split
    · exact .refl N _
    · exact of_alike (alike_setMemory ..)
  | outer i select next => exact .setSwitch N _ i id
  | inner i generation next => simp only [stepDeliver]; split <;> exact .refl N _
  | relocate => exact .refl N _
  | slot i k next => simp only [stepDeliver]; split <;> exact of_alike (alike_setJoin ..)

theorem task (t : Task F C) : Later N s.world.heap (stepTask s t).world.heap := by
  cases t with
  | deliver gate y v => simp only [stepTask]; split <;> exact .refl N _
  | client => exact .refl N _

theorem undo (t : Teardown C) : Later N s.world.heap (stepUndo s t).world.heap := by
  cases t with
  | handler o id => exact of_strikes (strikes_removeHandler _ o id)
  | observer i id => exact of_strikes (strikes_removeObserver _ i id)
  | relocate gate source => exact .shutGate N _ gate
  | switch i source => exact .setSwitch N _ i fun _ => rfl
  | _ => exact .refl N _

theorem frame (signal : Signal C) (f : Frame F C) :
    Later N s.world.heap (stepFrame s signal f).world.heap := by
  cases f with
  | notifying x rest o v => exact notify s o v rest
  | publishing x rest i v => exact publish s i v rest
  | announcing o p old new => exact notify (s.under _ _ _) ..
  | switching i generation inner next => simp only [stepFrame]; split <;> exact .refl N _
  | entering i generation inner =>
    simp only [stepFrame]
    split
    · exact .setSwitch N _ i id
    · exact .refl N _
  | closing i => exact .setSwitch N _ i id
  | _ => exact .refl N _

end Heap.Later

namespace State

open Heap.Later

variable {K : Client F C S} {code : C}

theorem later_subscribe {s : State F C S} {x : Stream F} {y : Observer F C}
    (hs : s.control = .run (.subscribe x y)) :
    Heap.Later (s.arrivals code) s.world.heap (stepSubscribe K s y x).world.heap := by
  have hy : (s.arrivals code).observer y := .inr ⟨x, hs⟩
  cases x with
  | watch o p t =>
    simp only [stepSubscribe, stepWatch]
    split
    · exact addHandler _ o t p _ hy
    · exact refl _ _
  | subject i =>
    simp only [stepSubscribe, stepListen]
    split
    · exact addObserver _ i hy
    · exact refl _ _
  | skip source n => exact of_alike (Heap.alike_newCounter ..)
  | distinct source => exact of_alike (Heap.alike_newMemory ..)
  | switch source select => exact newSwitch _ ⟨rfl, source, select, y, hs⟩
  | relocate source scheduler => exact newGate _ ⟨rfl, source, scheduler, y, hs⟩
  | combineLatest sources => exact of_alike (Heap.alike_newJoin ..)
  | _ => exact refl _ _

theorem later_command {s : State F C S} {c : Command F C} (hs : s.control = .run c) (hm : s.Minds K code) :
    Heap.Later (s.arrivals code) s.world.heap (stepCommand K s c).world.heap := by
  cases c with
  | set o p v => exact Heap.Later.set s o p v
  | write root p v => simp only [stepCommand, stepWrite]; split <;> exact refl _ _
  | next i v => exact publish s i v _
  | deliver y v => exact deliver s (fun _ => Or.inl) hs hm
  | subscribe x y => exact later_subscribe hs
  | subscribeAll members rest => cases rest <;> exact refl _ _
  | undo t => exact undo s t
  | undoAll members panic => cases members <;> exact refl _ _
  | dispose m => exact of_alike (Heap.alike_clearHandle ..)
  | disposeComposite c =>
    simp only [stepCommand, stepDisposeComposite]
    split
    · exact refl _ _
    · exact of_alike (Heap.alike_setComposite ..)
  | add c m =>
    have ha := s.world.heap.alike_clearHandle m
    simp only [stepCommand, stepAdd]
    split
    · exact of_alike ha
    · exact (of_alike ha).trans (of_alike (Heap.alike_setComposite ..))
  | schedule i t =>
    simp only [stepCommand, stepSchedule]
    split
    · exact of_alike (Heap.alike_setTasks ..)
    · exact task s t
  | drain i ran =>
    simp only [stepCommand, stepDrain]
    split
    · exact (of_alike (Heap.alike_setTasks ..)).trans (task (s.under _ _ _) _)
    · exact refl _ _

theorem later_step {s : State F C S} (hm : s.Minds K code) :
    Heap.Later (s.arrivals code) s.world.heap (s.step K).world.heap := by
  obtain ⟨c, fs, w⟩ := s
  cases c with
  | run c => exact later_command rfl hm
  | resume c signal =>
    refine (edits hm.1 fun _ => Or.inl).trans ?_
    simp only [step]
    cases (K.resume c signal w).2 <;> exact refl _ _
  | pass signal =>
    cases fs with
    | nil => exact refl _ _
    | cons f fs => exact frame ⟨_, fs, w⟩ signal f
  | panic message =>
    cases fs with
    | nil => exact refl _ _
    | cons f fs => cases f <;> exact refl _ _

end State

end DataBinding
