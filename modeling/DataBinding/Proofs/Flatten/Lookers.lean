import DataBinding.Proofs.Quiet.Onlookers
/-!
# Observers that touch neither objects nor subjects

An observer that passes values on through operators to code that notes nothing (`Observer.Looks`) leaves
objects, subjects, switches and streams as they are; what is delivered to it comes to an end
(`Observer.Looks.deliver`).
-/

namespace DataBinding

variable {F C S : Type}

/-- Supplied functions make new streams at most, what has been noted stays, and the client lets go of
nothing that it holds. -/
structure Client.Extends (K : Client F C S) (seen : S → List Value) : Prop where
  heap : ∀ f v w, ∃ xs, (K.apply f v w).2.heap = { w.heap with streams := w.heap.streams ++ xs }
  seen : ∀ f v w, seen (K.apply f v w).2.client = seen w.client
  applied : ∀ f v w, K.refs w.client ⊆ K.refs (K.apply f v w).2.client
  resumed : ∀ code signal w, K.refs w.client ⊆ K.refs (K.resume code signal w).1.client

/-- The observer takes no inner streams, writes and publishes nothing, and leads to other code than this,
which notes nothing. -/
def Observer.Looks (K : Client F C S) (seen : S → List Value) (code : C) : Observer F C → Prop
  | .client other => other ≠ code ∧ K.Notes seen other fun _ => []
  | .map f next => (∀ s side, f ≠ .publish s side) ∧ next.Looks K seen code
  | .filter _ next | .skip _ next | .distinct _ next | .inner _ _ next | .slot _ _ next
  | .relocate _ _ next => next.Looks K seen code
  | .write .. | .outer .. => False

/-- Objects, subjects and switches are as they were, and so are the streams there were. -/
structure Heap.Undisturbed (h h' : Heap F C) : Prop where
  objects : h'.objects = h.objects
  subjects : h'.subjects = h.subjects
  switches : h'.switches = h.switches
  streams : ∃ xs, h'.streams = h.streams ++ xs

/-- So is what has been noted, and the client holds what it held. -/
structure World.Undisturbed (K : Client F C S) (seen : S → List Value) (w w' : World F C S) : Prop where
  heap : w.heap.Undisturbed w'.heap
  seen : seen w'.client = seen w.client
  held : K.refs w.client ⊆ K.refs w'.client

namespace Heap.Undisturbed

variable {h h' h'' : Heap F C}

theorem refl (h : Heap F C) : h.Undisturbed h := ⟨rfl, rfl, rfl, #[], by simp⟩

theorem trans (a : h.Undisturbed h') (b : h'.Undisturbed h'') : h.Undisturbed h'' := by
  obtain ⟨xs, hxs⟩ := a.streams
  obtain ⟨ys, hys⟩ := b.streams
  exact ⟨b.objects.trans a.objects, b.subjects.trans a.subjects, b.switches.trans a.switches, xs ++ ys,
    by rw [hys, hxs, Array.append_assoc]⟩

theorem newStream (h : Heap F C) (x : Stream F) : h.Undisturbed (h.newStream x).2 :=
  ⟨rfl, rfl, rfl, #[x], by simp [Heap.newStream]⟩

/-- Only cells change. -/
theorem of_eq (ho : h'.objects = h.objects) (hs : h'.subjects = h.subjects) (hw : h'.switches = h.switches)
    (hx : h'.streams = h.streams) : h.Undisturbed h' := ⟨ho, hs, hw, #[], by simp [hx]⟩

end Heap.Undisturbed

namespace World.Undisturbed

variable {K : Client F C S} {seen : S → List Value} {w w' w'' : World F C S}

theorem refl (w : World F C S) : w.Undisturbed K seen w := ⟨.refl _, rfl, List.Subset.refl _⟩

theorem trans (a : w.Undisturbed K seen w') (b : w'.Undisturbed K seen w'') : w.Undisturbed K seen w'' :=
  ⟨a.heap.trans b.heap, b.seen.trans a.seen, List.Subset.trans a.held b.held⟩

theorem of_heap {h : Heap F C} (a : w.heap.Undisturbed h) : w.Undisturbed K seen ⟨h, w.client⟩ :=
  ⟨a, rfl, List.Subset.refl _⟩

theorem apply (hK : K.Extends seen) (f : F) (v : Value) (w : World F C S) :
    w.Undisturbed K seen (K.apply f v w).2 := by
  obtain ⟨xs, hxs⟩ := hK.heap f v w
  exact ⟨by rw [hxs]; exact ⟨rfl, rfl, rfl, xs, rfl⟩, hK.seen f v w, hK.applied f v w⟩

end World.Undisturbed

variable {K : Client F C S} {seen : S → List Value} {code : C} {x : Observer F C}

/-- Code that returns lets go of nothing. -/
theorem Client.Returns.held (hK : K.Extends seen) {signal : Signal C} {w w' : World F C S}
    (hr : K.Returns code signal w w') : K.refs w.client ⊆ K.refs w'.client := by
  induction hr with
  | @finish code signal w w' he =>
    have := hK.resumed code signal w
    rwa [he] at this
  | @goOn code signal w w₁ code' w' he _ ih =>
    have := hK.resumed code signal w
    rw [he] at this
    exact List.Subset.trans this ih

/-- Such an observer leads to other code. -/
theorem Observer.Looks.code?_ne (hx : x.Looks K seen code) : x.code? ≠ some code := by
  induction x with
  | client other => exact fun he => hx.1 (Option.some.inj he)
  | map f next ih => exact ih hx.2
  | filter f next ih | skip i next ih | distinct m next ih | inner i g next ih | slot j k next ih
  | relocate g s next ih => exact ih hx
  | write | outer => exact hx.elim

open State

/-- What is delivered to it comes to an end. -/
theorem Observer.Looks.deliver (hK : K.Extends seen) (hx : x.Looks K seen code) (base : List (Frame F C))
    (v : Value) (w : World F C S) :
    Completes K base ⟨.run (.deliver x v), base, w⟩ fun _ w' => w.Undisturbed K seen w' := by
  induction x generalizing v w with
  | client other =>
    obtain ⟨w', hr, hh, hseen⟩ := hx.2 v w
    refine .step id (.resume hr ⟨?_, by simpa using hseen, hr.held hK⟩)
    rw [hh]
    exact .refl _
  | map f next ih =>
    refine .step id ?_
    cases f with
    | apply f => exact (ih hx.2 _ (K.apply f v w).2).mono fun _ _ => (World.Undisturbed.apply hK f v w).trans
    | wrap => exact ih hx.2 _ w
    | emptyIfNull =>
      simp only [State.step, stepCommand, stepDeliver, stepMap]
      split
      · exact ih hx.2 _ w
      · exact (ih hx.2 _ ⟨(w.heap.newStream .empty).2, w.client⟩).mono fun _ _ =>
          (World.Undisturbed.of_heap (.newStream _ _)).trans
    | publish s side => exact absurd rfl (hx.1 s side)
  | filter f next ih =>
    have hspares := World.Undisturbed.apply hK f v w
    refine .step id ?_
    simp only [State.step, stepCommand, stepDeliver]
    split
    · exact (ih hx v _).mono fun _ _ => hspares.trans
    · exact .pass hspares
  | skip i next ih =>
    refine .step id ?_
    simp only [State.step, stepCommand, stepDeliver]
    split
    · exact ih hx v w
    · exact .pass (.of_heap (.of_eq rfl rfl rfl rfl))
  | distinct m next ih =>
    have hspares : w.Undisturbed K seen ⟨w.heap.setMemory m v, w.client⟩ := .of_heap (.of_eq rfl rfl rfl rfl)
    refine .step id ?_
    simp only [State.step, stepCommand, stepDeliver]
    split
    · exact .pass (.refl w)
    · exact (ih hx v _).mono fun _ _ => hspares.trans
  | inner i g next ih =>
    refine .step id ?_
    simp only [State.step, stepCommand, stepDeliver]
    split
    · exact ih hx v w
    · exact .pass (.refl w)
  | slot j k next ih =>
    have hspares : w.Undisturbed K seen ⟨w.heap.setJoin j ((w.heap.join j).set k (some v)), w.client⟩ :=
      .of_heap (.of_eq rfl rfl rfl rfl)
    refine .step id ?_
    simp only [State.step, stepCommand, stepDeliver]
    split
    · exact (ih hx _ _).mono fun _ _ => hspares.trans
    · exact .pass hspares
  | relocate gate s next ih =>
    -- queued, or run at once if the gate is still open
    refine .step id (.step (s := ⟨.run (.schedule s (.deliver gate next v)), base, w⟩) id ?_)
    simp only [State.step, stepCommand, stepSchedule]
    split
    · exact .pass (.of_heap (.of_eq rfl rfl rfl rfl))
    · simp only [stepTask]
      split
      · exact ih hx v w
      · exact .pass (.refl w)
  | write | outer => exact hx.elim

end DataBinding
