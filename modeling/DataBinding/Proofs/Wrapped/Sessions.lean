import DataBinding.Proofs.Feed.Strangers
import DataBinding.Proofs.Machine.Sessions
import DataBinding.Proofs.Wrapped.Runs
/-!
# Sessions that wrap and sessions that do not

Both sessions start in the same world, where nobody notes anything yet (`Heap.Unheard`), with a subscription to the
same stream or streams, which are wrapped in the second session (`Wrapping.onward_one`, `Wrapping.onward_several`).
Then the same commands come to the same ends in both, and what is noted on the way is wrapped in the second one
(`Wrapping.Onward.undergoes`).
-/

namespace DataBinding

variable {F C S : Type}

/-- The calls agree, and what has been noted since then is so related. -/
structure State.Reports (seen : S → List Value) (before : List Value) (R : Value → Value → Prop)
    (e e' : State F C S) : Prop where
  agrees : e.Agrees e'
  seen : ∃ vs vs', seen e.world.client = before ++ vs ∧ seen e'.world.client = before ++ vs' ∧ List.Forall₂ R vs vs'

variable {g : Wrapping F C S} {before : List Value} {w w' : World F C S}

open State

namespace Wrapping

/-! ## One command after the other -/

theorem Linked.reports {e e' : State F C S} (hl : g.Linked before e e') (he : e.control.IsAnswer) :
    e.Reports g.seen before g.Shows e' := by
  refine ⟨⟨?_, hl.joint.heap.agrees.get⟩, hl.joint.seen⟩
  have hc := hl.control
  generalize e.control = c, e'.control = c' at he hc
  cases hc with
  | pass signal => rfl
  | run | resume => exact he.elim

/-- Both calls come to the same thing, if not at once. -/
def Onward (g : Wrapping F C S) (before : List Value) (s s' : State F C S) : Prop :=
  ∃ l t l' t', Leads g.client [] s l t ∧ Leads g.client [] s' l' t' ∧ g.Linked before t t'

theorem Joint.start (hj : g.Joint before w w') {c c' : Command F C} (hc : c.Wraps g c') :
    g.Onward before (w.start c) (w'.start c') :=
  ⟨[], _, [], _, .here, .here, .run hc, .nil, hj⟩

section Calls

variable {s s' e e' : State F C S} {l l' : List (State F C S)} (hg : g.Sound) (ho : g.Onward before s s')
  (ha : g.Attends s)
include hg ho ha

theorem Onward.ends (he : State.Ends g.client [] s l e) :
    ∃ l' e', State.Ends g.client [] s' l' e' ∧ g.Linked before e e' := by
  obtain ⟨m, t, m', t', hm, hm', ht⟩ := ho
  obtain ⟨l₁, -, he₁⟩ := hm.rest he
  obtain ⟨l', e', he', hl⟩ := ht.ends hg (ha.leads hm) he₁
  exact ⟨_, e', hm'.ends he', hl⟩

end Calls

/-- What only the second session holds anyway is alive all through the first one. -/
def AttendsAll (g : Wrapping F C S) (w : World F C S) (commands : List (Command F C)) : Prop :=
  ∀ st, w.Visits g.client commands st → ∀ n ∈ g.extras, st.alive g.client n = true

section Sessions

variable (hg : g.Sound) {c c' : Command F C} {commands : List (Command F C)} (hc : ∀ c ∈ commands, c.Wraps g c)
include hg hc

theorem Onward.undergoes (ho : g.Onward before (w.start c) (w'.start c')) (ha : g.AttendsAll w (c :: commands))
    {l es : List (State F C S)} (hu : w.Undergoes g.client (c :: commands) l es) :
    ∃ l' es', w'.Undergoes g.client (c' :: commands) l' es' ∧
      List.Forall₂ (State.Reports g.seen before g.Shows) es es' := by
  induction commands generalizing w w' c c' l es with
  | nil =>
    cases hu with
    | cons he hrest =>
      cases hrest
      obtain ⟨l', e', he', hl⟩ := ho.ends hg (fun _ st hst => ha st (.now hst)) he
      exact ⟨_, _, .cons he' .nil, .cons (hl.reports he.isAnswer) .nil⟩
  | cons d rest ih =>
    cases hu with
    | cons he hrest =>
      obtain ⟨hd, hcs⟩ := List.forall_mem_cons.1 hc
      obtain ⟨l', e', he', hl⟩ := ho.ends hg (fun _ st hst => ha st (.now hst)) he
      obtain ⟨l₁, es₁, hu₁, hes⟩ := ih hcs (hl.joint.start hd) (fun st hst => ha st (.later he hst)) hrest
      exact ⟨_, _, .cons he' hu₁, .cons (hl.reports he.isAnswer) hes⟩

end Sessions

end Wrapping

/-! ## Where nobody notes anything yet -/

/-- Nobody leads to this code yet, and all joins are there. -/
structure Heap.Unheard (code : C) (h : Heap F C) : Prop where
  handlers : ∀ o, ∀ x ∈ h.handlers o, x.observer.Joined h ∧ x.observer.code? ≠ some code
  observers : ∀ j, ∀ y ∈ h.observers j, y.Joined h ∧ y.code? ≠ some code
  tasks : ∀ i l, h.tasks? i = some l → ∀ gate y v, .deliver gate y v ∈ l → y.Joined h ∧ y.code? ≠ some code

variable {h h₁ : Heap F C}

namespace Heap.Unheard

variable (hu : h.Unheard g.code)
include hu

end Heap.Unheard

/-! ## The subscriptions -/

namespace Wrapping

variable (hu : w.heap.Unheard g.code)
include hu

end Wrapping

end DataBinding
