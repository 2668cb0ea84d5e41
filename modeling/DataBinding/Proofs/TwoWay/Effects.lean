import DataBinding.Proofs.Chain.Yields
import DataBinding.Proofs.TwoWay.Exchange
/-!
# What steps store and apply

What a step does besides passing things on is read off the states gone through (`State.effect?`): it stores a
property, or applies a function. While the pipeline of a path yields its first value there is nothing of the kind.
-/

namespace DataBinding

variable {F C S : Type}

/-! ## Effects -/

/-- What a step can do besides passing things on. -/
inductive Effect (F : Type) where
  | stores (object : ObjectId) (property : String)
  | applies (f : F)

namespace State

/-- What the next step stores or applies. -/
def effect? (s : State F C S) : Option (Effect F) :=
  match s.control with
  | .run (.deliver (.map (.apply f) _) _) | .run (.deliver (.filter f _) _) => some (.applies f)
  | _ => s.stored?.map fun x => .stores x.1 x.2

theorem Passes.stored? {s : State F C S} (h : s.Passes) : s.stored? = none := by
  unfold State.Passes at h
  unfold State.stored?
  split at h <;> simp_all

theorem Passes.effect? {s : State F C S} (h : s.Passes) : s.effect? = none := by
  have hs := h.stored?
  unfold State.Passes at h
  unfold State.effect?
  split at h <;> simp_all

theorem PassesOn.logs {K : Client F C S} {base : List (Frame F C)} {s e : State F C S}
    (h : PassesOn K base s e) (hs : base <:+ s.frames) : Logs K effect? s [] e := by
  obtain ⟨l, hl, hp⟩ := h.beneath List.nil_suffix hs
  exact ⟨l, hl, List.filterMap_eq_nil_iff.2 fun x hx => (hp x hx).effect?⟩

end State

/-! ## What a path observes -/

namespace Path

variable (p : Path) (t : Timing) (caps : Capabilities) (root : ObjectId)

/-- What the pipeline of a path observes: the path, or its value at the time of the subscription where
the type it starts from raises no notifications. -/
def observed : Stream F :=
  if caps.supports p.rootType t then p.stream t root else .constant root p

variable {p t caps root}

theorem observe_eq_observed (hn : p.leaf.property ≠ "") (a : Arguments F) :
    (p.pipeline t caps).observe root a = .ok (p.observed t caps root) := by
  by_cases hc : caps.supports p.rootType t = true
  · rw [observed, if_pos hc]
    exact observe_pipeline p t root hc hn a
  · simp [pipeline, observed, hc, Staged.observe, observePipeline, Stage.start]

end Path

end DataBinding
