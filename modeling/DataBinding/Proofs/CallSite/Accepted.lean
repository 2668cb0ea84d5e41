import Mathlib.Data.List.Basic
import DataBinding.Plan.Synthesis
/-!
# Call sites that are accepted

What the check looks at, in one place (`check_eq_ok_iff`). Callers that are matched by their texts ask for
more than callers that are matched by position (`check_positional`). What is accepted can be planned
(`exists_plan_of_check`).
-/

namespace DataBinding.CallSite

variable {s : CallSite} {kind : CallKind} {strategy : Strategy} {caps : Capabilities}

/-- What looks for one thing after another finds nothing if neither this thing nor a later one is there. -/
theorem ite_some_eq_none_iff {α : Type} {c : Prop} [Decidable c] {d : α} {r : Option α} :
    (if c then some d else r) = none ↔ ¬ c ∧ r = none := by
  by_cases hc : c <;> simp [hc]

theorem check_eq_ok_iff_defect? : s.check kind strategy = .ok () ↔ s.defect? kind strategy = none := by
  unfold check
  cases s.defect? kind strategy <;> simp

/-- The check accepts what is of the right kind, with as many paths and texts as this asks for, the right
roots, and no feature that the kind does not allow. -/
theorem check_eq_ok_iff : s.check kind strategy = .ok () ↔
    s.kind = kind ∧ s.paths ≠ [] ∧ s.kind.allowsPaths s.paths.length = true ∧
      strategy.allowsTexts s.paths.length s.texts.length = true ∧ s.strayPath? = none ∧
      (s.features.beforeChange = true → s.kind.allowsBeforeChange = true) ∧
      (s.kind = .whenAnyObservable → s.chainPath? = none) ∧
      (s.features.conversion = true → s.kind.isBinding = true) ∧
      (s.features.selector = true → s.kind.isBidirectional = false) := by
  rw [check_eq_ok_iff_defect?]
  simp only [defect?, ite_some_eq_none_iff, Decidable.not_not, Bool.not_eq_true', Bool.not_eq_false,
    List.isEmpty_iff]
  refine and_congr_right' (and_congr_right' (and_congr_right' (and_congr_right' ?_)))
  cases s.strayPath? with
  | some x => simp
  | none =>
    simp only [ite_some_eq_none_iff, Bool.and_eq_true, not_and, Bool.not_eq_true', Bool.not_eq_false, true_and]
    refine and_congr_right' ?_
    split
    · next p i hc =>
      obtain ⟨hk, hp⟩ := Prod.mk.inj hc
      simp [hk, hp]
    · next hc =>
      have hchain : s.kind = .whenAnyObservable → s.chainPath? = none := fun hk =>
        Option.eq_none_iff_forall_ne_some.2 fun x hp => hc x.1 x.2 (by rw [hk, hp])
      simp only [ite_some_eq_none_iff, not_and, Bool.not_eq_false, Bool.not_eq_true, and_true]
      exact (and_iff_right hchain).symm

/-- A site that is accepted where callers are matched by their texts is accepted where they are matched by
position. -/
theorem check_positional (hs : s.check kind strategy = .ok ()) : s.check kind .positional = .ok () := by
  rw [check_eq_ok_iff] at hs ⊢
  obtain ⟨hk, hp, ha, ht, h⟩ := hs
  refine ⟨hk, hp, ha, ?_, h⟩
  cases strategy with
  | text => simp_all [Strategy.allowsTexts]
  | positional => exact ht

/-- A binding has two paths. -/
theorem paths_of_isBinding (hs : s.check kind strategy = .ok ()) (hb : s.kind.isBinding = true) :
    ∃ source target, s.paths = [source, target] := by
  obtain ⟨-, -, hp, -⟩ := check_eq_ok_iff.1 hs
  have hlen : s.paths.length = 2 := by
    cases hk : s.kind <;> simp_all [CallKind.isBinding, CallKind.allowsPaths]
  exact List.length_eq_two.1 hlen

/-- What is accepted can be planned. -/
theorem exists_plan_of_check (hs : s.check kind strategy = .ok ()) (caps : Capabilities) :
    ∃ p, s.plan caps = .ok p := by
  have hbinding : s.kind.isBinding = true → ∃ b, s.bindingPlan caps = .ok b := by
    intro hb
    obtain ⟨source, target, hp⟩ := paths_of_isBinding hs hb
    obtain ⟨rfl, -⟩ := check_eq_ok_iff.1 hs
    obtain ⟨mode, hm⟩ : ∃ mode, bindingMode? s.kind = some mode := by
      cases hk : s.kind <;> simp_all [CallKind.isBinding, bindingMode?]
    simp [bindingPlan, hm, check_positional hs, hp, bind, Except.bind, pure, Except.pure]
  unfold plan
  cases hk : s.kind
  case oneWayBind | twoWayBind | taggedBind =>
    obtain ⟨b, hb⟩ := hbinding (by rw [hk]; rfl)
    exact ⟨.binding b, by rw [hb]; rfl⟩
  all_goals exact ⟨_, rfl⟩

end DataBinding.CallSite
