import DataBinding.Dispatch
import DataBinding.Proofs.CallSite.Accepted
import DataBinding.Proofs.TwoWay.Wiring
/-!
# Well-formed call sites are accepted, and defects are true

`CallSite.WellFormed` says what a call site must be like for the operation of a kind, without an order in which
to look at it. `Defect.Holds` says what a defect tells of a call site, by its data.

`CallSite.check_exact`: the check accepts the well-formed call sites and no others; what it reports of the others
holds of them, and for a place in the list of paths it is the first one. What is well-formed has all the paths
that its parameters and its plan are made from.
-/

namespace DataBinding

namespace CallKind

/-- The operation takes so many paths. -/
def Takes : CallKind → Nat → Prop
  | observe, n => n = 1
  | observeMany, n => 2 ≤ n
  | whenAny, n | whenAnyObservable, n => 1 ≤ n
  | oneWayBind, n | twoWayBind, n | taggedBind, n => n = 2

end CallKind

namespace CallSite

variable (s : CallSite) (kind : CallKind) (strategy : Strategy)

/-- The path at this place must start at the owner: any path, but of a binding only the second. -/
def MustStartAtOwner (i : Nat) : Prop := s.kind.isBinding = true → i = 1

/-- A call site is as the operation of a kind needs it. -/
structure WellFormed : Prop where
  kind_eq : s.kind = kind
  paths : s.kind.Takes s.paths.length
  texts : s.texts.length = s.paths.length ∨ strategy = .positional ∧ s.texts = []
  roots : ∀ i p, s.paths[i]? = some p → s.MustStartAtOwner i → p.rootType.name = s.owner.name
  beforeChange : s.features.beforeChange = true → s.kind = .observe ∨ s.kind = .observeMany ∨ s.kind = .whenAny
  direct : s.kind = .whenAnyObservable → ∀ p ∈ s.paths, p.length = 1
  conversion : s.features.conversion = true → s.kind.isBinding = true
  selector : s.features.selector = true → s.kind.isBidirectional = false

end CallSite

namespace Defect

/-- What is said of a number by the text for a count. -/
def Says : String → Nat → Prop
  | "1", n => n = 1
  | "2", n => n = 2
  | "at least 1", n => 1 ≤ n
  | "at least 2", n => 2 ≤ n
  | _, _ => False

/-- What a defect tells of a call site that should be of this kind. -/
def Holds (s : CallSite) (kind : CallKind) (strategy : Strategy) : Defect → Prop
  | kindMismatch expected found => expected = kind ∧ found = s.kind ∧ found ≠ expected
  | noPaths => s.paths = []
  | arity expected found =>
    found = s.paths.length ∧ ¬ Says expected found ∧ ∀ n, Says expected n ↔ s.kind.Takes n
  | textCount paths found =>
    paths = s.paths.length ∧ found = s.texts.length ∧ found ≠ paths ∧ (strategy = .positional → found ≠ 0)
  | rootMismatch i root expected =>
    expected = s.owner.name ∧ root ≠ expected ∧ s.MustStartAtOwner i ∧
    (∃ p, s.paths[i]? = some p ∧ p.rootType.name = root) ∧
    ∀ j < i, ∀ q, s.paths[j]? = some q → s.MustStartAtOwner j → q.rootType.name = s.owner.name
  | beforeChangeNotAllowed =>
    s.features.beforeChange = true ∧ s.kind ≠ .observe ∧ s.kind ≠ .observeMany ∧ s.kind ≠ .whenAny
  | nestedObservable i length =>
    s.kind = .whenAnyObservable ∧ 1 < length ∧ (∃ p, s.paths[i]? = some p ∧ p.length = length) ∧
    ∀ j < i, ∀ q, s.paths[j]? = some q → q.length = 1
  | conversionNotAllowed => s.features.conversion = true ∧ s.kind.isBinding = false
  | selectorNotAllowed => s.features.selector = true ∧ s.kind.isBidirectional = true

end Defect

/-! ## The first of a list -/

section Places
variable {α : Type} {l : List α} {n i : Nat} {a : α} {f : α × Nat → Bool}

theorem getElem?_drop_zipIdx (k : Nat) : (l.zipIdx.drop n)[k]? = l[n + k]?.map (·, n + k) := by
  rw [List.getElem?_drop, List.getElem?_zipIdx, Nat.zero_add]

theorem mem_drop_zipIdx_iff : (a, i) ∈ l.zipIdx.drop n ↔ l[i]? = some a ∧ n ≤ i := by
  rw [List.mem_iff_getElem?]
  constructor
  · rintro ⟨k, hk⟩
    rw [getElem?_drop_zipIdx, Option.map_eq_some_iff] at hk
    obtain ⟨b, hb, he⟩ := hk
    cases he
    exact ⟨hb, Nat.le_add_right n k⟩
  · rintro ⟨hi, hn⟩
    refine ⟨i - n, ?_⟩
    rw [getElem?_drop_zipIdx, Nat.add_sub_cancel' hn, hi]
    rfl

theorem find?_drop_zipIdx_eq_none_iff :
    (l.zipIdx.drop n).find? f = none ↔ ∀ i a, l[i]? = some a → n ≤ i → f (a, i) = false := by
  rw [List.find?_eq_none]
  constructor
  · intro h i a hi hn
    simpa using h (a, i) (mem_drop_zipIdx_iff.2 ⟨hi, hn⟩)
  · rintro h ⟨a, i⟩ hx
    obtain ⟨hi, hn⟩ := mem_drop_zipIdx_iff.1 hx
    simpa using h i a hi hn

/-- What is found stands at the first place that there is. -/
theorem of_find?_drop_zipIdx (h : (l.zipIdx.drop n).find? f = some (a, i)) :
    f (a, i) = true ∧ l[i]? = some a ∧ n ≤ i ∧ ∀ j < i, ∀ b, l[j]? = some b → n ≤ j → f (b, j) = false := by
  obtain ⟨hf, k, hk, hget, hbefore⟩ := List.find?_eq_some_iff_getElem.1 h
  have hplace : l[n + k]?.map (·, n + k) = some (a, i) := by
    rw [← getElem?_drop_zipIdx, List.getElem?_eq_getElem hk, hget]
  obtain ⟨b, hb, he⟩ := Option.map_eq_some_iff.1 hplace
  cases he
  refine ⟨hf, hb, Nat.le_add_right n k, fun j hj c hc hn => ?_⟩
  have hjk : j - n < k := by omega
  have hj' : (l.zipIdx.drop n)[j - n]? = some (c, j) := by
    rw [getElem?_drop_zipIdx, Nat.add_sub_cancel' hn, hc]
    rfl
  obtain ⟨hlt, hj'⟩ := List.getElem?_eq_some_iff.1 hj'
  simpa [hj'] using hbefore (j - n) hjk

end Places

namespace CallSite

variable {s : CallSite} {kind : CallKind} {strategy : Strategy}

/-! ## The paths -/

theorem ownerPaths_eq (s : CallSite) : s.ownerPaths = s.paths.zipIdx.drop (if s.kind.isBinding then 1 else 0) := by
  unfold ownerPaths
  split <;> rfl

theorem chainPath?_eq (s : CallSite) : s.chainPath? = (s.paths.zipIdx.drop 0).find? fun (p, _) => p.isChain := rfl

theorem isChain_eq_false_iff (p : Path) : p.isChain = false ↔ p.length = 1 := by
  simp [Path.isChain, Path.length, Path.segments]

/-- Of the two paths of a binding the second is the one after the first. -/
theorem mustStartAtOwner_iff (hp : s.kind.Takes s.paths.length) {i : Nat} {p : Path} (hi : s.paths[i]? = some p) :
    s.MustStartAtOwner i ↔ (if s.kind.isBinding then 1 else 0) ≤ i := by
  obtain ⟨hlt, -⟩ := List.getElem?_eq_some_iff.1 hi
  -- the check leaves out the first path, and of two paths this is to ask for the second
  unfold MustStartAtOwner
  cases hb : s.kind.isBinding with
  | false => simp
  | true =>
    have htwo : s.paths.length = 2 := by
      cases hk : s.kind <;> simp_all [CallKind.isBinding, CallKind.Takes]
    simp only [if_true, forall_const]
    omega

theorem takes_iff (k : CallKind) (n : Nat) : k.Takes n ↔ n ≠ 0 ∧ k.allowsPaths n = true := by
  cases k <;> simp only [CallKind.Takes, CallKind.allowsPaths, beq_iff_eq, decide_eq_true_eq, and_true] <;> omega

theorem allowsBeforeChange_iff (k : CallKind) :
    k.allowsBeforeChange = true ↔ k = .observe ∨ k = .observeMany ∨ k = .whenAny := by
  cases k <;> simp [CallKind.allowsBeforeChange]

theorem says_pathCount_iff (k : CallKind) (n : Nat) : Defect.Says k.pathCount n ↔ k.Takes n := by
  cases k <;> rfl

theorem strayPath?_eq_none_iff (hp : s.kind.Takes s.paths.length) : s.strayPath? = none ↔
    ∀ i p, s.paths[i]? = some p → s.MustStartAtOwner i → p.rootType.name = s.owner.name := by
  rw [strayPath?, ownerPaths_eq, find?_drop_zipIdx_eq_none_iff]
  refine forall₃_congr fun i p hi => ?_
  rw [mustStartAtOwner_iff hp hi]
  simp

theorem chainPath?_eq_none_iff : s.chainPath? = none ↔ ∀ p ∈ s.paths, p.length = 1 := by
  rw [chainPath?_eq, find?_drop_zipIdx_eq_none_iff]
  simp only [isChain_eq_false_iff, Nat.zero_le, forall_const, List.mem_iff_getElem?]
  exact ⟨fun h p ⟨i, hi⟩ => h i p hi, fun h i p hi => h p ⟨i, hi⟩⟩

/-! ## What is accepted -/

/-- The check accepts what is well-formed. -/
theorem check_eq_ok_iff_wellFormed : s.check kind strategy = .ok () ↔ s.WellFormed kind strategy := by
  have hpaths : s.paths ≠ [] ∧ s.kind.allowsPaths s.paths.length = true ↔ s.kind.Takes s.paths.length := by
    simp [takes_iff]
  have htexts : strategy.allowsTexts s.paths.length s.texts.length = true ↔
      s.texts.length = s.paths.length ∨ strategy = .positional ∧ s.texts = [] := by
    cases strategy <;> simp [Strategy.allowsTexts, or_comm]
  rw [check_eq_ok_iff, ← and_assoc (b := s.kind.allowsPaths _ = true), hpaths, htexts, allowsBeforeChange_iff,
    chainPath?_eq_none_iff]
  constructor
  · rintro ⟨hk, hp, ht, hr, hb, hd, hc, hs⟩
    exact ⟨hk, hp, ht, (strayPath?_eq_none_iff hp).1 hr, hb, hd, hc, hs⟩
  · rintro ⟨hk, hp, ht, hr, hb, hd, hc, hs⟩
    exact ⟨hk, hp, ht, (strayPath?_eq_none_iff hp).2 hr, hb, hd, hc, hs⟩

/-! ## What is reported -/

/-- The stray path that is found is the first one. -/
theorem holds_rootMismatch (hp : s.kind.Takes s.paths.length) {p : Path} {i : Nat}
    (h : s.strayPath? = some (p, i)) :
    (Defect.rootMismatch i p.rootType.name s.owner.name).Holds s kind strategy := by
  rw [strayPath?, ownerPaths_eq] at h
  obtain ⟨hroot, hi, hn, hbefore⟩ := of_find?_drop_zipIdx h
  refine ⟨rfl, of_decide_eq_true hroot, (mustStartAtOwner_iff hp hi).2 hn, ⟨p, hi, rfl⟩, ?_⟩
  intro j hj q hq hmust
  simpa using hbefore j hj q hq ((mustStartAtOwner_iff hp hq).1 hmust)

/-- The path of several segments that is found is the first one. -/
theorem holds_nestedObservable (hk : s.kind = .whenAnyObservable) {p : Path} {i : Nat}
    (h : s.chainPath? = some (p, i)) : (Defect.nestedObservable i p.length).Holds s kind strategy := by
  rw [chainPath?_eq] at h
  obtain ⟨hchain, hi, -, hbefore⟩ := of_find?_drop_zipIdx h
  have hlong : p.length ≠ 1 := by
    intro hone
    have hchain : p.isChain = true := hchain
    rw [(isChain_eq_false_iff p).2 hone] at hchain
    cases hchain
  have hpos : 0 < p.length := Nat.succ_pos _
  refine ⟨hk, by omega, ⟨p, hi, rfl⟩, fun j hj q hq => ?_⟩
  exact (isChain_eq_false_iff q).1 (hbefore j hj q hq (Nat.zero_le j))

/-- What is reported of a call site holds of it. -/
theorem holds_of_defect? {d : Defect} (h : s.defect? kind strategy = some d) : d.Holds s kind strategy := by
  -- in the order in which the check looks; what has been passed is known from then on
  unfold defect? at h
  split at h
  · next hk =>
    cases h
    exact ⟨rfl, rfl, hk⟩
  split at h
  · next hp =>
    cases h
    exact List.isEmpty_iff.1 hp
  next hp =>
  split at h
  · next ha =>
    cases h
    have hnot : ¬ s.kind.Takes s.paths.length := fun ht => by simp [((takes_iff _ _).1 ht).2] at ha
    exact ⟨rfl, fun hs => hnot ((says_pathCount_iff _ _).1 hs), says_pathCount_iff s.kind⟩
  next ha =>
  have htakes : s.kind.Takes s.paths.length := (takes_iff _ _).2 ⟨by simpa using hp, by simpa using ha⟩
  split at h
  · next ht =>
    cases h
    cases strategy with
    | text => exact ⟨rfl, rfl, by simpa [Strategy.allowsTexts] using ht, nofun⟩
    | positional =>
      have hboth : s.texts ≠ [] ∧ s.texts.length ≠ s.paths.length := by simpa [Strategy.allowsTexts] using ht
      exact ⟨rfl, rfl, hboth.2, fun _ => by simpa using hboth.1⟩
  split at h
  · next p i hs =>
    cases h
    exact holds_rootMismatch htakes hs
  split at h
  · next hb =>
    cases h
    obtain ⟨hb, hk⟩ := Bool.and_eq_true_iff.1 hb
    have hnot : ¬ (s.kind = .observe ∨ s.kind = .observeMany ∨ s.kind = .whenAny) := by
      rw [← allowsBeforeChange_iff]
      simpa using hk
    rw [not_or, not_or] at hnot
    exact ⟨hb, hnot⟩
  split at h
  · next p i hc =>
    cases h
    obtain ⟨hk, hc⟩ := Prod.mk.inj hc
    exact holds_nestedObservable hk hc
  split at h
  · next hc =>
    cases h
    obtain ⟨hc, hb⟩ := Bool.and_eq_true_iff.1 hc
    exact ⟨hc, by simpa using hb⟩
  split at h
  · next hs =>
    cases h
    exact Bool.and_eq_true_iff.1 hs
  · cases h

/-- What a defect tells is against the call site. -/
theorem not_wellFormed_of_holds {d : Defect} (h : d.Holds s kind strategy) : ¬ s.WellFormed kind strategy := by
  intro hw
  cases d with
  | kindMismatch expected found =>
    obtain ⟨rfl, rfl, hne⟩ := h
    exact hne hw.kind_eq
  | noPaths =>
    have hpos := ((takes_iff _ _).1 hw.paths).1
    exact hpos (List.length_eq_zero_iff.2 h)
  | arity expected found =>
    obtain ⟨rfl, hnot, hmeans⟩ := h
    exact hnot ((hmeans _).2 hw.paths)
  | textCount paths found =>
    obtain ⟨rfl, rfl, hne, hsome⟩ := h
    rcases hw.texts with ht | ⟨hp, ht⟩
    · exact hne ht
    · exact hsome hp (List.length_eq_zero_iff.2 ht)
  | rootMismatch i root expected =>
    obtain ⟨rfl, hne, hmust, ⟨p, hi, rfl⟩, -⟩ := h
    exact hne (hw.roots i p hi hmust)
  | beforeChangeNotAllowed =>
    obtain ⟨hb, h₁, h₂, h₃⟩ := h
    rcases hw.beforeChange hb with hk | hk | hk
    · exact h₁ hk
    · exact h₂ hk
    · exact h₃ hk
  | nestedObservable i length =>
    obtain ⟨hk, hlong, ⟨p, hi, rfl⟩, -⟩ := h
    exact Nat.ne_of_gt hlong (hw.direct hk p (List.mem_of_getElem? hi))
  | conversionNotAllowed => exact Bool.false_ne_true (h.2.symm.trans (hw.conversion h.1))
  | selectorNotAllowed => exact Bool.false_ne_true ((hw.selector h.1).symm.trans h.2)

theorem check_eq_error {r : Rejection} (h : s.check kind strategy = .error r) :
    r.kind = s.kind ∧ r.location = s.location ∧ s.defect? kind strategy = some r.defect := by
  unfold check at h
  split at h
  · next d hd =>
    cases h
    exact ⟨rfl, rfl, hd⟩
  · cases h

/-! ## What is made from the paths -/

/-- The parameters of the entry point, with the paths of a binding taken from their places in the list. -/
def indexedParameters? (s : CallSite) (strategy : Strategy) : Option (List Parameter) := do
  let source ← if s.kind.isBinding then do
      let path ← s.paths[0]?
      pure [⟨"source", .sourceRoot path.rootType⟩]
    else pure []
  let selector ← if s.features.selector then do
      let inputs ← if s.kind.isBinding then do
          let path ← s.paths[0]?
          pure [path.leafType]
        else pure (s.paths.map Path.leafType)
      pure [⟨"selector", .selector inputs s.result⟩]
    else pure []
  let converters ← if s.features.conversion && s.kind.isBinding then do
      let source ← s.paths[0]?
      let target ← s.paths[1]?
      let back := ⟨"back_converter", .backConverter target.leafType source.leafType⟩
      pure (⟨"converter", .converter source.leafType target.leafType⟩ ::
        if s.kind.isBidirectional then [back] else [])
    else pure []
  pure (⟨"receiver", .receiver s.owner⟩ :: source ++ s.propertyParameters ++ selector ++ converters
    ++ s.schedulerParameters ++ s.callerParameters strategy)

/-- The places are there. -/
theorem indexedParameters?_eq (hb : s.kind.isBinding = true → ∃ source target, s.paths = [source, target])
    (strategy : Strategy) : s.indexedParameters? strategy = some (s.parameters strategy) := by
  unfold indexedParameters? parameters sourceParameters selectorParameters converterParameters
  cases hk : s.kind.isBinding with
  | false => cases s.features.selector <;> cases s.features.conversion <;> simp
  | true =>
    obtain ⟨source, target, hp⟩ := hb hk
    cases s.features.selector <;> cases s.features.conversion <;> simp [hp]

/-- The plan of a binding is made from the paths at its two places. -/
theorem exists_plan_binding (hs : s.check kind strategy = .ok ()) (hb : s.kind.isBinding = true)
    (caps : Capabilities) : ∃ b, s.plan caps = .ok (.binding b) ∧
      s.paths[0]? = some b.sourcePath ∧ s.paths[1]? = some b.targetPath := by
  obtain ⟨p, hp⟩ := exists_plan_of_check hs caps
  have hplan : s.plan caps = (s.bindingPlan caps).map .binding := by
    unfold plan
    cases hk : s.kind <;> simp_all [CallKind.isBinding]
  rw [hplan] at hp ⊢
  cases hbp : s.bindingPlan caps with
  | error e =>
    rw [hbp] at hp
    cases hp
  | ok b =>
    obtain ⟨_, _, _, hpaths, _⟩ := bindingPlan_eq hbp
    exact ⟨b, rfl, by rw [hpaths]; rfl, by rw [hpaths]; rfl⟩

/-- **The check is exact, and blames truthfully.** It accepts the well-formed call sites and no others. If it
turns one down, it names the kind and the place of the call site, and what it reports holds; whatever defect
holds of a call site, it is not well-formed. Callers that are matched by position accept what callers that are
matched by texts do. And the parameters and the plan of what is accepted are made from paths that are there. -/
theorem check_exact (s : CallSite) (kind : CallKind) (strategy : Strategy) :
    (s.check kind strategy = .ok () ↔ s.WellFormed kind strategy) ∧
    (∀ r, s.check kind strategy = .error r →
      r.kind = s.kind ∧ r.location = s.location ∧ r.defect.Holds s kind strategy) ∧
    (∀ d : Defect, d.Holds s kind strategy → ¬ s.WellFormed kind strategy) ∧
    (s.check kind .text = .ok () → s.check kind .positional = .ok ()) ∧
    (s.check kind strategy = .ok () →
      (∀ use, s.indexedParameters? use = some (s.parameters use)) ∧
      ∀ caps, ∃ p, s.plan caps = .ok p ∧ (s.kind.isBinding = true → ∃ b, p = .binding b ∧
        s.paths[0]? = some b.sourcePath ∧ s.paths[1]? = some b.targetPath)) := by
  refine ⟨check_eq_ok_iff_wellFormed, fun r hr => ?_, fun d => not_wellFormed_of_holds, check_positional,
    fun hs => ⟨indexedParameters?_eq (paths_of_isBinding hs), fun caps => ?_⟩⟩
  · obtain ⟨hk, hl, hd⟩ := check_eq_error hr
    exact ⟨hk, hl, holds_of_defect? hd⟩
  · cases hb : s.kind.isBinding with
    | false =>
      obtain ⟨p, hp⟩ := exists_plan_of_check hs caps
      exact ⟨p, hp, nofun⟩
    | true =>
      obtain ⟨b, hplan, hpaths⟩ := exists_plan_binding hs hb caps
      exact ⟨.binding b, hplan, fun _ => ⟨b, rfl, hpaths⟩⟩

end CallSite

end DataBinding
