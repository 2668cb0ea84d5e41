import DataBinding.Proofs.Supply.Needs
import DataBinding.Proofs.Tagged.Session
/-!
# Wiring a tagged binding

The plan of a tagged binding is that of a two-way binding with a tag at the end of each direction
(`CallSite.tagged_plan`). So it is wired to the same streams, each of which publishes its values right
before they are written (`CallSite.activate_tagged`), and it is activated where the two-way binding is.
-/

namespace DataBinding

variable {F C S : Type} {a : Arguments F} {root : ObjectId} {j : SubjectId} {P : SubjectId → Prop}

/-! ## Streams that are built -/

theorem Stream.within_links {x : Stream F} (hx : x.Within P) (links : List Segment) (t : Timing) :
    (links.foldl (fun parent link => parent.follow link t) x).Within P := by
  induction links generalizing x with
  | nil => exact hx
  | cons link rest ih => exact ih (x := x.follow link t) hx

/-- A stage names no subject. -/
theorem Stage.within_applyTo {stage : Stage} {x y : Stream F} (hx : x.Within P)
    (hy : stage.applyTo root a x = .ok y) : y.Within P := by
  cases stage with
  | chain links t =>
    cases hy
    exact Stream.within_links hx links t
  | select slot | convert slot =>
    simp only [applyTo, bind, Except.bind] at hy
    split at hy
    · cases hy
    · cases hy
      exact ⟨hx, trivial⟩
  | observeOn =>
    simp only [applyTo, bind, Except.bind] at hy
    split at hy
    · cases hy
    · cases hy
      exact hx
  | wrap | emptyIfNull =>
    cases hy
    exact ⟨hx, trivial⟩
  | distinct | skip | switch =>
    cases hy
    exact hx
  | _ => cases hy

/-- A path is observed without any subject. -/
theorem Path.within_pipeline {p : Path} {t : Timing} {caps : Capabilities} {x : Stream F}
    (hx : (p.pipeline t caps).observe root a = .ok x) : x.Within P := by
  unfold pipeline at hx
  split at hx
  · cases hx
    trivial
  split at hx
  · cases hx
    trivial
  have hlinks : ((p.links.foldl (fun parent link => parent.follow link t)
      (.watch root p.root.property t)) : Stream F).Within P := by
    refine Stream.within_links ?_ p.links t
    trivial
  unfold Staged.andThenIf at hx
  split at hx <;> cases hx <;> exact hlinks

/-! ## Directions -/

/-- The direction with a tag: its values are published with their side right before they are written. -/
def Direction.tagged (j : SubjectId) (side : Side) (d : Direction F) : Direction F :=
  ⟨.map d.plain (.publish j side), d.plain⟩

section Direction

variable {operators : List Stage} (ho : ∀ stage ∈ operators, stage.Operates)
include ho

/-- With a tag at the end of its operators, a direction is the same one tagged. -/
theorem direction_tag (p : Pipeline) (side : Side) :
    direction root a p (operators ++ [.tag side]) (some j) =
      (direction root a p operators none).map (·.tagged j side) := by
  unfold direction
  cases p.observe root a with
  | error e => rfl
  | ok x =>
    simp only [applyOperators_eq_foldlM, List.foldlM_append, bind, Except.bind]
    cases hy : operators.foldlM (Stage.carry root a) (x, none) with
    | error e => rfl
    | ok y =>
      obtain ⟨y, noted⟩ := y
      obtain rfl : noted = none := carry_noted ho hy
      rfl

theorem within_carry {x y : Stream F × Option Side} (hy : operators.foldlM (Stage.carry root a) x = .ok y)
    (hx : x.1.Within P) : y.1.Within P := by
  refine foldlM_keeps (Q := fun z => z.1.Within P) hy hx fun stage hs z z' h hz => ?_
  rw [(ho stage hs).carry_eq_map] at h
  obtain ⟨_, hz', rfl⟩ := map_eq_ok_iff.1 h
  exact Stage.within_applyTo hz hz'

/-- Without a tag, the direction from a path writes its values as they are, and names no subject. -/
theorem direction_plain {p : Path} {t : Timing} {caps : Capabilities} {d : Direction F}
    (hd : direction root a (p.pipeline t caps) operators none = .ok d) :
    d.published = d.plain ∧ ∀ P, d.plain.Within P := by
  obtain ⟨x, y, hx, hy, hplain, hpublished⟩ := direction_eq_ok hd
  obtain he | ⟨i, side, hi, -⟩ := hpublished
  · exact ⟨he.trans hplain.symm, fun P => hplain ▸ within_carry ho hy (Path.within_pipeline hx)⟩
  · cases hi

end Direction

/-! ## Plans -/

namespace CallSite

variable {s : CallSite} {caps : Capabilities} {b b' : BindingPlan}

/-- The plan of the tagged call site is the plan of the two-way one with a tag at the end of each direction. -/
theorem tagged_plan (hk : s.kind = .twoWayBind) (hb : s.bindingPlan caps = .ok b)
    (hb' : { s with kind := .taggedBind }.bindingPlan caps = .ok b') :
    b' = { b with
      mode := .tagged
      toTarget := b.toTarget ++ [.tag .source]
      toSource := b.toSource ++ [.tag .target] } := by
  obtain ⟨mode, hm, -, hp, hmode, hs, ht, hq, hf⟩ := bindingPlan_eq hb
  obtain ⟨mode', hm', -, hp', hmode', hs', ht', hq', hf'⟩ := bindingPlan_eq hb'
  obtain rfl : .twoWay = mode := by simpa [hk, bindingMode?] using hm
  obtain rfl : .tagged = mode' := by simpa [bindingMode?] using hm'
  obtain ⟨hsource, htarget⟩ : b'.sourcePath = b.sourcePath ∧ b'.targetPath = b.targetPath := by
    simpa using hp'.symm.trans hp
  obtain ⟨mode, sourcePath, targetPath, p, operators, q, operators'⟩ := b'
  simp only at hsource htarget hmode' hs' ht' hq' hf'
  subst hsource htarget hmode' hs' ht' hq' hf'
  simp [hs, ht, hq, hf, toTarget, toSource]

end CallSite

/-- Where the values of each direction of a binding are written. -/
def BindingPlan.ends (b : BindingPlan) (source target : ObjectId) : Side → ObjectId × Path
  | .source => (target, b.targetPath)
  | .target => (source, b.sourcePath)

/-- The tags of a binding that is activated in this heap. -/
def BindingPlan.tagging (b : BindingPlan) (source target : ObjectId) (h : Heap F C) : Tagging :=
  ⟨h.subjects.size, b.ends source target⟩

namespace CallSite

variable {s : CallSite} {caps : Capabilities} {b b' : BindingPlan} (hk : s.kind = .twoWayBind)
  (hb : s.bindingPlan caps = .ok b) (hb' : { s with kind := .taggedBind }.bindingPlan caps = .ok b')
  (source target : ObjectId)
include hk hb

/-- Each direction of a two-way binding is made by operators that note no side. -/
theorem operates_twoWay : (∀ stage ∈ b.toTarget, stage.Operates) ∧ (∀ stage ∈ b.toSource, stage.Operates) ∧
    b.source = b.sourcePath.pipeline .after caps ∧ b.target = some (b.targetPath.pipeline .after caps) ∧
    b.mode = .twoWay := by
  obtain ⟨mode, hm, -, -, hmode, hs, ht, hq, hf⟩ := bindingPlan_eq hb
  obtain rfl : .twoWay = mode := by simpa [hk, bindingMode?] using hm
  have hnone : BindingMode.twoWay = .tagged → (none : Option SubjectId).isSome := by simp
  refine ⟨fun stage hstage => ?_, fun stage hstage => ?_, hs, hq, hmode⟩
  · exact (operates_toTarget hnone stage (ht ▸ hstage)).resolve_right (by simp)
  · have hstage' : stage ∈ s.toSource .twoWay := by simpa [hf] using hstage
    exact (operates_toSource hnone stage hstage').resolve_right (by simp)

/-- A two-way binding that is wired writes two streams, which name no subject. -/
theorem wire_twoWay {x : Wiring F} (hx : b.wire a source target none = .ok x) : ∃ forward backward : Stream F,
    x = ⟨⟨forward, forward⟩, some ⟨backward, backward⟩⟩ ∧ ∀ P, forward.Within P ∧ backward.Within P := by
  obtain ⟨hto, hfrom, hs, ht, -⟩ := operates_twoWay hk hb
  obtain ⟨d, hforward, hx⟩ := bind_eq_ok_iff.1 hx
  obtain ⟨_, hbackward, hx⟩ := bind_eq_ok_iff.1 hx
  cases hx
  rw [ht, Option.mapM_some] at hbackward
  obtain ⟨d', hback, rfl⟩ := map_eq_ok_iff.1 hbackward
  rw [hs] at hforward
  obtain ⟨hd, hwithin⟩ := direction_plain hto hforward
  obtain ⟨hd', hwithin'⟩ := direction_plain hfrom hback
  obtain ⟨published, forward⟩ := d
  obtain ⟨published', backward⟩ := d'
  simp only at hd hd'
  subst hd hd'
  exact ⟨_, _, rfl, fun P => ⟨hwithin P, hwithin' P⟩⟩

include hb'

/-- The tagged binding is wired as the two-way one, and tagged. -/
theorem wire_tagged : b'.wire a source target (some j) = (b.wire a source target none).map fun x =>
    ⟨x.forward.tagged j .source, x.backward.map (·.tagged j .target)⟩ := by
  obtain ⟨hto, hfrom, -, ht, -⟩ := operates_twoWay hk hb
  obtain rfl := tagged_plan hk hb hb'
  simp only [BindingPlan.wire, ht, Option.mapM_some, direction_tag hto, direction_tag hfrom]
  cases direction source a b.source b.toTarget none with
  | error e => rfl
  | ok d => cases direction target a (b.targetPath.pipeline .after caps) b.toSource none <;> rfl

/-- The tagged binding is activated where the two-way one is, with the same error if there is one. It writes the
same two streams, and publishes each value right before it is written. -/
theorem activate_tagged (h : Heap F C) :
    (∀ r, (b'.activate source target a h).1 = .error r ↔ (b.activate source target a h).1 = .error r) ∧
      ∀ x h₁, b.activate source target a h = (.ok x, h₁) → h₁ = h ∧ ∃ forward backward x',
        (∀ P, forward.Within P ∧ backward.Within P) ∧
        x.subscriptions = [(forward, .write target b.targetPath), (backward, .write source b.sourcePath)] ∧
        b'.activate source target a h = (.ok x', h.newSubject.2) ∧
        x'.subscriptions = [(.map forward (.publish h.subjects.size .source), .write target b.targetPath),
          (.map backward (.publish h.subjects.size .target), .write source b.sourcePath)] ∧
        x'.changes = some (.subject h.subjects.size) := by
  have hwire := wire_tagged (a := a) (j := h.subjects.size) hk hb hb' source target
  have hmode := (operates_twoWay hk hb).2.2.2.2
  have htagged : b'.mode = .tagged := by
    obtain rfl := tagged_plan hk hb hb'
    rfl
  have hpaths : b'.sourcePath = b.sourcePath ∧ b'.targetPath = b.targetPath := by
    obtain rfl := tagged_plan hk hb hb'
    exact ⟨rfl, rfl⟩
  simp only [BindingPlan.activate, Heap.newSubject, hmode, htagged, if_true, reduceCtorEq, if_false]
  rw [hwire]
  cases hx : b.wire a source target none with
  | error e =>
    refine ⟨fun r => Iff.rfl, ?_⟩
    rintro y h₁ hy
    cases hy
  | ok x =>
    refine ⟨fun r => by simp [Except.map], ?_⟩
    rintro y h₁ hy
    cases hy
    obtain ⟨forward, backward, rfl, hwithin⟩ := wire_twoWay hk hb source target hx
    refine ⟨rfl, forward, backward, _, hwithin, rfl, rfl, ?_, rfl⟩
    simp only [BindingPlan.subscriptions, hpaths]
    rfl

end CallSite

end DataBinding
