import DataBinding.Live.Observation
import DataBinding.Proofs.Beside.Setting
import DataBinding.Proofs.Outcomes
/-!
# What there is at the beginning

Both runs begin with the same heap, in which everything is tied to itself (`Heap.ties`). If the heap is calm, it
mirrors itself (`Heap.Calm.mirrors`). A stream that is observed by plan with pure functions is the same stream in
both runs (`Setting.Source.alike`).
-/

namespace DataBinding

variable {F C S : Type}

/-- At the beginning everything is tied to itself, but handles from before are left alone. -/
def Heap.ties (h : Heap F C) : Ties := fun k =>
  ⟨fun i j => k ≠ .handle ∧ i = j ∧ i < h.count k, fun _ => False⟩

section Definitions
variable (q : Setting F C S)

/-- The value names only what is there at the beginning. -/
def Setting.Known (v : Value) : Prop := v.Alike q.objects (fun i j => i = j ∧ i < q.streams) v

/-- What is supplied with a plan is pure. -/
def Arguments.Pure (a : Arguments F) : Prop := ∀ slot f, a.slot? slot = some f → q.pure f

/-- A stream to subscribe to. -/
inductive Setting.Source : Stream F → Prop
  /-- A stream that is observed by plan. -/
  | observed {p : Pipeline} {root : ObjectId} {a : Arguments F} {x : Stream F} :
      root < q.objects → a.Pure q → p.observe root a = .ok x → Source x
  /-- Any stream that writes nothing, of what is there at the beginning, such as that of a subject. -/
  | known {x : Stream F} : x.Alike q (fun i j => i = j ∧ i < q.streams) x → Source x

/-- Everything in the heap is of what is there, and every observer ends in idle code and writes nothing. -/
structure Heap.Calm (h : Heap F C) : Prop where
  objects : h.objects.size = q.objects
  subjects : h.subjects.size = q.subjects
  streams : h.streams.size = q.streams
  cells : ∀ k i, k ≠ .handle → i < h.count k → (h.cell k i).Alike q h.ties (h.cell k i)
  get : ∀ o p, q.Known (h.get o p)
  handlers : ∀ o, ∀ x ∈ h.handlers o, x.Alike q h.ties o x
  listeners : ∀ j, ∀ x ∈ h.roster (.subject j), Listener.Alike q h.ties j x x
  tasks : ∀ i l, h.tasks? i = some l → ∀ t ∈ l, t.Alike q h.ties t

end Definitions

variable {q : Setting F C S}

/-! ## The heap -/

namespace Heap

variable {h : Heap F C}

theorem Calm.pair_stream (hc : h.Calm q) {i : Nat} (hi : i < q.streams) : (h.ties .stream).pair i i :=
  ⟨nofun, rfl, Nat.lt_of_lt_of_eq hi hc.streams.symm⟩

theorem Calm.alike (hc : h.Calm q) {v : Value} (hv : q.Known v) : q.alike h.ties v v :=
  Value.Alike.mono (fun _ _ ⟨hij, hi⟩ => hij ▸ hc.pair_stream hi) hv

theorem Calm.mirrors (hc : h.Calm q) : h.Mirrors q h.ties h where
  sound k :=
    { left := fun hp hp' => hp.2.1.symm.trans hp'.2.1
      right := fun hp hp' => hp.2.1.trans hp'.2.1.symm
      below := fun hp => ⟨hp.2.2, hp.2.1 ▸ hp.2.2⟩
      alien_below := False.elim
      apart := fun _ => id }
  cells k i j hp := by
    obtain ⟨hk, rfl, hi⟩ := hp
    exact hc.cells k i hk hi
  aliens _ _ := False.elim
  streams i := by
    by_cases hi : i < h.count .stream
    · exact Stream.Alike.harmless (hc.cells .stream i nofun hi)
    · rw [stream, Array.getElem?_eq_none (Nat.le_of_not_lt hi)]
      trivial
  objects := hc.objects
  objects' := hc.objects
  subjects := hc.subjects
  subjects' := hc.subjects
  get o p := hc.alike (hc.get o p)
  supports _ _ := rfl
  handlers o := .of_forall₂ (List.forall₂_same.2 (hc.handlers o))
  listeners j := .of_forall₂ (List.forall₂_same.2 (hc.listeners j))
  schedulers := rfl
  tasks i := by
    cases hl : h.tasks? i with
    | none => exact .none
    | some l => exact .some (.of_forall₂ (List.forall₂_same.2 (hc.tasks i l hl)))

end Heap

/-! ## Streams that are observed by plan -/

section Observe

variable {root : ObjectId} {a : Arguments F} {r : StreamId → StreamId → Prop} {x y : Stream F}

theorem Arguments.Pure.function (ha : a.Pure q) {slot : Slot} {f : F} (hf : a.function slot = .ok f) : q.pure f := by
  unfold Arguments.function at hf
  cases hs : a.slot? slot <;> rw [hs] at hf <;> cases hf
  exact ha slot f hs

theorem Stream.Alike.follow (hx : Stream.Alike q r x x) (links : List Segment) (t : Timing) :
    Stream.Alike q r (links.foldl (fun y link => y.follow link t) x)
      (links.foldl (fun y link => y.follow link t) x) := by
  induction links generalizing x with
  | nil => exact hx
  | cons link rest ih => exact ih ⟨x, hx, rfl⟩

theorem Stream.Alike.apply (ha : a.Pure q) (hx : Stream.Alike q r x x) {slot : Slot}
    (h : (do return .map x (.apply (← a.function slot))) = Except.ok y) : Stream.Alike q r y y := by
  obtain ⟨f, hf, h⟩ := bind_eq_ok_iff.1 h
  cases h
  exact ⟨x, hx, ha.function hf, rfl⟩

theorem Stream.Alike.applyTo (hroot : root < q.objects) (ha : a.Pure q) (hx : Stream.Alike q r x x) {stage : Stage}
    (h : stage.applyTo root a x = .ok y) : Stream.Alike q r y y := by
  cases stage with
  | chain links t =>
    cases h
    exact hx.follow links t
  | select slot | convert slot => exact Stream.Alike.apply ha hx h
  | wrap p =>
    cases h
    exact ⟨x, hx, hroot, rfl⟩
  | emptyIfNull =>
    cases h
    exact ⟨x, hx, trivial, rfl⟩
  | observeOn =>
    obtain ⟨_, -, h⟩ := bind_eq_ok_iff.1 h
    cases h
    exact ⟨x, hx, rfl⟩
  | distinct | skip | switch =>
    cases h
    exact ⟨x, hx, rfl⟩
  | _ => cases h

theorem Stream.Alike.operators (hroot : root < q.objects) (ha : a.Pure q) (hx : Stream.Alike q r x x)
    {l : List Stage} (h : l.foldlM (fun y stage => stage.applyTo root a y) x = .ok y) : Stream.Alike q r y y :=
  foldlM_keeps (Q := fun y => Stream.Alike q r y y) h hx fun _ _ _ _ hz hx => hx.applyTo hroot ha hz

mutual

theorem Stream.alike_start (hroot : root < q.objects) (ha : a.Pure q) :
    ∀ {stage : Stage} {y : Stream F}, stage.start root a = .ok y → Stream.Alike q r y y
  | .watch .., _, h | .constant .., _, h => by
    cases h
    exact ⟨hroot, rfl⟩
  | .combineLatest inputs, _, h | .merge inputs, _, h => by
    unfold Stage.start at h
    obtain ⟨xs, hxs, h⟩ := bind_eq_ok_iff.1 h
    cases h
    exact ⟨xs, alikeStreams_observe hroot ha hxs, rfl⟩
  | .chain .., _, h | .select .., _, h | .convert .., _, h | .wrap .., _, h | .distinct, _, h | .skip .., _, h
  | .emptyIfNull, _, h | .switch, _, h | .observeOn, _, h | .tag .., _, h => by cases h

theorem alikeStreams_observe (hroot : root < q.objects) (ha : a.Pure q) :
    ∀ {inputs : List Pipeline} {xs : List (Stream F)}, observeInputs root a inputs = .ok xs → alikeStreams q r xs xs
  | [], _, h => by
    cases h
    rfl
  | p :: rest, _, h => by
    unfold observeInputs at h
    obtain ⟨x, hx, h⟩ := bind_eq_ok_iff.1 h
    obtain ⟨xs, hxs, h⟩ := bind_eq_ok_iff.1 h
    cases h
    exact ⟨x, xs, Stream.alike_observe hroot ha hx, alikeStreams_observe hroot ha hxs, rfl⟩

theorem Stream.alike_observe (hroot : root < q.objects) (ha : a.Pure q) :
    ∀ {p : Pipeline} {y : Stream F}, observePipeline root a p = .ok y → Stream.Alike q r y y
  | ⟨first, operators⟩, _, h => by
    unfold observePipeline at h
    obtain ⟨x, hx, h⟩ := bind_eq_ok_iff.1 h
    exact Stream.Alike.operators hroot ha (Stream.alike_start hroot ha hx) h

end

end Observe

/-- A stream to subscribe to is the same in both runs. -/
theorem Setting.Source.alike {x : Stream F} (hx : q.Source x) {r : StreamId → StreamId → Prop}
    (hr : ∀ i < q.streams, r i i) : Stream.Alike q r x x := by
  cases hx with
  | observed hroot ha h => exact Stream.alike_observe hroot ha h
  | known h => exact h.mono fun i j ⟨hij, hi⟩ => hij ▸ hr i hi

end DataBinding
