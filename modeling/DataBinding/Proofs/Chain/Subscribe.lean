import DataBinding.Live.Observation
import DataBinding.Plan.Synthesis
import DataBinding.Proofs.Chain.Others
/-!
# Subscribing to a path

The pipeline of a path is a watched root, a switch for each further segment, and for completed changes
an operator that leaves out repeated values (`Path.observe_pipeline`). Subscribing to it takes new cells
for these and registers with the root (`Path.leads_subscribe`); from there on the chain is live
(`Path.live_withRoot`).
-/

namespace DataBinding

variable {F C S : Type}

/-! ## The stream of a path -/

namespace Path

variable (p : Path) (t : Timing) (root : ObjectId)

/-- Whether values equal to the one before are left out. -/
def LeavesOut : Prop := t = .after ∧ p.links ≠ []

instance : Decidable (p.LeavesOut t) := inferInstanceAs (Decidable (_ ∧ _))

/-- The links of a path, followed from its root. -/
def followed : Stream F :=
  p.links.foldl (fun x s => x.follow s t) (.watch root p.root.property t)

/-- What the pipeline of a path observes. -/
def stream : Stream F :=
  if p.LeavesOut t then .distinct (p.followed t root) else p.followed t root

theorem observe_pipeline {caps : Capabilities} (hc : caps.supports p.rootType t = true)
    (hn : p.leaf.property ≠ "") (a : Arguments F) :
    (p.pipeline t caps).observe root a = .ok (p.stream t root) := by
  have hl : p.leaf.isAny = false := by simp [Segment.isAny, hn]
  cases hlinks : p.links with
  | nil =>
    simp [pipeline, hc, hlinks, Staged.observe, observePipeline, Stage.start, stream, LeavesOut,
      followed]
  | cons s rest =>
    cases t <;>
      simp [pipeline, hc, hlinks, hl, Staged.observe, Staged.andThenIf, Staged.andThen,
        observePipeline, Stage.start, Stage.applyTo, stream, LeavesOut, followed] <;>
      rfl

end Path

/-! ## Taking cells -/

/-- Links with the switches that are made for them, those of later segments first. -/
def Link.number (first : Nat) : List Segment → List Link
  | [] => []
  | s :: rest => ⟨first + rest.length, s⟩ :: number first rest

namespace Heap

/-- So many new switches. -/
def withSwitches (h : Heap F C) : Nat → Heap F C
  | 0 => h
  | n + 1 => (h.withSwitches n).newSwitch.2

variable (h : Heap F C) (n : Nat)

@[simp] theorem objects_withSwitches : (h.withSwitches n).objects = h.objects := by
  induction n with
  | zero => rfl
  | succ n ih => exact ih

@[simp] theorem memories_withSwitches : (h.withSwitches n).memories = h.memories := by
  induction n with
  | zero => rfl
  | succ n ih => exact ih

@[simp] theorem size_withSwitches : (h.withSwitches n).switches.size = h.switches.size + n := by
  induction n with
  | zero => rfl
  | succ n ih => simp [withSwitches, newSwitch, ih, Nat.add_assoc]

theorem switch_withSwitches (i : Nat) : (h.withSwitches n).switch i =
    if h.switches.size ≤ i ∧ i < h.switches.size + n then ⟨0, none, false⟩ else h.switch i := by
  induction n with
  | zero => rw [if_neg (by omega)]; rfl
  | succ n ih =>
    rw [withSwitches, switch_newSwitch, size_withSwitches, ih]
    split
    · rw [if_pos (by omega)]
    · split
      · rw [if_pos (by omega)]
      · rw [if_neg (by omega)]

end Heap

namespace Link

variable {first : Nat} {segments : List Segment}

@[simp] theorem map_segment_number : (number first segments).map segment = segments := by
  induction segments with
  | nil => rfl
  | cons s rest ih => simp [number, ih]

theorem mem_number {l : Link} (hl : l ∈ number first segments) :
    first ≤ l.switch ∧ l.switch < first + segments.length := by
  induction segments with
  | nil => cases hl
  | cons s rest ih =>
    rcases List.mem_cons.1 hl with rfl | hl
    · exact ⟨Nat.le_add_right .., Nat.lt_succ_self _⟩
    · exact ⟨(ih hl).1, Nat.lt_succ_of_lt (ih hl).2⟩

theorem nodup_number : ((number first segments).map switch).Nodup := by
  induction segments with
  | nil => exact List.nodup_nil
  | cons s rest ih =>
    refine List.nodup_cons.2 ⟨fun hm => ?_, ih⟩
    obtain ⟨l, hl, he⟩ := List.mem_map.1 hm
    exact absurd he (Nat.ne_of_lt (mem_number hl).2)

end Link

namespace Path

variable (p : Path) (t : Timing) (root : ObjectId) (h : Heap F C) (code : C)

/-- The cell for the value delivered last, where values equal to it are left out. -/
def memory : Option Nat := if p.LeavesOut t then some h.memories.size else none

/-- What receives the values of the root, for another observer at the end of the path. -/
def received (next : Observer F C) : Observer F C :=
  (next.filtered (p.memory t h)).linked t (Link.number h.switches.size p.links)

/-- The chain that a subscription to a path is. -/
def chain : Chain C where
  timing := t
  root := root
  first := p.root
  links := Link.number h.switches.size p.links
  memory := if p.LeavesOut t then some h.memories.size else none
  code := code
  handler := h.nextHandler root

/-- The heap with the cells of the operators. -/
def withCells : Heap F C :=
  (if p.LeavesOut t then h.newMemory.2 else h).withSwitches p.links.length

/-- The heap once the root is watched. -/
def withRoot : Heap F C :=
  ((p.withCells t h).addHandler root t p.root.property false
    ((p.chain t root h code).observer (p.chain t root h code).links)).2

variable {p t root h code}

@[simp] theorem segments_chain : (p.chain t root h code).segments = p.segments := by
  simp [Chain.segments, chain, segments]

@[simp] theorem objects_withCells : (p.withCells t h).objects = h.objects := by
  unfold withCells
  split <;> simp [Heap.newMemory]

@[simp] theorem handlers_withCells (o : ObjectId) :
    (p.withCells t h).handlers o = h.handlers o := by
  simp [Heap.handlers]

@[simp] theorem nextHandler_withCells (o : ObjectId) :
    (p.withCells t h).nextHandler o = h.nextHandler o := by
  simp [Heap.nextHandler]

@[simp] theorem supports_withCells (o : ObjectId) (t' : Timing) :
    (p.withCells t h).supports o t' = h.supports o t' := by
  simp [Heap.supports]

@[simp] theorem get_withCells (o : ObjectId) (q : String) :
    (p.withCells t h).get o q = h.get o q := by
  simp [Heap.get]

theorem switches_withCells : (p.withCells t h).switches.size = h.switches.size + p.links.length := by
  unfold withCells
  split <;> simp [Heap.newMemory]

theorem switch_withCells (i : Nat) : (p.withCells t h).switch i =
    if h.switches.size ≤ i ∧ i < h.switches.size + p.links.length then ⟨0, none, false⟩
    else h.switch i := by
  unfold withCells
  split <;> exact Heap.switch_withSwitches ..

theorem memories_withCells : (p.withCells t h).memories.size =
    h.memories.size + if p.LeavesOut t then 1 else 0 := by
  unfold withCells
  split <;> simp [Heap.newMemory, *]

end Path

/-! ## The heap once the root is watched -/

/-- The cells of an observer are there, its switches follow links, and it publishes nothing. -/
def Observer.Scoped (h : Heap F C) : Observer F C → Prop
  | .client _ | .write .. => True
  | .map f next => (∀ s side, f ≠ .publish s side) ∧ next.Scoped h
  | .filter _ next | .skip _ next | .relocate _ _ next | .slot _ _ next => next.Scoped h
  | .distinct m next => m < h.memories.size ∧ next.Scoped h
  | .outer i select next => i < h.switches.size ∧ select ≠ .stream ∧ next.Scoped h
  | .inner i _ next => i < h.switches.size ∧ next.Scoped h

namespace Path

variable {p : Path} {t : Timing} {root : ObjectId} {h : Heap F C} {code : C}

/-- What was there before has none of the cells of a new chain. -/
theorem spares_of_scoped {o : Observer F C} (hs : o.Scoped h) (hc : o.code? ≠ some code) :
    (p.chain t root h code).Spares o := by
  have hlinks : ∀ i, i < h.switches.size → i ∉ (p.chain t root h code).links.map Link.switch :=
    fun i hi hm => by
      obtain ⟨l, hl, rfl⟩ := List.mem_map.1 hm
      exact absurd hi (Nat.not_lt_of_le (Link.mem_number hl).1)
  induction o with
  | client x => exact fun he => hc (congrArg some he)
  | write => trivial
  | map _ next ih => exact ⟨hs.1, ih hs.2 hc⟩
  | filter _ next ih => exact ih hs hc
  | skip _ next ih => exact ih hs hc
  | distinct m next ih =>
    refine ⟨fun he => ?_, ih hs.2 hc⟩
    simp only [chain] at he
    split at he
    · exact absurd hs.1 (by simp_all)
    · cases he
  | outer i _ next ih => exact ⟨hlinks i hs.1, hs.2.1, ih hs.2.2 hc⟩
  | inner i _ next ih => exact ⟨hlinks i hs.1, ih hs.2 hc⟩
  | relocate _ _ next ih => exact ih hs hc
  | slot _ _ next ih => exact ih hs hc

theorem grows_withCells : h.Grows (p.withCells t h) := by
  refine .of_sublist (by simp) (by simp) (by simp) (fun o => ?_) (by simp [switches_withCells])
    (by simp [memories_withCells])
  exact handlers_withCells (p := p) (t := t) (h := h) o ▸ List.Sublist.refl _

theorem numbered_withCells (hn : h.Numbered) : (p.withCells t h).Numbered := by
  refine ⟨fun o => ?_, fun o x hx => ?_, fun i => ?_⟩
  · rw [handlers_withCells]
    exact hn.sorted o
  · rw [handlers_withCells] at hx
    rw [nextHandler_withCells]
    exact hn.below o x hx
  · rw [switch_withCells]
    split
    · trivial
    · exact grows_withCells.undoes (hn.undoes i)

theorem mem_handlers_withRoot (hroot : root < h.objects.size) {o : ObjectId} {x : Handler F C} :
    x ∈ (p.withRoot t root h code).handlers o ↔
      x ∈ h.handlers o ∨ o = root ∧ x = (p.chain t root h code).rootHandler := by
  rw [withRoot, Heap.handlers_addHandler _ _ _ _ _ _ _ (by simpa using hroot)]
  simp only [handlers_withCells, nextHandler_withCells]
  split
  · next he => subst he; simp [Chain.rootHandler, chain]
  · next he => simp [he]

@[simp] theorem get_withRoot (o : ObjectId) (q : String) :
    (p.withRoot t root h code).get o q = h.get o q := by
  simp [withRoot]

theorem grows_withRoot : h.Grows (p.withRoot t root h code) :=
  grows_withCells.trans (Heap.grows_addHandler ..)

theorem numbered_withRoot (hn : h.Numbered) : (p.withRoot t root h code).Numbered :=
  (numbered_withCells hn).addHandler ..

/-- A new chain is live: its root is watched, and its links remain to be followed. -/
theorem live_withRoot (hroot : root < h.objects.size)
    (hfresh : ∀ o, ∀ x ∈ h.handlers o, x.observer.code? ≠ some code) (v : Value) :
    (p.chain t root h code).Live [] (p.withRoot t root h code) (p.chain t root h code).links
      [⟨root, (p.chain t root h code).rootHandler, v⟩] v where
  follows := .root v ((mem_handlers_withRoot hroot).2 (.inr ⟨rfl, rfl⟩))
  complete o n l rest _ _ hx := by
    rcases (mem_handlers_withRoot hroot).1 hx with hx | ⟨-, hx⟩
    · exact absurd Chain.code?_linkHandler (hfresh o _ hx)
    · exact absurd hx.symm Chain.rootHandler_ne_linkHandler
  owned o x hx hc := by
    rcases (mem_handlers_withRoot hroot).1 hx with hx | hx
    · exact absurd hc (hfresh o x hx)
    · exact .inl hx
  ordered := List.pairwise_singleton _ _
  distinct := Link.nodup_number
  running l hl := by
    have hm := Link.mem_number hl
    have hi : l.switch < (p.withCells t h).switches.size := by
      rw [switches_withCells]
      exact hm.2
    refine ⟨hi, ?_⟩
    have := switch_withCells (p := p) (t := t) (h := h) l.switch
    rw [if_pos hm] at this
    exact congrArg Switch.stopped this
  memory m hm := by
    have hm' : m < (p.withCells t h).memories.size := by
      rw [memories_withCells]
      simp only [chain] at hm
      split at hm <;> simp_all
    exact hm'

/-- Around a new chain things are tidy, if all else is of the kind that others have. -/
theorem tidy_withRoot {Other : Observer F C → Prop} (hn : h.Numbered) (hc : h.Closed)
    (hroot : root < h.objects.size)
    (hfresh : ∀ o, ∀ x ∈ h.handlers o, x.observer.code? ≠ some code)
    (ho : ∀ o, ∀ x ∈ h.handlers o, Other x.observer) :
    (p.chain t root h code).Tidy Other (p.withRoot t root h code) where
  numbered := numbered_withRoot hn
  closed := hc.congr grows_withRoot.objects fun _ _ => get_withRoot ..
  own _ _ hx hc _ _ _ he := (live_withRoot hroot hfresh .null).own hx hc he
  others o x hx hc := by
    rcases (mem_handlers_withRoot hroot).1 hx with hx | ⟨-, rfl⟩
    · exact ho o x hx
    · exact absurd Chain.code?_rootHandler hc

/-- A new chain remembers nothing yet. -/
theorem remembered_withRoot :
    (p.chain t root h code).remembered (p.withRoot t root h code) = none := by
  by_cases ho : p.LeavesOut t
  · have hm : (p.withRoot t root h code).memories = h.memories.push none := by
      simp [withRoot, Heap.addHandler, withCells, ho, Heap.newMemory]
    simp [Chain.remembered, chain, ho, Heap.memory, hm]
  · simp [Chain.remembered, chain, ho]

end Path

/-! ## Up to the first delivery -/

section Leads
open State
variable {K : Client F C S} {base : List (Frame F C)} {h : Heap F C} {k : S}

/-- The switches of links are made from the last one on. -/
theorem leads_links (K : Client F C S) (base : List (Frame F C)) (h : Heap F C) (k : S) (t : Timing)
    (tail : Observer F C) (segments : List Segment) (x : Stream F) :
    ∃ l, Leads K base ⟨.run (.subscribe (segments.foldl (fun y s => y.follow s t) x) tail), base, h, k⟩ l
      ⟨.run (.subscribe x (tail.linked t (Link.number h.switches.size segments))),
        (Link.number h.switches.size segments).map (.opening ·.switch) ++ base,
        h.withSwitches segments.length, k⟩ ∧ ∀ s ∈ l, ¬ s.Delivers := by
  induction segments generalizing x with
  | nil => exact ⟨[], .here, by simp⟩
  | cons s rest ih =>
    obtain ⟨l, hl, hd⟩ := ih (x.follow s t)
    refine ⟨l ++ [_], hl.trans (.go id ?_), List.forall_mem_append.2
      ⟨hd, List.forall_mem_singleton.2 not_delivers_subscribe⟩⟩
    simp only [State.step, stepCommand, Stream.follow, stepSubscribe, Heap.newSwitch_fst,
      Heap.size_withSwitches]
    exact .here

/-- Subscribing to a path leads to the first delivery, once the root is watched. -/
theorem Path.leads_watch (base : List (Frame F C)) (h : Heap F C) {p : Path} (t : Timing) {root : ObjectId}
    (next : Observer F C) (hp : p.root.property ≠ "") (hr : Node.object root ∈ K.refs k) :
    ∃ l, Leads K base ⟨.run (.subscribe (p.stream t root) next), base, h, k⟩ l
      ⟨.run (.deliver (p.received t h next) (h.get root p.root.property)),
        .subscribed (p.received t h next) (.handler root (h.nextHandler root)) ::
          ((Link.number h.switches.size p.links).map (.opening ·.switch) ++ base),
        ((p.withCells t h).addHandler root t p.root.property false (p.received t h next)).2, k⟩ ∧
      ∀ s ∈ l, ¬ s.Delivers := by
  obtain ⟨l, hl, hd⟩ : ∃ l, Leads K base
      ⟨.run (.subscribe (p.stream t root) next), base, h, k⟩ l
      ⟨.run (.subscribe (p.followed t root) (next.filtered (p.memory t h))), base,
        if p.LeavesOut t then h.newMemory.2 else h, k⟩ ∧ ∀ s ∈ l, ¬ s.Delivers := by
    by_cases ho : p.LeavesOut t
    · refine ⟨[_], .go id ?_, List.forall_mem_singleton.2 not_delivers_subscribe⟩
      simp only [State.step, stepCommand, Path.stream, if_pos ho, stepSubscribe]
      simp only [memory, if_pos ho, Observer.filtered]
      exact .here
    · refine ⟨[], ?_, by simp⟩
      simp only [Path.stream, memory, if_neg ho, Observer.filtered]
      exact .here
  have hsize : (if p.LeavesOut t then h.newMemory.2 else h).switches.size = h.switches.size := by
    split <;> rfl
  obtain ⟨l', hl', hd'⟩ := leads_links K base (if p.LeavesOut t then h.newMemory.2 else h) k t
    (next.filtered (p.memory t h)) p.links (.watch root p.root.property t)
  rw [hsize] at hl'
  have halive : (⟨.run (.subscribe (.watch root p.root.property t) (p.received t h next)),
      (Link.number h.switches.size p.links).map (.opening ·.switch) ++ base, p.withCells t h, k⟩ :
        State F C S).alive K (.object root) = true :=
    alive_of_kept K (fun _ hm => hm) (.inl hr)
  have hlast := step_watch halive
  have hread : ((p.withCells t h).addHandler root t p.root.property false (p.received t h next)).2.read root
      p.root.property = h.get root p.root.property := by
    simp [Heap.read, hp]
  rw [show p.root.property.isEmpty = false by simp [hp], hread, nextHandler_withCells] at hlast
  refine ⟨l ++ (l' ++ [_]), hl.trans (hl'.trans (.go (fun hc => hc) ?_)), List.forall_mem_append.2
    ⟨hd, List.forall_mem_append.2 ⟨hd', List.forall_mem_singleton.2 not_delivers_subscribe⟩⟩⟩
  exact hlast ▸ .here

/-- So it does for client code, and what receives the values is a chain. -/
theorem Path.leads_subscribe (base : List (Frame F C)) (h : Heap F C) {p : Path} (t : Timing)
    {root : ObjectId} (code : C) (hp : p.root.property ≠ "") (hr : Node.object root ∈ K.refs k) :
    ∃ l, Leads K base ⟨.run (.subscribe (p.stream t root) (.client code)), base, h, k⟩ l
      ⟨.run (.deliver ((p.chain t root h code).observer (p.chain t root h code).links)
          (h.get root p.root.property)),
        .subscribed ((p.chain t root h code).observer (p.chain t root h code).links)
          (.handler root (h.nextHandler root)) ::
          ((p.chain t root h code).links.map (.opening ·.switch) ++ base),
        p.withRoot t root h code, k⟩ ∧ ∀ s ∈ l, ¬ s.Delivers := by
  have hreceived : p.received t h (.client code) =
      ((p.chain t root h code).observer (p.chain t root h code).links : Observer F C) := by
    rw [Chain.observer_eq_linked, Chain.last_eq_filtered]
    rfl
  rw [withRoot, ← hreceived]
  exact leads_watch base h t (.client code) hp hr

/-- Then the subscription is handed back through the switches. -/
theorem leads_opened (K : Client F C S) (base : List (Frame F C)) (links : List Link)
    (t : Teardown C) (w : World F C S) :
    ∃ l t', Leads K base ⟨.pass (.subscription t), links.map (.opening ·.switch) ++ base, w⟩ l
      ⟨.pass (.subscription t'), base, w⟩ ∧ ∀ s ∈ l, ¬ s.Delivers := by
  induction links generalizing t with
  | nil => exact ⟨[], t, .here, by simp⟩
  | cons l rest ih =>
    obtain ⟨l', t', h, hd⟩ := ih (.switch l.switch t)
    refine ⟨_, t', .step (fun _ hb => ?_) h, List.forall_mem_cons.2 ⟨not_delivers_pass, hd⟩⟩
    have := congrArg List.length hb
    simp only [List.map_cons, List.cons_append, List.length_cons, List.length_append,
      List.length_map] at this
    omega

end Leads

end DataBinding
