import DataBinding.Proofs.CallSite.Accepted
import DataBinding.Proofs.Feed.Slots
import DataBinding.Proofs.Machine.Sessions
import DataBinding.Proofs.Outcomes
import DataBinding.Proofs.Quiet.Lagging
/-!
# Paths that are observed together

When several paths are observed together for completed changes, each is subscribed to by a feed that
fills one slot of a join, and once all are, the values of the slots are delivered as one tuple
(`Combined.subscribeAll`). From then on the slots hold what the paths read.

`CallSite.observeMany_coherent`: so the first tuple is what the paths read, and so is the last one that is
delivered during an assignment; if none is delivered, no path reads anything new.
-/

namespace DataBinding

variable {F C S : Type}

/-- These feeds along any objects, among strangers from before. -/
def Net.among (K : Client F C S) (seen : S → List Value) (c : Heap F C) (code : C) (feeds : List (Feed F C)) :
    Net F C :=
  ⟨feeds, fun _ => True, Observer.Stranger K seen c code, (· < c.switches.size)⟩

/-- These paths have been subscribed to, each with a feed for one of so many slots of a join; the slots of
the paths that remain are empty. -/
structure Combined (K : Client F C S) (seen : S → List Value) (c : Heap F C) (code : C) (j : Nat)
    (root : ObjectId) (paths : List Path) (n : Nat) (feeds : List (Feed F C)) (w : World F C S) : Prop where
  apart : (Net.among K seen c code feeds).Apart
  slotted : (Net.among K seen c code feeds).Slotted j code
  runs : (Net.among K seen c code feeds).Runs (Feed.Shows c j code) (fun _ _ => False) w
  along : List.Forall₂ (Feed.Along root) paths feeds
  grows : c.Grows w.heap
  length : (w.heap.join j).length = n
  empty : ∀ k, feeds.length ≤ k → k < n → (w.heap.join j)[k]? = some none

variable {K : Client F C S} {seen : S → List Value} {c : Heap F C} {code : C} {j n : Nat} {root : ObjectId}
  {p : Path} {paths rest : List Path} {feeds : List (Feed F C)} {f : Feed F C} {w w' : World F C S}
  {u : Value}

/-- Tuples have been delivered, the last of them what the paths read afterwards. If none was, no path reads
anything new. -/
def World.Coheres (seen : S → List Value) (root : ObjectId) (paths : List Path) (w w' : World F C S) : Prop :=
  ∃ vs, seen w'.client = seen w.client ++ vs ∧
    ((vs = [] ∧ ∀ p ∈ paths, (w.heap.readPath root p).eqv (w'.heap.readPath root p) = true) ∨
      ∃ vs' l, vs = vs' ++ [.tuple l] ∧
        List.Forall₂ (fun v p => v.eqv (w'.heap.readPath root p) = true) l paths)

namespace Combined

variable (hc : Combined K seen c code j root paths n feeds w)
include hc

/-- The slot of a path that has been subscribed to holds what the path reads. -/
theorem slot (hroot : root < w.heap.objects.size) {k : Nat} (hk : paths[k]? = some p)
    (hnames : ∀ s ∈ p.segments, s.property ≠ "") :
    ∃ u : Value, (w.heap.join j)[k]? = some (some u) ∧ u.eqv (w.heap.readPath root p) = true := by
  obtain ⟨hlt, rfl⟩ := List.getElem?_eq_some_iff.1 hk
  have hk' : k < feeds.length := hc.along.length_eq ▸ hlt
  obtain ⟨u, hu, hshows⟩ := hc.runs.feeds feeds[k] (List.getElem_mem hk')
  obtain ⟨memory, hfills⟩ := hc.slotted.slots k feeds[k] (List.getElem?_eq_getElem hk')
  obtain rfl := hu.eq_readPath (hc.along.get hlt hk') hnames
  exact hshows.slot hfills (hc.runs.toAround.eqv_readPath trivial hroot)

variable (hnames : ∀ p ∈ paths, ∀ s ∈ p.segments, s.property ≠ "")
include hnames

/-- A slot is empty as long as a path remains. -/
theorem none_mem_iff (hroot : root < w.heap.objects.size) : none ∈ w.heap.join j ↔ paths.length < n := by
  constructor
  · intro hm
    obtain ⟨k, hk⟩ := List.getElem?_of_mem hm
    have hlt := (List.getElem?_eq_some_iff.1 hk).1
    rw [hc.length] at hlt
    by_contra hn
    have hk' : k < paths.length := by omega
    obtain ⟨u, hu, -⟩ := hc.slot hroot (List.getElem?_eq_getElem hk') (hnames _ (List.getElem_mem hk'))
    rw [hk] at hu
    cases hu
  · intro hn
    exact List.mem_of_getElem? (hc.empty paths.length (Nat.le_of_eq hc.along.length_eq.symm) hn)

/-- Once all paths have been subscribed to, the slots hold what these read. -/
theorem forall₂_slots (hroot : root < w.heap.objects.size) (hn : paths.length = n) {l : List Value}
    (hl : w.heap.join j = l.map some) :
    List.Forall₂ (fun u p => u.eqv (w.heap.readPath root p) = true) l paths := by
  refine List.forall₂_iff_get.2 ⟨?_, fun k hk hk' => ?_⟩
  · rw [hn, ← hc.length, hl, List.length_map]
  · obtain ⟨u, hu, he⟩ := hc.slot hroot (List.getElem?_eq_getElem hk') (hnames _ (List.getElem_mem hk'))
    rw [hl, List.getElem?_map, List.getElem?_eq_getElem hk] at hu
    obtain rfl : l[k] = u := by simpa using hu
    exact he

open State

omit hnames in
/-- The feed of another path is kept apart from those there are. -/
theorem apart_add (hp : ∀ s ∈ p.segments, s.property ≠ "") :
    (Net.among K seen c code (feeds ++ [p.feed root w.heap (.slot j feeds.length (.client code))])).Apart := by
  refine hc.runs.apart_add hc.apart hp trivial (fun i hi => Nat.lt_of_lt_of_le hi hc.grows.switches) nofun ?_
  rintro x ⟨-, -, other, hother, hne, -⟩ he
  rw [hother] at he
  exact hne (Option.some.inj he)

omit hnames in
/-- The slot of the next feed is still empty once the cells of its links have been made. -/
theorem shows_none (hn : feeds.length < n) :
    (p.feed root w.heap (.slot j feeds.length (.client code))).Shows c j code none
      ⟨p.withCells .after w.heap, w.client⟩ := by
  have hslot : ((p.withCells .after w.heap).join j)[feeds.length]? = some none := by
    simpa only [Heap.join, Path.joins_withCells] using hc.empty _ (Nat.le_refl _) hn
  refine ⟨feeds.length, p.memory .after w.heap, rfl, fun m hm => ?_, Path.passed_withCells hslot⟩
  unfold Path.memory at hm
  split at hm <;> cases hm
  exact hc.grows.memories

omit hnames in
theorem slotted_add :
    (Net.among K seen c code (feeds ++ [p.feed root w.heap (.slot j feeds.length (.client code))])).Slotted j code :=
  hc.slotted.add fun f hf =>
    let ⟨u, hu⟩ := hc.runs.feeds f hf
    ⟨some u, hu.2⟩

omit hnames in
/-- One more feed runs, and its slot is filled. -/
theorem add (hf : f = p.feed root w.heap (.slot j feeds.length (.client code)))
    (hp : ∀ s ∈ p.segments, s.property ≠ "") (hgrows : w.heap.Grows w'.heap)
    (hruns : (Net.among K seen c code (feeds ++ [f])).Runs (Feed.Shows c j code) (fun _ _ => False) w')
    (hset : w'.heap.join j = (w.heap.join j).set feeds.length (some u)) :
    Combined K seen c code j root (paths ++ [p]) n (feeds ++ [f]) w' := by
  refine ⟨hf ▸ hc.apart_add hp, hf ▸ hc.slotted_add, hruns,
    List.rel_append hc.along (.cons (hf ▸ Path.along_feed) .nil), hc.grows.trans hgrows, ?_, fun k hk hlt => ?_⟩
  · rw [hset, List.length_set, hc.length]
  · rw [List.length_append, List.length_singleton] at hk
    rw [hset, List.getElem?_set_ne (by omega)]
    exact hc.empty k (by omega) hlt

/-- One more path is subscribed to. The client is not called unless it is the last one, and then it is
given the values of all slots. -/
theorem subscribe (hj : c.joins.size ≤ j) (hnotes : K.Notes seen code fun v => [v])
    (hp : ∀ s ∈ p.segments, s.property ≠ "") (hn : paths.length < n) (hroot : root < w.heap.objects.size)
    (hheld : Node.object root ∈ K.refs w.client) (base : List (Frame F C)) :
    Completes K base ⟨.run (.subscribe (p.stream .after root) (.slot j paths.length (.client code))), base, w⟩
      fun signal w' => (∃ t, signal = .subscription t) ∧
        (∃ feeds', Combined K seen c code j root (paths ++ [p]) n feeds' w') ∧
        (∀ o q, w'.heap.get o q = w.heap.get o q) ∧
        if paths.length + 1 < n then w'.client = w.client
        else ∃ l, w'.heap.join j = l.map some ∧ seen w'.client = seen w.client ++ [.tuple l] := by
  rw [hc.along.length_eq] at hn ⊢
  obtain ⟨f, hf⟩ : ∃ f, f = p.feed root w.heap (.slot j feeds.length (.client code)) := ⟨_, rfl⟩
  have hslotted : (Net.among K seen c code (feeds ++ [f])).Slotted j code := hf ▸ hc.slotted_add
  have hold : ∀ f ∈ feeds, ∀ u, f.Shows c j code u w →
      f.Shows c j code u ⟨p.withCells .after w.heap, w.client⟩ := fun f _ u he =>
    he.congr Path.grows_withCells.memories (fun m _ _ => Path.memory_withCells m)
      (by simp only [Heap.join, Path.joins_withCells])
  refine (hc.runs.subscribe (hf ▸ hc.apart_add hp) (hf ▸ hslotted.takes hj hnotes) hroot hheld hold
    (hc.shows_none hn)).mono ?_
  rintro signal w' ⟨ht, hgrows, hruns, hget, h₁, w₂, ha₁, htook, ha₂, hclient⟩
  rw [← hf] at hruns htook
  have hjoin₁ : (World.heap ⟨h₁, w.client⟩ : Heap F C).join j = w.heap.join j := by
    refine (ha₁.join j).trans ?_
    simp only [Heap.join, Path.joins_withCells]
  -- the slot was empty and is not any more
  have hfills : f.Fills j code feeds.length (p.memory .after w.heap) := hf ▸ rfl
  obtain ⟨v, hset, hfull⟩ := htook.did.of_empty hfills (hjoin₁ ▸ hc.empty _ (Nat.le_refl _) hn) htook.held
    (hc.runs.toAround.eqv_readPath trivial hroot)
  rw [hjoin₁] at hset
  have hjoin' : w'.heap.join j = w₂.heap.join j := ha₂.join j
  have hc' := hc.add hf hp hgrows hruns (hjoin'.trans hset)
  have hnone := hc'.none_mem_iff (by simpa [or_imp, forall_and] using ⟨hnames, hp⟩) (hgrows.objects ▸ hroot)
  rw [List.length_append, List.length_singleton, hc.along.length_eq, hjoin'] at hnone
  refine ⟨ht, ⟨_, hc'⟩, fun o q => hget o q trivial, ?_⟩
  rw [hclient, hjoin']
  split
  · next hlt =>
    obtain ⟨-, hsame⟩ | ⟨l, hl, -⟩ := hfull
    · exact hsame
    · have := hnone.2 hlt
      simp [hl] at this
  · next hlt => exact hfull.resolve_left fun h => hlt (hnone.1 h.1)

omit hc hnames in
/-- The paths that remain are subscribed to one after the other. Then the values of all slots are
delivered, once. -/
theorem subscribeAll (hj : c.joins.size ≤ j) (hnotes : K.Notes seen code fun v => [v])
    {todo : List Path} (htodo : todo ≠ []) {paths : List Path} {feeds : List (Feed F C)} {w : World F C S}
    (hc : Combined K seen c code j root paths n feeds w)
    (hnames : ∀ p ∈ paths ++ todo, ∀ s ∈ p.segments, s.property ≠ "") (hn : (paths ++ todo).length = n)
    (hroot : root < w.heap.objects.size) (hheld : Node.object root ∈ K.refs w.client)
    (members : List (Teardown C)) (base : List (Frame F C)) :
    Completes K base ⟨.run (.subscribeAll members (todo.mapIdx fun i p =>
        (p.stream .after root, .slot j (paths.length + i) (.client code)))), base, w⟩
      fun signal w' => (∃ t, signal = .subscription t) ∧
        (∃ feeds', Combined K seen c code j root (paths ++ todo) n feeds' w') ∧
        (∀ o q, w'.heap.get o q = w.heap.get o q) ∧
        ∃ l, w'.heap.join j = l.map some ∧ seen w'.client = seen w.client ++ [.tuple l] := by
  induction todo generalizing paths feeds w members with
  | nil => exact absurd rfl htodo
  | cons p rest ih =>
    rw [List.mapIdx_cons, Nat.add_zero]
    rw [List.length_append, List.length_cons] at hn
    refine .step id (.call (f := .gathering _ members _) (List.suffix_refl _) (hc.subscribe
      (fun p hp => hnames p (List.mem_append_left _ hp)) hj hnotes (hnames p (by simp)) (by omega) hroot
      hheld _) ?_)
    rintro _ w₁ ⟨⟨t, rfl⟩, ⟨feeds', hc'⟩, hget, hclient⟩
    refine .back ?_
    change Completes K base ⟨.run (.subscribeAll (members ++ [t]) _), base, w₁⟩ _
    cases hrest : rest with
    | nil =>
      rw [if_neg (by simp_all)] at hclient
      exact .step id (.pass ⟨⟨_, rfl⟩, ⟨feeds', hc'⟩, hget, hclient⟩)
    | cons p' rest' =>
      rw [← hrest]
      rw [if_pos (by simp [hrest] at hn; omega)] at hclient
      have hindex : ∀ i, paths.length + (i + 1) = (paths ++ [p]).length + i := fun i => by
        rw [List.length_append, List.length_singleton]
        omega
      simp only [hindex]
      refine (ih (by simp [hrest]) hc' (by simpa using hnames) (by simpa using hn)
        ((hc'.grows.objects.trans hc.grows.objects.symm).symm ▸ hroot) (hclient ▸ hheld)
        (members ++ [t])).mono fun signal w' ⟨ht, hcombined, hget', l, hl, hseen⟩ => ⟨ht, ?_, ?_, l, hl, ?_⟩
      · simpa using hcombined
      · exact fun o q => (hget' o q).trans (hget o q)
      · rw [hseen, hclient]

omit hnames in
/-- A property is assigned: the slots go on to hold what the paths read. -/
theorem set (hj : c.joins.size ≤ j) (hK : K.Pure seen) (hnotes : K.Notes seen code fun v => [v])
    (hn : paths.length = n) {l : List Value} (hl : w.heap.join j = l.map some) {s : Assignment}
    (hs : s.Valid w.heap) (hv : s.value.eqv s.value = true) (base : List (Frame F C)) :
    Completes K base ⟨.run s.command, base, w⟩ fun _ w' =>
      Combined K seen c code j root paths n feeds w' ∧ w.Shown j seen w' := by
  have htakes : (Net.among K seen c code feeds).Takes K (Feed.Shows c j code) (World.Elsewhere c seen)
      fun _ => World.Shown j seen := (hc.slotted.takes hj hnotes).mono fun _ _ _ h => .of_filled h
  refine (hc.runs.set hc.apart htakes (fun x hx base v w hw => ?_) (fun w w' h => .of_elsewhere hj h)
    (fun w w' w'' h h' => h.trans h') hs.1 (fun _ => hv) hs.2 (fun _ _ _ => trivial)
    fun f hf u he => he.congr (Nat.le_refl _) (fun _ _ _ => rfl) rfl).mono fun _ w' ⟨hruns, hw'⟩ => ?_
  · exact (hx.deliver hK base v w hw).mono fun _ w' h => ⟨h.turns, h.elsewhere.agrees, h.elsewhere⟩
  split at hw'
  · subst hw'
    exact ⟨hc, .of_eq rfl rfl⟩
  obtain ⟨l', vs, hlen, hl', hseen, hvs⟩ := hw'.did l hl
  refine ⟨⟨hc.apart, hc.slotted, hruns, hc.along, hc.grows.trans ((Heap.grows_put ..).trans hw'.turns.toGrows),
    ?_, fun k hk hlt => ?_⟩, hw'.did⟩
  · rw [hl', List.length_map, hlen, ← hc.length, hl, List.length_map]
  · rw [← hc.along.length_eq, hn] at hk
    omega

/-- Properties are assigned one after the other. -/
theorem performs (hj : c.joins.size ≤ j) (hK : K.Pure seen) (hnotes : K.Notes seen code fun v => [v])
    (hn : paths.length = n) (sets : List Assignment) (hsets : ∀ s ∈ sets, s.Valid c ∧ s.value.eqv s.value = true)
    (hroot : root < c.objects.size) {l : List Value} (hl : w.heap.join j = l.map some) :
    ∃ ws, w.Performs K (sets.map Assignment.command) ws ∧
      ∀ x ∈ (w :: ws).zip ws, x.1.Coheres seen root paths x.2 := by
  induction sets generalizing w l with
  | nil => exact ⟨[], .nil, by simp⟩
  | cons s rest ih =>
    obtain ⟨⟨⟨ho, hb⟩, hv⟩, hrest⟩ := List.forall_mem_cons.1 hsets
    have hsize := hc.grows.objects
    obtain ⟨signal, w', hans, hc', hshown⟩ :=
      (hc.set hj hK hnotes hn hl (s := s) ⟨hsize ▸ ho, hsize ▸ hb⟩ hv []).answers
    obtain ⟨l', vs, hlen, hl', hseen, hvs⟩ := hshown l hl
    obtain ⟨ws, hws, hcohere⟩ := ih hc' hrest hl'
    refine ⟨w' :: ws, .cons hans hws, List.forall_mem_cons.2 ⟨⟨vs, hseen, ?_⟩, hcohere⟩⟩
    have hnow := hc'.forall₂_slots hnames (hc'.grows.objects ▸ hroot) hn hl'
    obtain ⟨rfl, rfl⟩ | ⟨vs', rfl⟩ := hvs
    · -- the slots held what the paths read before, and hold what they read now
      have hbefore := hc.forall₂_slots hnames (hsize ▸ hroot) hn hl
      refine .inl ⟨rfl, fun p hp => ?_⟩
      obtain ⟨k, hk, rfl⟩ := List.getElem_of_mem hp
      have hk' : k < l'.length := hnow.length_eq ▸ hk
      exact Value.eqv_trans (Value.eqv_symm (hbefore.get hk' hk)) (hnow.get hk' hk)
    · exact .inr ⟨vs', l', rfl, hnow⟩

end Combined

/-! ## Call sites that observe several paths -/

namespace CallSite

variable {s : CallSite} {strategy : Strategy} {caps : Capabilities}

/-- A call site that observes several paths has at least two. -/
theorem kind_observeMany (hs : s.check .observeMany strategy = .ok ()) :
    s.kind = .observeMany ∧ 2 ≤ s.paths.length := by
  obtain ⟨hkind, -, hpaths, -⟩ := check_eq_ok_iff.1 hs
  rw [hkind] at hpaths
  exact ⟨hkind, of_decide_eq_true hpaths⟩

/-- The stream of a call site that observes several paths for completed changes joins the latest values of
all of them. -/
theorem observe_observation (hlen : 2 ≤ s.paths.length) (hafter : s.features.beforeChange = false)
    (hselector : s.features.selector = false) (hscheduler : s.features.scheduler = false)
    (hnames : ∀ p ∈ s.paths, ∀ x ∈ p.segments, x.property ≠ "")
    (hcaps : ∀ p ∈ s.paths, caps.supports p.rootType .after = true) (root : ObjectId) (a : Arguments F) :
    (s.observation caps).observe root a = .ok (.combineLatest (s.paths.map (·.stream .after root))) := by
  have htiming : s.timing = .after := by simp [timing, hafter]
  have hinputs : observeInputs root a (s.paths.map fun p => p.pipeline .after caps) =
      .ok (s.paths.map (·.stream .after root)) := by
    rw [observeInputs_eq_ok_iff, List.forall₂_map_left_iff, List.forall₂_map_right_iff, List.forall₂_same]
    exact fun p hp => p.observe_pipeline .after root (hcaps p hp) (hnames p hp _ List.getLastD_mem_cons) a
  obtain ⟨p, q, rest, hpaths⟩ : ∃ p q rest, s.paths = p :: q :: rest := by
    match s.paths, hlen with
    | p :: q :: rest, _ => exact ⟨p, q, rest, rfl⟩
  have hplan : s.observation caps = ⟨.combineLatest (s.paths.map fun p => p.pipeline .after caps), []⟩ := by
    simp [observation, finish, pathPipelines, joined, Staged.andThenIf, hselector, hscheduler, htiming, hpaths]
  rw [hplan, Staged.observe, observePipeline, Stage.start, hinputs]
  rfl

end CallSite

/-- Before the first path is subscribed to, all slots are empty. -/
theorem Combined.start (hw : w.Quiet K seen code .after)
    (hjoined : ∀ o, ∀ x ∈ w.heap.handlers o, x.observer.Joined w.heap)
    (hequal : ∀ o q, (w.heap.get o q).eqv (w.heap.get o q) = true) (root : ObjectId) (n : Nat) :
    Combined K seen w.heap code w.heap.joins.size root [] n [] ⟨(w.heap.newJoin n).2, w.client⟩ := by
  have hturns : w.heap.Turns (fun _ => False) (fun _ _ => False) (w.heap.newJoin n).2 :=
    have hb : w.heap.Bypasses (fun _ => True) (w.heap.newJoin n).2 := .of_objects rfl rfl (Nat.le_refl _)
    hb.turns
  have hjoin : (w.heap.newJoin n).2.join w.heap.joins.size = List.replicate n none := by
    simp [Heap.join, Heap.newJoin]
  refine ⟨.of_nil rfl fun i g next hx => hx.cells.1, ⟨by simp [Net.among], .nil⟩, ⟨⟨hturns.numbered hw.numbered, hw.closed, fun o ho _ => hw.supports o ho,
      fun _ _ _ _ _ => trivial, fun o q _ => hequal o q, fun o x hx => .inr ?_⟩, by simp [Net.among]⟩, .nil, hturns.toGrows,
    by simp [hjoin], fun k _ hk => by simp [hjoin, hk]⟩
  obtain ⟨hcells, hother⟩ := hw.others o x hx
  exact ⟨hcells, hjoined o x hx, hother⟩

/-- Subscribing to the joined streams of paths: all are subscribed to, and their values are delivered. -/
theorem Combined.subscribe_combineLatest (hw : w.Quiet K seen code .after)
    (hjoined : ∀ o, ∀ x ∈ w.heap.handlers o, x.observer.Joined w.heap)
    (hequal : ∀ o q, (w.heap.get o q).eqv (w.heap.get o q) = true) (hpaths : paths ≠ [])
    (hnames : ∀ p ∈ paths, ∀ s ∈ p.segments, s.property ≠ "") (hroot : root < w.heap.objects.size)
    (hheld : Node.object root ∈ K.refs w.client) :
    State.Completes K []
      (w.start (.subscribe (.combineLatest (paths.map (·.stream .after root))) (.client code)))
      fun signal w' => (∃ t, signal = .subscription t) ∧
        (∃ feeds, Combined K seen w.heap code w.heap.joins.size root paths paths.length feeds w') ∧
        (∀ o q, w'.heap.get o q = w.heap.get o q) ∧ ∃ l, w'.heap.join w.heap.joins.size = l.map some ∧
          seen w'.client = seen w.client ++ [.tuple l] := by
  have hslots : ((paths.map fun p => (p.stream .after root : Stream F)).mapIdx fun k x =>
      (x, (Observer.slot w.heap.joins.size k (.client code) : Observer F C))) =
        paths.mapIdx fun k p => (p.stream .after root, .slot w.heap.joins.size (0 + k) (.client code)) :=
    List.ext_getElem? fun k => by simp [Function.comp_def]
  have hall := (Combined.start hw hjoined hequal root paths.length).subscribeAll (Nat.le_refl _) hw.notes hpaths
    hnames rfl hroot hheld [] []
  refine .step id ?_
  simp only [World.start, State.step, stepCommand, stepSubscribe, List.length_map, Heap.newJoin, hslots]
  exact hall

/-- Several paths are observed together for completed changes, while properties are assigned one after the
other. The subscription delivers one tuple, of what the paths read. After each assignment the last tuple
delivered during it, if any, is what the paths read then, and if there is none, then no path reads
anything new. -/
theorem CallSite.observeMany_coherent {s : CallSite} {strategy : Strategy}
    (hs : s.check .observeMany strategy = .ok ()) (hafter : s.features.beforeChange = false)
    (hselector : s.features.selector = false) (hscheduler : s.features.scheduler = false)
    (hnames : ∀ p ∈ s.paths, ∀ x ∈ p.segments, x.property ≠ "") {caps : Capabilities}
    (hcaps : ∀ p ∈ s.paths, caps.supports p.rootType .after = true) {K : Client F C S}
    {seen : S → List Value} {code : C} {w : World F C S} (hw : w.Quiet K seen code .after)
    (hjoined : ∀ o, ∀ x ∈ w.heap.handlers o, x.observer.Joined w.heap)
    (hequal : ∀ o q, (w.heap.get o q).eqv (w.heap.get o q) = true) {root : ObjectId}
    (hroot : root < w.heap.objects.size) (hheld : Node.object root ∈ K.refs w.client)
    (sets : List Assignment) (hsets : ∀ s ∈ sets, s.Valid w.heap ∧ s.value.eqv s.value = true)
    (a : Arguments F) :
    ∃ plan stream teardown w₁ ws, s.plan caps = .ok (.observation plan) ∧
      plan.observe root a = .ok stream ∧
      w.Answers K (.subscribe stream (.client code)) (.subscription teardown) w₁ ∧
      (∃ l, seen w₁.client = seen w.client ++ [.tuple l] ∧
        List.Forall₂ (fun v p => v.eqv (w₁.heap.readPath root p) = true) l s.paths) ∧
      (∀ o q, w₁.heap.get o q = w.heap.get o q) ∧
      w₁.Performs K (sets.map Assignment.command) ws ∧
      ∀ x ∈ (w₁ :: ws).zip ws, x.1.Coheres seen root s.paths x.2 := by
  obtain ⟨hkind, hlen⟩ := kind_observeMany hs
  have hpaths : s.paths ≠ [] := by
    rintro he
    simp [he] at hlen
  obtain ⟨signal, w₁, hans, ⟨t, rfl⟩, ⟨feeds, hc⟩, hget, l, hl, hseen⟩ :=
    (Combined.subscribe_combineLatest hw hjoined hequal hpaths hnames hroot hheld).answers
  have hroot' : root < w₁.heap.objects.size := hc.grows.objects ▸ hroot
  obtain ⟨ws, hws, hcohere⟩ := hc.performs hnames (Nat.le_refl _) hw.pure hw.notes rfl sets hsets hroot hl
  refine ⟨_, _, t, w₁, ws, by simp only [plan, hkind],
    s.observe_observation hlen hafter hselector hscheduler hnames hcaps root a, hans, ⟨l, hseen, ?_⟩, hget, hws, hcohere⟩
  exact hc.forall₂_slots hnames hroot' rfl hl

/-- A call site that observes the city of a person's address together with the address. -/
def CallSite.cityAndAddress : CallSite where
  kind := .observeMany
  owner := ⟨"Person", false⟩
  paths := [.city, .single ⟨"Address", ⟨"Address", false⟩, ⟨"Person", false⟩⟩]
  result := ⟨"tuple", false⟩
  features := default
  location := ⟨"people.rs", 1⟩
  texts := []

theorem CallSite.observeMany_coherent_moving :
    ∃ plan stream teardown w₁ ws, cityAndAddress.plan ⟨[("Person", .full)]⟩ = .ok (.observation plan) ∧
      plan.observe 3 (default : Arguments Empty) = .ok stream ∧
      World.Answers (.recorder [.object 3]) ⟨.homes, []⟩ (.subscribe stream (.client ()))
        (.subscription teardown) w₁ ∧
      (∃ l, w₁.client = [] ++ [.tuple l] ∧
        List.Forall₂ (fun v p => v.eqv (w₁.heap.readPath 3 p) = true) l cityAndAddress.paths) ∧
      (∀ o q, w₁.heap.get o q = (Heap.homes : Heap Empty Unit).get o q) ∧
      w₁.Performs (.recorder [.object 3]) (Assignment.moving.map Assignment.command) ws ∧
      ∀ x ∈ (w₁ :: ws).zip ws, x.1.Coheres id 3 cityAndAddress.paths x.2 :=
  have hs : cityAndAddress.check .observeMany .positional = .ok () := rfl
  observeMany_coherent hs rfl rfl rfl (by decide) (by decide) (World.quiet_homes _ _)
    (by simp [Heap.handlers_homes]) Heap.eqv_homes (by decide) (by decide) Assignment.moving
    (by simp [Assignment.moving, Assignment.Valid, Heap.homes, Value.eqv]) _

end DataBinding
