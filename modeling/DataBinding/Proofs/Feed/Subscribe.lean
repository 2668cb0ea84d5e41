import DataBinding.Proofs.Chain.Subscribe
import DataBinding.Proofs.Feed.Latest
import DataBinding.Proofs.Feed.Tell
/-!
# One more feed

Subscribing to a path, with any observer at its end, adds a feed to those there are: its end is given
what is read along the path, once, and all feeds run from then on (`Net.Runs.subscribe`).
-/

namespace DataBinding

variable {F C S : Type}

/-- The feed that a subscription to a path is. -/
def Path.feed (p : Path) (root : ObjectId) (h : Heap F C) (next : Observer F C) : Feed F C :=
  ⟨root, p.root.property, h.nextHandler root, Link.number h.switches.size p.links,
    next.filtered (p.memory .after h)⟩

/-- The feed follows this path from the root. -/
structure Feed.Along (root : ObjectId) (p : Path) (f : Feed F C) : Prop where
  root : f.root = root
  first : f.first = p.root.property
  links : f.links.map Link.segment = p.links

/-- One feed more. -/
def Net.add (n : Net F C) (f : Feed F C) : Net F C := { n with feeds := n.feeds ++ [f] }

/-- A feed that runs has come to what its path reads. -/
theorem Feed.Runs.eq_readPath {f : Feed F C} {G : ObjectId → Prop} {h : Heap F C} {p : Path} {root : ObjectId} {u : Value} (hf : f.Runs G (fun _ _ => False) h u)
    (ha : f.Along root p) (hp : ∀ s ∈ p.segments, s.property ≠ "") : u = h.readPath root p := by
  obtain ⟨v, hv, hfed⟩ := hf.fed
  have hnames : ∀ l ∈ f.links, l.segment.property ≠ "" := fun l hl =>
    hp _ (List.mem_cons_of_mem _ (ha.links ▸ List.mem_map_of_mem hl))
  obtain rfl := hv.resolve_right fun h => h
  rw [hfed.eq_read hnames, ha.links, ha.root, ha.first]
  simp [Heap.readPath, Path.segments, Heap.readFrom, Heap.read, hp p.root List.mem_cons_self]

/-- What is read along a path equals itself. -/
theorem Net.Around.eqv_readPath {n : Net F C} {h : Heap F C} {p : Path} {root : ObjectId} (hh : n.Around h) (hin : n.Within root)
    (hroot : root < h.objects.size) : (h.readPath root p).eqv (h.readPath root p) = true := by
  refine (hh.admits_readFrom (v := .object root) ⟨by simp [Value.eqv], ?_⟩ p.segments).1
  rintro o he
  cases he
  exact ⟨hin, hroot⟩

namespace Path

variable {p : Path} {root : ObjectId} {h : Heap F C} {next : Observer F C}

theorem segments_feed : (p.feed root h next).links.map Link.segment = p.links := Link.map_segment_number

theorem along_feed : (p.feed root h next).Along root p := ⟨rfl, rfl, segments_feed⟩

theorem nodup_feed : ((p.feed root h next).links.map Link.switch).Nodup := Link.nodup_number

@[simp] theorem joins_withCells : (p.withCells .after h).joins = h.joins := by
  have hswitches : ∀ (h : Heap F C) n, (h.withSwitches n).joins = h.joins := fun h n => by
    induction n with
    | zero => rfl
    | succ n ih => exact ih
  unfold withCells
  split <;> exact hswitches ..

/-- A new memory remembers nothing. -/
@[simp] theorem memory_withCells (m : Nat) : (p.withCells .after h).memory m = h.memory m := by
  unfold withCells
  split
  · simp only [Heap.memory, Heap.memories_withSwitches, Heap.newMemory, Array.getElem?_push]
    split
    · next he => simp [he]
    · rfl
  · simp only [Heap.memory, Heap.memories_withSwitches]

/-- The end of a new feed has been given nothing. -/
theorem passed_withCells {Q : Option Value → Prop} (hq : Q none) :
    (p.withCells .after h).Passed (p.memory .after h) Q none := by
  unfold Path.memory
  split
  · next hleaves =>
    have hnone : (p.withCells .after h).memory h.memories.size = none := by
      rw [memory_withCells]
      simp [Heap.memory]
    refine ⟨by simp [memories_withCells, hleaves], ?_⟩
    rw [hnone]
    exact ⟨.none, hq⟩
  · exact hq

/-- The heap once the root of a new feed is watched. -/
def watched (p : Path) (root : ObjectId) (h : Heap F C) (next : Observer F C) : Heap F C :=
  ((p.withCells .after h).addHandler root .after p.root.property false (p.received .after h next)).2

theorem aside_watched : (p.withCells .after h).Aside (p.watched root h next) := Heap.aside_addHandler ..

@[simp] theorem get_watched (o : ObjectId) (q : String) : (p.watched root h next).get o q = h.get o q := by
  simp [watched]

@[simp] theorem supports_watched (o : ObjectId) (t : Timing) :
    (p.watched root h next).supports o t = h.supports o t := by
  simp [watched]

theorem switch_watched (i : Nat) : (p.watched root h next).switch i =
    if h.switches.size ≤ i ∧ i < h.switches.size + p.links.length then ⟨0, none, false⟩ else h.switch i :=
  switch_withCells i

theorem size_watched : (p.watched root h next).objects.size = h.objects.size :=
  (Heap.size_addHandler ..).trans (by rw [objects_withCells])

theorem mem_handlers_watched (hroot : root < h.objects.size) {o : ObjectId} {x : Handler F C} :
    x ∈ (p.watched root h next).handlers o ↔
      x ∈ h.handlers o ∨ o = root ∧ x = (p.feed root h next).rootHandler := by
  rw [watched, Heap.handlers_addHandler _ _ _ _ _ _ _ (by simpa using hroot)]
  simp only [handlers_withCells, nextHandler_withCells]
  split
  · next he => subst he; simp [Feed.rootHandler, feed, received]
  · next he => simp [he]

theorem grows_watched : h.Grows (p.watched root h next) :=
  grows_withCells.trans (Heap.grows_addHandler ..)

theorem numbered_watched (hn : h.Numbered) : (p.watched root h next).Numbered :=
  (numbered_withCells hn).addHandler ..

end Path

namespace Net

open State

variable {n : Net F C} {K : Client F C S} {E : Feed F C → Option Value → World F C S → Prop}
  {B : World F C S → World F C S → Prop} {Z : Feed F C → World F C S → World F C S → Prop} {w : World F C S} {p : Path} {root : ObjectId}
  {next : Observer F C} {base : List (Frame F C)}

/-- A new feed is none of the old ones. -/
theorem Apart.ne_of_mem {f f' : Feed F C} (ha : (n.add f).Apart) (hf' : f' ∈ n.feeds) : f' ≠ f := by
  rintro rfl
  exact (List.pairwise_append.1 ha.handlers).2.2 f' hf' f' (List.mem_singleton.2 rfl) rfl rfl

/-- A new feed is kept apart from those that run. -/
theorem Runs.apart_add {P : ObjectId → Nat → Prop} (ha : n.Apart) (hw : n.Runs E P w)
    (hp : ∀ s ∈ p.segments, s.property ≠ "") (hroot : n.Within root)
    (hforeign : ∀ i, n.Foreign i → i < w.heap.switches.size) (hinner : ∀ i g y, next ≠ .inner i g y)
    (hcode : ∀ x, n.Other x → x.code? ≠ next.code?) : (n.add (p.feed root w.heap next)).Apart := by
  have hmem : ∀ {Q : Feed F C → Prop}, (∀ f ∈ n.feeds, Q f) → Q (p.feed root w.heap next) →
      ∀ f ∈ n.feeds ++ [p.feed root w.heap next], Q f := fun hold hnew f hf =>
    (List.mem_append.1 hf).elim (hold f) fun hf => List.mem_singleton.1 hf ▸ hnew
  refine ⟨hmem ha.roots hroot, hmem ha.named ⟨hp _ List.mem_cons_self, fun l hl => ?_⟩, ?_, ?_,
    hmem ha.tails fun i g y => ?_, hmem ha.codes fun x hx => ?_, hmem ha.foreign fun l hl hf => ?_, ha.inner⟩
  · refine hp _ (List.mem_cons_of_mem _ ?_)
    exact Path.segments_feed ▸ List.mem_map_of_mem hl
  -- the switches of feeds that run are older
  · change (List.flatMap _ (n.feeds ++ [_])).Nodup
    rw [List.flatMap_append, List.nodup_append]
    refine ⟨ha.switches, by simpa using Path.nodup_feed, fun i hi i' hi' he => ?_⟩
    obtain ⟨f, hf, hm⟩ := List.mem_flatMap.1 hi
    obtain ⟨l, hl, rfl⟩ := List.mem_map.1 hm
    obtain ⟨f', hf', hm'⟩ := List.mem_flatMap.1 hi'
    obtain rfl := List.mem_singleton.1 hf'
    obtain ⟨l', hl', rfl⟩ := List.mem_map.1 hm'
    obtain ⟨u, hu, -⟩ := hw.feeds f hf
    obtain ⟨v, -, hfed⟩ := hu.fed
    have hlt := Heap.lt_size_of_not_stopped _ (hfed.running l hl)
    have hle := (Link.mem_number hl').1
    omega
  · refine List.pairwise_append.2 ⟨ha.handlers, List.pairwise_singleton _ _, fun f hf f' hf' hroot he => ?_⟩
    obtain rfl := List.mem_singleton.1 hf'
    obtain ⟨u, hu, -⟩ := hw.feeds f hf
    have hlt := hw.numbered.below _ _ hu.registered
    rw [hroot] at hlt
    exact Nat.ne_of_lt hlt he
  · change next.filtered _ ≠ _
    cases p.memory .after w.heap with
    | none => exact hinner i g y
    | some m => exact nofun
  · change _ ≠ (next.filtered _).code?
    rw [Observer.code?_filtered]
    exact hcode x hx
  · exact absurd (hforeign _ hf) (Nat.not_lt_of_le (Link.mem_number hl).1)

/-- Around the feeds things are as they were, once the root of another one is watched. -/
theorem Around.watched (hh : n.Around w.heap) (hroot : root < w.heap.objects.size) :
    (n.add (p.feed root w.heap next)).Around (p.watched root w.heap next) where
  numbered := Path.numbered_watched hh.numbered
  closed := hh.closed.congr Path.size_watched fun _ _ => Path.get_watched ..
  supports o hlt ho := by
    rw [Path.supports_watched]
    exact hh.supports o (Path.size_watched ▸ hlt) ho
  within o q b ho hb := hh.within o q b ho (Path.get_watched o q ▸ hb)
  equal o q ho := by
    rw [Path.get_watched]
    exact hh.equal o q ho
  covers o x hx := by
    obtain hx | ⟨rfl, rfl⟩ := (Path.mem_handlers_watched hroot).1 hx
    · exact (hh.covers o x hx).imp_left fun ⟨f, hf, howns⟩ => ⟨f, List.mem_append_left _ hf, howns⟩
    · exact .inl ⟨_, List.mem_append_right _ (List.mem_singleton.2 rfl), .inl ⟨rfl, rfl⟩⟩

/-- The links of a new feed are ready to be followed. -/
theorem Around.ready (hh : n.Around w.heap) (ha : (n.add (p.feed root w.heap next)).Apart)
    (hroot : root < w.heap.objects.size) :
    (p.watched root w.heap next).Ready (p.feed root w.heap next).links := by
  have hnew : p.feed root w.heap next ∈ (n.add (p.feed root w.heap next)).feeds :=
    List.mem_append_right _ (List.mem_singleton.2 rfl)
  refine ⟨Link.nodup_number, fun l hl => ?_, fun l hl o x hx g y he => ?_⟩
  · rw [Path.switch_watched, if_pos (Link.mem_number hl)]
  -- nothing is registered for these switches
  · refine absurd he ?_
    obtain ⟨f, hf, howns⟩ | hother := (hh.watched hroot).covers o x hx
    · intro he
      obtain ⟨l', hl', hs⟩ := ha.switch_of_owns hf howns he
      obtain rfl := ha.eq_of_switch hf hnew hl' hl hs.symm
      obtain hx | ⟨rfl, rfl⟩ := (Path.mem_handlers_watched hroot).1 hx
      · obtain ⟨f, hf, howns'⟩ | hother := hh.covers o x hx
        · exact ha.ne_of_mem hf (ha.eq_of_owns hnew (List.mem_append_left _ hf) howns howns')
        · exact ha.not_other hnew howns hother
      · exact Observer.linked_ne_inner (ha.tails _ hnew) _ _ _ _ _ he
    · exact fun he => ha.foreign _ hnew l hl (ha.inner _ _ _ (he ▸ hother))

/-- Other feeds run on, once the root of a new one is watched. -/
theorem Apart.feed_watched (ha : (n.add (p.feed root w.heap next)).Apart)
    (hroot : root < w.heap.objects.size) {f : Feed F C} {u : Value} {P : ObjectId → Nat → Prop} (hu : f.Runs n.Within P w.heap u) :
    f.Runs n.Within P (p.watched root w.heap next) u := by
  have hnew : p.feed root w.heap next ∈ (n.add (p.feed root w.heap next)).feeds :=
    List.mem_append_right _ (List.mem_singleton.2 rfl)
  refine hu.transfer (fun l hl => ?_) (fun o x hx => ?_) fun o x hx =>
    ⟨(Path.mem_handlers_watched hroot).2 (.inl hx.1), .inl (Path.get_watched ..), id⟩
  · obtain ⟨v, -, hfed⟩ := hu.fed
    have hlt := Heap.lt_size_of_not_stopped _ (hfed.running l hl)
    rw [Path.switch_watched, if_neg (by omega)]
  · refine ((Path.mem_handlers_watched hroot).1 hx).imp_right ?_
    rintro ⟨rfl, rfl⟩ l - g y
    exact Observer.linked_ne_inner (ha.tails _ hnew) _ _ _ _ _

section Added

variable {f : Feed F C} (hf : f = p.feed root w.heap next)
include hf

theorem Around.admits_watched (haround : (n.add f).Around (p.watched root w.heap next)) (ha : (n.add f).Apart) :
    (n.add f).Admits (p.watched root w.heap next) (w.heap.get root p.root.property) := by
  have hroot : n.Within root := by
    have hroot := ha.roots f (List.mem_append_right _ (List.mem_singleton.2 rfl))
    rwa [hf] at hroot
  have hadmits := haround.admits_get hroot p.root.property
  rwa [Path.get_watched] at hadmits

/-- The links of a new feed lead to what is read along its path. -/
theorem Apart.readFrom_watched (ha : (n.add f).Apart) :
    (p.watched root w.heap next).readFrom (w.heap.get root p.root.property) (f.links.map Link.segment) =
      w.heap.readPath root p := by
  have hname := (ha.named f (List.mem_append_right _ (List.mem_singleton.2 rfl))).1
  subst hf
  rw [Path.segments_feed, Heap.readFrom_congr fun _ _ => Path.get_watched ..]
  have hfirst : p.root.property ≠ "" := hname
  simp [Heap.readPath, Path.segments, Heap.readFrom, Heap.read, hfirst]

/-- The links of a new feed are followed, and its end takes what is read along the path. -/
theorem Around.follow (haround : (n.add f).Around (p.watched root w.heap next)) (ha : (n.add f).Apart)
    (ht : (n.add f).Takes K E B Z) (hready : (p.watched root w.heap next).Ready f.links)
    (hempty : E f none ⟨p.withCells .after w.heap, w.client⟩)
    (hheld : KeptObject K base w.client (p.watched root w.heap next) root) :
    Completes K base
      ⟨.run (.deliver (f.tail.linked .after f.links) (w.heap.get root p.root.property)), base,
        p.watched root w.heap next, w.client⟩ fun _ w' =>
      Delivered .after f.tail n.Within f.links (w.heap.get root p.root.property)
        ((n.add f).Took E (Z f) f (w.heap.readPath root p)) ⟨p.watched root w.heap next, w.client⟩ w' := by
  have hnew : f ∈ (n.add f).feeds := List.mem_append_right _ (List.mem_singleton.2 rfl)
  have hadmits := haround.admits_watched hf ha
  have hread := ha.readFrom_watched hf
  refine completes_linked (w := ⟨p.watched root w.heap next, w.client⟩) (fun _ _ h => h.bypass)
    (ha.named f hnew).2 hready haround.numbered haround.closed haround.within
    (fun b hb => ⟨(hadmits.2 b hb).1, hheld.get ((Path.get_watched ..).trans hb)⟩) fun base' h₁ ha₁ hturns => ?_
  rw [hread]
  have hB : B ⟨p.withCells .after w.heap, w.client⟩ ⟨h₁, w.client⟩ :=
    ht.aside _ _ (Path.aside_watched.trans ha₁) rfl
  refine ht.takes f hnew base' _ none ⟨h₁, w.client⟩ ?_ (fun o x hx => ?_) (ht.keeps f hnew _ _ _ hB hempty)
  · rw [← hread]
    have hr := haround.admits_readFrom hadmits (f.links.map Link.segment)
    exact ⟨hr.1, fun o ho => (hr.2 o ho).imp_right fun hlt => ha₁.size ▸ hlt⟩
  · exact (hturns.made o x hx).elim (haround.covers o x) fun hx => .inl ⟨f, hnew, .inr hx⟩

/-- All feeds run, once the links of a new one have been followed. -/
theorem Runs.followed (hw : n.Runs E (fun _ _ => False) w) (ha : (n.add f).Apart) (ht : (n.add f).Takes K E B Z)
    (hroot : root < w.heap.objects.size)
    (hold : ∀ f ∈ n.feeds, ∀ u, E f u w → E f u ⟨p.withCells .after w.heap, w.client⟩) {w' : World F C S}
    (hd : Delivered .after f.tail n.Within f.links (w.heap.get root p.root.property)
      ((n.add f).Took E (Z f) f (w.heap.readPath root p)) ⟨p.watched root w.heap next, w.client⟩ w') :
    (n.add f).Runs E (fun _ _ => False) w' := by
  have hnew : f ∈ (n.add f).feeds := List.mem_append_right _ (List.mem_singleton.2 rfl)
  have haround : (n.add f).Around (p.watched root w.heap next) := hf ▸ hw.toAround.watched hroot
  obtain ⟨h₁, w₂, ha₁, htook, ha₂, hclient⟩ := hd.done
  have hB : B ⟨p.withCells .after w.heap, w.client⟩ ⟨p.watched root w.heap next, w.client⟩ :=
    ht.aside _ _ Path.aside_watched rfl
  have hB₁ : B ⟨p.watched root w.heap next, w.client⟩ ⟨h₁, w.client⟩ := ht.aside _ _ ha₁ rfl
  have hB₂ : B w₂ w' := ht.aside _ _ ha₂ hclient
  refine ⟨haround.congr hd.turns (ha₂.closed (htook.closed (ha₁.closed haround.closed))) hd.bypass
    fun o x hx => .inl ⟨f, hnew, .inr hx⟩, fun f' hf' => ?_⟩
  obtain hf' | hf' := List.mem_append.1 hf'
  -- an old feed: nothing of its own has been touched
  · obtain ⟨u, hu, he⟩ := hw.feeds f' hf'
    have hmem : f' ∈ (n.add f).feeds := List.mem_append_left _ hf'
    have hne : f' ≠ f := ha.ne_of_mem hf'
    have hstart : E f' (some u) ⟨h₁, w.client⟩ :=
      ht.keeps f' hmem _ _ _ hB₁ (ht.keeps f' hmem _ _ _ hB (hold f' hf' _ he))
    exact ⟨u, ha.beside hnew hmem hne (List.suffix_refl _) hd ((hf ▸ ha).feed_watched hroot hu) fun _ _ _ => id,
      ht.keeps f' hmem _ _ _ hB₂ (htook.others f' hmem hne _ hstart)⟩
  -- the new one
  · obtain rfl := List.mem_singleton.1 hf'
    refine ⟨_, ⟨hd.turns.kept _ _ ?_ fun i g y he => absurd he
      (Observer.linked_ne_inner (ha.tails f' hnew) _ _ _ _ _), ⟨_, .inl ?_, hd.fed⟩, hd.tight⟩, ?_⟩
    · exact (Path.mem_handlers_watched hroot).2 (.inr ⟨by rw [hf]; rfl, by rw [hf]⟩)
    · rw [hd.bypass _ _ (ha.roots f' hnew), Path.get_watched, hf]
      rfl
    · rw [ha.readFrom_watched hf]
      exact ht.keeps f' hnew _ _ _ hB₂ htook.held

end Added

/-- Subscribing to a path: the end of the feed is given what is read along the path, and all feeds run. -/
theorem Runs.subscribe (ha : (n.add (p.feed root w.heap next)).Apart)
    (ht : (n.add (p.feed root w.heap next)).Takes K E B Z) (hw : n.Runs E (fun _ _ => False) w)
    (hroot : root < w.heap.objects.size) (hheld : Node.object root ∈ K.refs w.client)
    (hold : ∀ f ∈ n.feeds, ∀ u, E f u w → E f u ⟨p.withCells .after w.heap, w.client⟩)
    (hempty : E (p.feed root w.heap next) none ⟨p.withCells .after w.heap, w.client⟩) :
    Completes K base ⟨.run (.subscribe (p.stream .after root) next), base, w⟩ fun signal w' =>
      (∃ t, signal = .subscription t) ∧ w.heap.Grows w'.heap ∧
      (n.add (p.feed root w.heap next)).Runs E (fun _ _ => False) w' ∧
      (∀ o q, n.Within o → w'.heap.get o q = w.heap.get o q) ∧
      ∃ h₁ w₂, (p.withCells .after w.heap).Aside h₁ ∧ (n.add (p.feed root w.heap next)).Took E
        (Z (p.feed root w.heap next)) (p.feed root w.heap next) (w.heap.readPath root p) ⟨h₁, w.client⟩ w₂ ∧ w₂.heap.Aside w'.heap ∧
        w'.client = w₂.client := by
  obtain ⟨f, hf⟩ : ∃ f, f = p.feed root w.heap next := ⟨_, rfl⟩
  have hready := hw.toAround.ready ha hroot
  rw [← hf] at ha ht hempty hready ⊢
  have haround : (n.add f).Around (p.watched root w.heap next) := hf ▸ hw.toAround.watched hroot
  have hname : p.root.property ≠ "" := by
    have hname := (ha.named f (List.mem_append_right _ (List.mem_singleton.2 rfl))).1
    rwa [hf] at hname
  have hobserver : p.received .after w.heap next = f.tail.linked .after f.links := by rw [hf]; rfl
  obtain ⟨l, hl, -⟩ := Path.leads_watch (K := K) base w.heap .after next hname hheld
  change Leads K base _ l ⟨_, _, p.watched root w.heap next, w.client⟩ at hl
  rw [hobserver] at hl
  refine .leads hl (.call_above (List.suffix_append _ _) (List.suffix_cons _ _)
    (R := fun signal w' => (∃ t, signal = .subscription t) ∧ Delivered .after f.tail n.Within f.links
      (w.heap.get root p.root.property) ((n.add f).Took E (Z f) f (w.heap.readPath root p))
      ⟨p.watched root w.heap next, w.client⟩ w') ?_ ?_)
  -- the links are followed while the frame of the subscription holds the root
  · refine .call (List.suffix_refl _) (haround.follow hf ha ht hready hempty ?_) fun _ w' hd =>
      .back (.pass ⟨⟨_, rfl⟩, hd⟩)
    refine ⟨root, .inr ⟨_, List.mem_cons_self, fun h => ?_⟩, ?_, .refl⟩
    · simp [Frame.refs, Frame.refs.owner]
    · exact Path.size_watched.symm ▸ hroot
  -- and then the subscription is handed back through the switches
  · rintro _ w' ⟨⟨t, rfl⟩, hd⟩
    obtain ⟨l', t', hl', -⟩ := leads_opened K base (Link.number w.heap.switches.size p.links) t w'
    obtain ⟨h₁, w₂, ha₁, htook, ha₂, hclient⟩ := hd.done
    exact .leads hl' (.pass ⟨⟨t', rfl⟩, Path.grows_watched.trans hd.turns.toGrows,
      hw.followed hf ha ht hroot hold hd, fun o q ho => (hd.bypass o q ho).trans (Path.get_watched ..),
      h₁, w₂, Path.aside_watched.trans ha₁, htook, ha₂, hclient⟩)

end Net

end DataBinding
