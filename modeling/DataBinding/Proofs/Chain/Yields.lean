import DataBinding.Proofs.Chain.Subscribe
import DataBinding.Proofs.Machine.Lasting
/-!
# Streams that yield one value at once

Subscribing to a stream may have its observer told a value before the subscription is handed back. The
pipeline of a path tells exactly one, which is what is read along the path: whether it is watched or read
once, whatever its segments are named, and whether or not its links are there (`Path.yields_pipeline`). On the
way values are only passed on between operators (`State.PassesOn`), and nothing is registered with but the
properties that are read. Whatever the observer does with the value, the subscription is handed back once it is
done (`Frame.Opening.handsBack`).
-/

namespace DataBinding

variable {F C S : Type} {K : Client F C S} {k : S} {g h h' : Heap F C} {root : ObjectId}
  {taps : List (ObjectId × String)} {v : Value} {x : Stream F} {fs gs : List (Frame F C)}

namespace State

/-! ## Passing on -/

/-- The step passes something on between operators, or takes up or gives back a subscription. -/
def Passes (s : State F C S) : Prop :=
  match s.control with
  | .pass _ | .run (.subscribe ..) | .run (.undo _) => True
  | .run (.deliver (.outer ..) _) | .run (.deliver (.inner ..) _) | .run (.deliver (.distinct ..) _) => True
  | _ => False

/-- Above these frames the state comes to another one by passing things on. -/
def PassesOn (K : Client F C S) (base : List (Frame F C)) (s e : State F C S) : Prop :=
  ∃ l, Leads K base s l e ∧ ∀ x ∈ l, x.Passes

namespace PassesOn

variable {base : List (Frame F C)} {s s' e : State F C S}

theorem refl (s : State F C S) : PassesOn K base s s := ⟨[], .here, nofun⟩

theorem trans (h : PassesOn K base s s') (h' : PassesOn K base s' e) : PassesOn K base s e := by
  obtain ⟨l, hl, hp⟩ := h
  obtain ⟨l', hl', hp'⟩ := h'
  exact ⟨l ++ l', hl.trans hl', List.forall_mem_append.2 ⟨hp, hp'⟩⟩

theorem go (hs : ¬ s.control.IsAnswer) (hp : s.Passes) (h : PassesOn K base (s.step K) e) : PassesOn K base s e := by
  obtain ⟨l, hl, hps⟩ := h
  exact ⟨s :: l, .go hs hl, List.forall_mem_cons.2 ⟨hp, hps⟩⟩

/-- A frame goes on with a signal. -/
theorem back {f : Frame F C} {signal : Signal C} {w : World F C S} (hb : base <:+ fs)
    (h : PassesOn K base (stepFrame ⟨.pass signal, fs, w⟩ signal f) e) :
    PassesOn K base ⟨.pass signal, f :: fs, w⟩ e := by
  obtain ⟨l, hl, hp⟩ := h
  refine ⟨_ :: l, .step (fun _ hbase => ?_) hl, List.forall_mem_cons.2 ⟨trivial, hp⟩⟩
  have hle := hb.length_le
  rw [← hbase] at hle
  exact Nat.not_succ_le_self _ hle

theorem beneath {base' : List (Frame F C)} (h : PassesOn K base' s e) (hb : base <:+ base') (hs : base' <:+ s.frames) :
    PassesOn K base s e := by
  obtain ⟨l, hl, hp⟩ := h
  exact ⟨l, hl.beneath hb hs, hp⟩

end PassesOn

/-- A new switch takes its first inner stream. -/
theorem passesOn_outer {i : Nat} (hi : i < h.switches.size) (hn : h.switch i = ⟨0, none, false⟩)
    (select : Selection) (y : Observer F C) (v : Value) (fs : List (Frame F C)) :
    PassesOn K fs ⟨.run (.deliver (.outer i select y) v), fs, h, k⟩
      ⟨.run (.subscribe (select.inner h v) (.inner i 1 y)), .entering i 1 (select.inner h v) :: fs,
        h.setSwitch i ⟨1, none, false⟩, k⟩ := by
  have hset : (h.setSwitch i ⟨1, none, false⟩).switch i = ⟨1, none, false⟩ := by
    rw [Heap.switch_setSwitch, if_pos ⟨rfl, hi⟩]
  refine .go id trivial ?_
  simp only [step, stepCommand, stepDeliver, stepSwitch, under_mk, hn]
  refine .go id trivial (.back (List.suffix_refl _) ?_)
  simp only [stepFrame, World.withHeap, Nat.zero_add, hset, Bool.false_eq_true, if_false]
  exact .refl _

end State

open State

/-! ## Handing a subscription back -/

/-- There is nothing to undo but a registration. -/
def Teardown.Plain (t : Teardown C) : Prop := t = .nothing ∨ ∃ o id, t = .handler o id

/-- While the first value of a path is delivered, these frames wait for its subscriptions, of the links first. -/
inductive Frame.Opening : List (Frame F C) → Prop
  | subscribed (y : Observer F C) {t : Teardown C} : t.Plain → Opening [.subscribed y t]
  | opening {gs : List (Frame F C)} (i : Nat) : Opening gs → Opening (gs ++ [.opening i])
  | entering {gs : List (Frame F C)} (i n : Nat) (inner : Stream F) (y : Observer F C) {t : Teardown C} :
      t.Plain → Opening gs → Opening (.subscribed y t :: .entering i n inner :: gs)

/-- Whatever has happened meanwhile, the frames hand a subscription back. -/
theorem Frame.Opening.handsBack (hg : Opening gs) (signal : Signal C) (fs : List (Frame F C)) (h : Heap F C) :
    ∃ t h', h.Agrees h' ∧
      PassesOn K fs ⟨.pass signal, gs ++ fs, h, k⟩ ⟨.pass (.subscription t), fs, h', k⟩ := by
  induction hg generalizing signal fs h with
  | @subscribed y t _ => exact ⟨t, h, .refl h, .back (List.suffix_refl _) (.refl _)⟩
  | @opening gs i _ ih =>
    obtain ⟨t, h', ha, hp⟩ := ih signal (.opening i :: fs) h
    refine ⟨.switch i t, h', ha, ?_⟩
    rw [List.append_assoc]
    exact (hp.beneath (List.suffix_cons ..) (List.suffix_append ..)).trans (.back (List.suffix_refl _) (.refl _))
  | @entering gs i n inner y t ht _ ih =>
    have hsuffix : fs <:+ gs ++ fs := List.suffix_append ..
    by_cases hn : (h.switch i).generation = n
    · subst hn
      obtain ⟨u, h', ha, hp⟩ := ih .done fs (h.setSwitch i { h.switch i with current := some t })
      have hset : h.Agrees (h.setSwitch i { h.switch i with current := some t }) := .of_objects rfl
      refine ⟨u, h', hset.trans ha, .back (hsuffix.trans (List.suffix_cons ..)) (.back hsuffix ?_)⟩
      simp only [stepFrame, goOn, World.withHeap, if_true]
      exact hp
    · -- the switch has gone on to another inner stream, and this subscription is undone
      obtain ⟨h₁, ha₁, hu⟩ : ∃ h₁, h.Agrees h₁ ∧ PassesOn K fs ⟨.run (.undo t), gs ++ fs, h, k⟩
          ⟨.pass .done, gs ++ fs, h₁, k⟩ := by
        obtain rfl | ⟨o, id', rfl⟩ := ht
        · exact ⟨h, .refl h, .go id trivial (.refl _)⟩
        · exact ⟨h.removeHandler o id', ⟨Heap.size_removeHandler .., fun _ _ => Heap.get_removeHandler ..⟩,
            .go id trivial (.refl _)⟩
      obtain ⟨u, h', ha, hp⟩ := ih .done fs h₁
      refine ⟨u, h', ha₁.trans ha, .back (hsuffix.trans (List.suffix_cons ..)) (.back hsuffix ?_)⟩
      simp only [stepFrame, goOn, World.withHeap, hn, if_false]
      exact hu.trans hp

/-! ## One value -/

/-- Wherever the same is read as from this heap and the root is alive, subscribing to the stream leads to the
delivery of this value, with frames that hand the subscription back. These properties are registered with. -/
def Stream.Yields (K : Client F C S) (k : S) (g : Heap F C) (root : ObjectId) (x : Stream F)
    (taps : List (ObjectId × String)) (v : Value) : Prop :=
  ∀ (h : Heap F C) (y : Observer F C) (fs : List (Frame F C)), g.Agrees h → y.Lives K k h fs root →
    ∃ h' gs, h.Tapped taps h' ∧ Frame.Opening gs ∧
      PassesOn K fs ⟨.run (.subscribe x y), fs, h, k⟩ ⟨.run (.deliver y v), gs ++ fs, h', k⟩

/-- A link of a path is watched on its parent; without a parent there is a single null. -/
theorem passesOn_link (s : Segment) (t : Timing) (y : Observer F C) (fs : List (Frame F C))
    (hv : ∀ o, v = .object o → y.Lives K k h fs o) :
    ∃ u h', Teardown.Plain u ∧ h.Tapped (h.readsFrom v [s]) h' ∧
      PassesOn K fs ⟨.run (.subscribe (Selection.inner h v (.link s.property t)) y), fs, h, k⟩
        ⟨.run (.deliver y (h.readFrom v [s])), .subscribed y u :: fs, h', k⟩ := by
  cases v with
  | object o =>
    have halive : (⟨.run (.subscribe (.watch o s.property t) y), fs, h, k⟩ : State F C S).alive K (.object o) = true :=
      (hv o rfl).alive_control (List.Subset.refl _)
    refine ⟨.handler o (h.nextHandler o), _, .inr ⟨o, _, rfl⟩,
      h.tapped_addHandler o t s.property s.property.isEmpty y, .go id trivial ?_⟩
    rw [Selection.inner, step_watch halive]
    have hread : (h.addHandler o t s.property s.property.isEmpty y).2.read o s.property =
        h.readFrom (.object o) [s] := by
      simp only [Heap.read, Heap.get_addHandler, Heap.readFrom]
    rw [hread]
    exact .refl _
  | _ => exact ⟨.nothing, h, .inl rfl, .refl h, .go id trivial (.refl _)⟩

/-- What is read from objects that properties lead to. -/
theorem Heap.reaches_readFrom (hv : ∀ o, v = .object o → h.Reaches root o) (l : List Segment) :
    ∀ o, h.readFrom v l = .object o → h.Reaches root o :=
  readFrom_keeps (P := fun v => ∀ o, v = .object o → h.Reaches root o) nofun
    (fun a _ ha _ ho => (ha a rfl).tail ⟨_, ho⟩) hv l

/-- What is read along segments belongs to objects that properties lead to. -/
theorem Heap.reaches_of_mem_readsFrom (hv : ∀ o, v = .object o → h.Reaches root o) {l : List Segment}
    {e : ObjectId × String} (he : e ∈ h.readsFrom v l) : h.Reaches root e.1 := by
  induction l generalizing v with
  | nil => cases he
  | cons s rest ih =>
    cases v with
    | object a =>
      rcases List.mem_cons.1 he with rfl | he
      · exact hv a rfl
      · exact ih (Heap.reaches_readFrom hv [s]) he
    | _ => cases he

theorem Heap.Agrees.reaches (ha : h.Agrees h') (o o' : ObjectId) : h'.Reaches o o' ↔ h.Reaches o o' := by
  have hholds : h'.Holds = h.Holds := by
    funext a b
    simp only [Heap.Holds, ha.get]
  rw [Heap.Reaches, Heap.Reaches, hholds]

namespace Stream.Yields

/-- The value of a path that is read once. -/
theorem constant (p : Path) : (Stream.constant root p).Yields K k g root [] (g.readPath root p) := by
  intro h y fs hg hl
  refine ⟨h, [.subscribed y .nothing], .refl h, .subscribed y (.inl rfl), .go id trivial ?_⟩
  have halive : (⟨.run (.subscribe (.constant root p) y), fs, h, k⟩ : State F C S).alive K (.object root) = true :=
    hl.alive_control (List.Subset.refl _)
  simp only [step, stepCommand, stepSubscribe, halive, if_true, Heap.readPath, hg.readFrom]
  exact .refl _

theorem watch (s : Segment) (t : Timing) : (Stream.watch root s.property t).Yields K k g root
    (g.readsFrom (.object root) [s]) (g.readFrom (.object root) [s]) := by
  intro h y fs hg hl
  obtain ⟨u, h', hu, ht, hp⟩ := passesOn_link (v := .object root) s t y fs (by rintro _ ⟨⟩; exact hl)
  rw [hg.readsFrom] at ht
  rw [hg.readFrom] at hp
  exact ⟨h', [.subscribed y u], ht, .subscribed y hu, hp⟩

/-- A link is followed from the value that a stream yields. -/
theorem follow (hx : x.Yields K k g root taps v) (hc : g.Closed) (s : Segment) (t : Timing)
    (hv : ∀ o, v = .object o → g.Reaches root o) :
    (x.follow s t).Yields K k g root (taps ++ g.readsFrom v [s]) (g.readFrom v [s]) := by
  intro h y fs hg hl
  have houter : y.refs K h.newSwitch.2 ⊆
      (Observer.outer h.switches.size (.link s.property t) y).refs K h.newSwitch.2 := List.Subset.refl _
  obtain ⟨h₁, gs, ht₁, hb, hp₁⟩ := hx h.newSwitch.2 (.outer h.switches.size (.link s.property t) y)
    (.opening h.switches.size :: fs) (hg.trans (.of_objects rfl))
    (hl.tapped h.tapped_newSwitch houter (List.subset_cons_self ..))
  have hnew : h.switches.size < h.newSwitch.2.switches.size := by simp [Heap.newSwitch]
  have hi : h₁.switch h.switches.size = ⟨0, none, false⟩ := by
    rw [ht₁.switch _ hnew, Heap.switch_newSwitch, if_pos rfl]
  have hlt : h.switches.size < h₁.switches.size := Nat.lt_of_lt_of_le hnew ht₁.switches
  -- the value makes the new switch take its first inner stream
  have ht₂ : h.Tapped taps (h₁.setSwitch h.switches.size ⟨1, none, false⟩) :=
    (h.tapped_newSwitch.trans ht₁).setSwitch (Nat.le_refl _) _
  have ha₂ := hg.trans ht₂.agrees
  have hfs : fs ⊆ .entering h.switches.size 1 (Selection.inner h₁ v (.link s.property t)) ::
      (gs ++ .opening h.switches.size :: fs) := fun f hf =>
    List.mem_cons_of_mem _ (List.mem_append_right _ (List.mem_cons_of_mem _ hf))
  have hinner : y.refs K (h₁.setSwitch h.switches.size ⟨1, none, false⟩) ⊆
      (Observer.inner h.switches.size 1 y).refs K (h₁.setSwitch h.switches.size ⟨1, none, false⟩) := List.Subset.refl _
  have hlives := hl.tapped ht₂ hinner hfs
  obtain ⟨u, h₃, hu, ht₃, hp₃⟩ := passesOn_link s t (.inner h.switches.size 1 y) _ fun o ho =>
    hlives.reaches (ha₂.closed hc) ((ha₂.reaches ..).2 (hv o ho))
  rw [ha₂.readsFrom] at ht₃
  rw [ha₂.readFrom] at hp₃
  have hcell : h₃.switch h.switches.size = ⟨1, none, false⟩ := by
    rw [ht₃.switch _ (by simpa using hlt), Heap.switch_setSwitch, if_pos ⟨rfl, hlt⟩]
  have hsuffix : fs <:+ gs ++ .opening h.switches.size :: fs :=
    (List.suffix_cons ..).trans (List.suffix_append ..)
  refine ⟨h₃, _, ht₂.trans ht₃, .entering h.switches.size 1 (Selection.inner h₁ v (.link s.property t))
    (.inner h.switches.size 1 y) hu (hb.opening h.switches.size), .go id trivial ?_⟩
  simp only [List.cons_append, List.append_assoc, List.nil_append]
  refine (hp₁.beneath (List.suffix_cons ..) (List.suffix_refl _)).trans
    (((passesOn_outer hlt hi _ y v _).beneath hsuffix (List.suffix_refl _)).trans
      ((hp₃.beneath (hsuffix.trans (List.suffix_cons ..)) (List.suffix_refl _)).trans (.go id trivial ?_)))
  rw [step_inner (by rw [hcell]) (by rw [hcell])]
  exact .refl _

/-- The first value is passed on by what leaves out repeated ones. -/
theorem distinct (hx : x.Yields K k g root taps v) : (Stream.distinct x).Yields K k g root taps v := by
  intro h y fs hg hl
  have hy : y.refs K h.newMemory.2 ⊆ (Observer.distinct h.memories.size y).refs K h.newMemory.2 :=
    List.subset_append_right ..
  obtain ⟨h₁, gs, ht₁, hb, hp₁⟩ := hx h.newMemory.2 (.distinct h.memories.size y) fs
    (hg.trans (.of_objects rfl)) (hl.tapped h.tapped_newMemory hy (List.Subset.refl _))
  have hm : h₁.memory h.memories.size = none := by
    rw [ht₁.memory _ (by simp [Heap.newMemory])]
    simp [Heap.memory, Heap.newMemory]
  refine ⟨h₁.setMemory h.memories.size v, gs, (h.tapped_newMemory.trans ht₁).setMemory (Nat.le_refl _) v,
    hb, .go id trivial (hp₁.trans (.go id trivial ?_))⟩
  simp only [step, stepCommand, stepDeliver, hm, Option.any_none, Bool.false_eq_true, if_false]
  exact .refl _

/-- Links are followed one after the other. -/
theorem followed (hx : x.Yields K k g root taps v) (links : List Segment) (hc : g.Closed) (t : Timing)
    (hv : ∀ o, v = .object o → g.Reaches root o) :
    (links.foldl (fun y s => y.follow s t) x).Yields K k g root (taps ++ g.readsFrom v links)
      (g.readFrom v links) := by
  induction links generalizing x taps v with
  | nil => simpa [Heap.readsFrom, Heap.readFrom] using hx
  | cons s rest ih =>
    have hrec := ih (hx.follow hc s t hv) (Heap.reaches_readFrom hv [s])
    rw [List.append_assoc, ← Heap.readsFrom_cons, ← Heap.readFrom_cons] at hrec
    exact hrec

end Stream.Yields

/-- The pipeline of a path yields what is read along the path, and registers with nothing else. -/
theorem Path.yields_pipeline {p : Path} {t : Timing} {caps : Capabilities} {a : Arguments F} (hc : g.Closed)
    (hx : (p.pipeline t caps).observe root a = .ok x) :
    x.Yields K k g root (g.readsFrom (.object root) p.segments) (g.readPath root p) := by
  have hroot : ∀ o, g.readFrom (.object root) [p.root] = .object o → g.Reaches root o :=
    Heap.reaches_readFrom (by rintro _ ⟨⟩; exact .refl) [p.root]
  have hlinks := (Stream.Yields.watch (K := K) (k := k) (g := g) p.root t).followed p.links hc t hroot
  rw [← Heap.readsFrom_cons, ← Heap.readFrom_cons] at hlinks
  unfold pipeline at hx
  split at hx
  · cases hx
    intro h y fs hg hl
    obtain ⟨h', gs, ht, hrest⟩ := Stream.Yields.constant p h y fs hg hl
    exact ⟨h', gs, ht.mono (List.nil_subset _), hrest⟩
  split at hx
  · next hempty =>
    cases hx
    have hnil := List.isEmpty_iff.1 hempty
    rw [Heap.readPath, segments, hnil]
    rw [hnil] at hlinks
    exact hlinks
  · unfold Staged.andThenIf at hx
    split at hx
    · cases hx
      exact hlinks.distinct
    · cases hx
      exact hlinks

end DataBinding
