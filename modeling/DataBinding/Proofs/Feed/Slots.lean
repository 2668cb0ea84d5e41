import DataBinding.Proofs.Feed.Latest
import DataBinding.Proofs.Feed.Strangers
import DataBinding.Proofs.Feed.Subscribe
/-!
# Feeds that fill the slots of a join

Each feed fills one slot of a join with its values (`Net.Slotted`), and the slot holds what the feed was
given last (`Feed.Shows`). When a slot is filled and none is empty, the values of all slots are delivered
as one tuple, so the last tuple is what the slots hold (`World.Shown`).
-/

namespace DataBinding

variable {F C S : Type}

namespace Heap

variable {h : Heap F C} {j k : Nat} {u : Option Value}

/-- A join that has a slot is there. -/
theorem lt_size_of_slot (hu : (h.join j)[k]? = some u) : j < h.joins.size := by
  by_contra hj
  simp [Heap.join, Array.getElem?_eq_none (Nat.le_of_not_lt hj)] at hu

/-- All slots are full, or one is empty. -/
theorem slots_cases (l : List (Option Value)) :
    (∃ vs : List Value, l.mapM id = some vs ∧ l = vs.map some) ∨ l.mapM id = none ∧ none ∈ l := by
  induction l with
  | nil => exact .inl ⟨[], rfl, rfl⟩
  | cons x rest ih =>
    obtain _ | v := x
    · exact .inr ⟨rfl, List.mem_cons_self⟩
    · obtain ⟨vs, hvs, hl⟩ | ⟨hnone, hmem⟩ := ih
      · exact .inl ⟨v :: vs, by simp [hvs], by rw [hl]; rfl⟩
      · exact .inr ⟨by simp [hnone], List.mem_cons_of_mem _ hmem⟩

end Heap

/-- A feed fills this slot of a join, but not with values equal to the one before where that is
remembered. -/
def Feed.Fills (f : Feed F C) (j : Nat) (code : C) (k : Nat) (memory : Option Nat) : Prop :=
  f.tail = (Observer.slot j k (.client code)).filtered memory

/-- The slot of a feed holds what the feed was given last. Its cell is newer than these. -/
def Feed.Shows (c : Heap F C) (j : Nat) (code : C) (f : Feed F C) (last : Option Value) (w : World F C S) :
    Prop :=
  ∃ k memory, f.Fills j code k memory ∧ (∀ m, memory = some m → c.memories.size ≤ m) ∧
    w.heap.Passed memory (fun u => (w.heap.join j)[k]? = some u) last

/-- The feeds fill the slots of a join in order, and each remembers on its own. -/
structure Net.Slotted (n : Net F C) (j : Nat) (code : C) : Prop where
  slots : ∀ (k : Nat) f, n.feeds[k]? = some f → ∃ memory, f.Fills j code k memory
  memories : n.feeds.Pairwise fun f f' => ∀ m x x', f.tail = .distinct m x → f'.tail ≠ .distinct m x'

/-- A feed has filled its slot, or has left it. If no slot is empty then, the values are delivered. -/
def World.Filled (j : Nat) (code : C) (seen : S → List Value) (f : Feed F C) (w w' : World F C S) : Prop :=
  w' = w ∨ ∃ k memory v, f.Fills j code k memory ∧ w'.heap.join j = (w.heap.join j).set k (some v) ∧
    ((none ∈ w'.heap.join j ∧ w'.client = w.client) ∨
      ∃ l, w'.heap.join j = l.map some ∧ seen w'.client = seen w.client ++ [.tuple l])

/-- If no slot is empty, none becomes so. The last tuple delivered is what the slots hold; if none was
delivered, they hold what they did. -/
def World.Shown (j : Nat) (seen : S → List Value) (w w' : World F C S) : Prop :=
  ∀ l : List Value, w.heap.join j = l.map some → ∃ l' vs : List Value, l'.length = l.length ∧
    w'.heap.join j = l'.map some ∧ seen w'.client = seen w.client ++ vs ∧
      ((vs = [] ∧ l' = l) ∨ ∃ vs', vs = vs' ++ [.tuple l'])

variable {c : Heap F C} {j k : Nat} {code : C} {seen : S → List Value} {f f' : Feed F C}
  {memory : Option Nat} {w w' w'' : World F C S} {n : Net F C} {K : Client F C S}

namespace Feed

theorem Fills.unique {k' : Nat} {memory' : Option Nat} (h : f.Fills j code k memory)
    (h' : f.Fills j code k' memory') : k' = k ∧ memory' = memory := by
  have he := h.symm.trans h'
  cases memory <;> cases memory' <;> simp_all [Observer.filtered]

/-- Where the join and the newer cells stay, a slot holds what it did. -/
theorem Shows.congr {last : Option Value} (hs : f.Shows c j code last w)
    (hm : w.heap.memories.size ≤ w'.heap.memories.size)
    (hmemory : ∀ m, c.memories.size ≤ m → m < w.heap.memories.size → w'.heap.memory m = w.heap.memory m)
    (hjoin : w'.heap.join j = w.heap.join j) : f.Shows c j code last w' := by
  obtain ⟨k, memory, hfills, hnew, hp⟩ := hs
  exact ⟨k, memory, hfills, hnew, hp.congr hm (fun m he hlt => hmemory m (hnew m he) hlt) fun u hu => hjoin ▸ hu⟩

/-- The slot of a feed holds a value that equals the last one. -/
theorem Shows.slot {v : Value} (hs : f.Shows c j code (some v) w) (hf : f.Fills j code k memory)
    (hv : v.eqv v = true) : ∃ u : Value, (w.heap.join j)[k]? = some (some u) ∧ u.eqv v = true := by
  obtain ⟨k', memory', hf', -, hp⟩ := hs
  obtain ⟨rfl, rfl⟩ := hf'.unique hf
  obtain ⟨u, hu, rfl | hrel⟩ := hp.held
  · exact ⟨v, hu, hv⟩
  · cases hrel with
    | some he => exact ⟨_, hu, he⟩

end Feed

namespace World.Shown

theorem trans (a : w.Shown j seen w') (b : w'.Shown j seen w'') : w.Shown j seen w'' := by
  intro l hl
  obtain ⟨l₁, vs₁, hlen₁, hl₁, hs₁, h₁⟩ := a l hl
  obtain ⟨l₂, vs₂, hlen₂, hl₂, hs₂, h₂⟩ := b l₁ hl₁
  refine ⟨l₂, vs₁ ++ vs₂, hlen₂.trans hlen₁, hl₂, by rw [hs₂, hs₁, List.append_assoc], ?_⟩
  obtain ⟨rfl, rfl⟩ | ⟨vs', rfl⟩ := h₂
  · simpa using h₁
  · exact .inr ⟨vs₁ ++ vs', (List.append_assoc ..).symm⟩

theorem of_eq (hj : w'.heap.join j = w.heap.join j) (hs : seen w'.client = seen w.client) :
    w.Shown j seen w' :=
  fun l hl => ⟨l, [], rfl, hj.trans hl, by simp [hs], .inl ⟨rfl, rfl⟩⟩

theorem of_elsewhere (hc : c.joins.size ≤ j) (he : w.Elsewhere c seen w') : w.Shown j seen w' :=
  of_eq (he.join j hc) he.noted

/-- When one of the slots is filled and none is empty, their values are delivered. -/
theorem of_filled (hf : w.Filled j code seen f w') : w.Shown j seen w' := by
  obtain rfl | ⟨k, memory, v, -, hjoin, hfull⟩ := hf
  · exact of_eq rfl rfl
  intro l hl
  have hset : w'.heap.join j = (l.set k v).map some := by rw [hjoin, hl, List.map_set]
  obtain ⟨hnone, -⟩ | ⟨l', hl', hseen⟩ := hfull
  · rw [hset] at hnone
    obtain ⟨x, -, hx⟩ := List.mem_map.1 hnone
    cases hx
  · obtain rfl : l' = l.set k v := List.map_injective_iff.2 (fun _ _ => Option.some.inj) (hl'.symm.trans hset)
    exact ⟨_, [.tuple (l.set k v)], by simp, hset, hseen, .inr ⟨[], rfl⟩⟩

end World.Shown

/-- A feed whose slot was empty, and that has a value now, has filled it. -/
theorem World.Filled.of_empty {v : Value} (hfilled : w.Filled j code seen f w') (hf : f.Fills j code k memory)
    (hempty : (w.heap.join j)[k]? = some none) (hs : f.Shows c j code (some v) w') (hv : v.eqv v = true) :
    ∃ u, w'.heap.join j = (w.heap.join j).set k (some u) ∧
      ((none ∈ w'.heap.join j ∧ w'.client = w.client) ∨
        ∃ l, w'.heap.join j = l.map some ∧ seen w'.client = seen w.client ++ [.tuple l]) := by
  obtain rfl | ⟨k', memory', u, hf', hset, hfull⟩ := hfilled
  · obtain ⟨u, hu, -⟩ := hs.slot hf hv
    rw [hempty] at hu
    cases hu
  · obtain ⟨rfl, -⟩ := hf.unique hf'
    exact ⟨u, hset, hfull⟩

namespace Net.Slotted

variable (hn : n.Slotted j code)
include hn

/-- Different feeds fill different slots and remember in different cells. -/
theorem ne_of_ne (hf : f ∈ n.feeds) (hf' : f' ∈ n.feeds) (hne : f' ≠ f) {k' : Nat} {memory' : Option Nat}
    (h : f.Fills j code k memory) (h' : f'.Fills j code k' memory') :
    k' ≠ k ∧ ∀ m, memory = some m → memory' ≠ some m := by
  -- slots are filled in the order of the feeds
  obtain ⟨i, hi⟩ := List.getElem?_of_mem hf
  obtain ⟨i', hi'⟩ := List.getElem?_of_mem hf'
  obtain ⟨_, hi₁⟩ := hn.slots i f hi
  obtain ⟨_, hi₂⟩ := hn.slots i' f' hi'
  obtain ⟨rfl, rfl⟩ := h.unique hi₁
  obtain ⟨rfl, rfl⟩ := h'.unique hi₂
  refine ⟨?_, ?_⟩
  · rintro rfl
    exact hne (Option.some.inj (hi'.symm.trans hi))
  · rintro m rfl rfl
    have : Std.Symm fun f f' : Feed F C => ∀ m x x', f.tail = .distinct m x → f'.tail ≠ .distinct m x' :=
      ⟨fun _ _ hd m x x' hx hx' => hd m x' x hx' hx⟩
    exact hn.memories.forall hf hf' (Ne.symm hne) m _ _ h h'

/-- A value that is remembered and put in the slot of a feed is held there. Other slots hold what they did. -/
theorem took (hf : f ∈ n.feeds) (hfills : f.Fills j code k memory) (hnew : ∀ m, memory = some m → c.memories.size ≤ m)
    {last : Option Value} (hp : w.heap.Passed memory (fun u => (w.heap.join j)[k]? = some u) last) {v : Value}
    (hv : v.eqv v = true) {h' : Heap F C}
    (hh' : h' = (w.heap.remembering memory v).setJoin j ((w.heap.join j).set k (some v))) {client : S}
    (hfilled : h'.join j = (w.heap.join j).set k (some v) → w.Filled j code seen f ⟨h', client⟩) :
    n.Took (Feed.Shows c j code) (World.Filled j code seen f) f v w ⟨h', client⟩ := by
  obtain ⟨u₀, hu₀, -⟩ := hp.held
  have hjoin : h'.join j = (w.heap.join j).set k (some v) := by
    rw [hh', Heap.join_setJoin, if_pos ⟨rfl, by simpa using Heap.lt_size_of_slot hu₀⟩]
  have hmemory : ∀ m, h'.memory m = (w.heap.remembering memory v).memory m := fun m => by
    rw [hh']
    rfl
  have hsize : h'.memories.size = w.heap.memories.size := by
    rw [hh']
    exact Heap.size_remembering
  have hbypass : w.heap.Bypasses n.Within h' := by
    rw [hh']
    exact Heap.bypasses_remembering.trans (.of_objects rfl rfl (Nat.le_refl _))
  refine ⟨hbypass, fun hc => hc.congr hbypass.size fun o p => ?_, ?_, ?_, hfilled hjoin⟩
  · rw [hh']
    exact Heap.get_remembering o p
  · refine ⟨k, memory, hfills, hnew, hp.remember hv (Nat.le_of_eq hsize.symm) (fun m _ => hmemory m) ?_⟩
    simp [hjoin, (List.getElem?_eq_some_iff.1 hu₀).1]
  -- the slot and the cell of another feed are others
  · rintro f' hf' hne u ⟨k', memory', hfills', hnew', hp'⟩
    obtain ⟨hkne, hmne⟩ := hn.ne_of_ne hf hf' hne hfills hfills'
    refine ⟨k', memory', hfills', hnew', hp'.congr (Nat.le_of_eq hsize.symm) (fun m hm _ => ?_) fun u hu => ?_⟩
    · rw [hmemory, Heap.memory_remembering fun he => hmne m he hm]
    · rw [hjoin, List.getElem?_set_ne (Ne.symm hkne)]
      exact hu

open State

/-- What is delivered at the end of a feed fills its slot, or is left out. -/
theorem takes (hj : c.joins.size ≤ j) (hnotes : K.Notes seen code fun v => [v]) :
    n.Takes K (Feed.Shows c j code) (World.Elsewhere c seen) (World.Filled j code seen) where
  aside _ _ := .of_aside
  keeps f hf u w w' hb he := he.congr hb.memories (fun m hm _ => hb.memory m hm) (hb.join j hj)
  takes f hf base v last w hv _ he := by
    obtain ⟨k, memory, hfills, hnew, hp⟩ := he
    have hfills' : f.tail = _ := hfills
    rw [hfills']
    refine completes_filtered (fun m u hm hu heq => ?_) (.step id ?_)
    -- an equal value is left out
    · subst hm
      exact ⟨.refl _, id, ⟨k, _, hfills, hnew, hp.leave hu heq⟩, fun _ _ _ _ h => h, .inl rfl⟩
    -- and another one is put in the slot
    obtain ⟨h', hh'⟩ : ∃ h', h' = (w.heap.remembering memory v).setJoin j ((w.heap.join j).set k (some v)) :=
      ⟨_, rfl⟩
    have hsame : (w.heap.remembering memory v).join j = w.heap.join j := by
      simp only [Heap.join, Heap.joins_remembering]
    simp only [State.step, stepCommand, stepDeliver, State.goOn, World.withHeap, hsame, ← hh']
    obtain ⟨values, hvalues, hall⟩ | ⟨hnone, hmem⟩ := Heap.slots_cases ((w.heap.join j).set k (some v))
    -- all are full, and the code is given their values
    · rw [hvalues]
      obtain ⟨⟨_, client⟩, hr, rfl, hseen⟩ := hnotes (.tuple values) ⟨h', w.client⟩
      exact .step id (.resume hr (hn.took hf hfills hnew hp hv.1 hh' fun hjoin =>
        .inr ⟨k, memory, v, hfills, hjoin, .inr ⟨values, hjoin.trans hall, hseen⟩⟩))
    · rw [hnone]
      exact .pass (hn.took hf hfills hnew hp hv.1 hh' fun hjoin =>
        .inr ⟨k, memory, v, hfills, hjoin, .inl ⟨hjoin ▸ hmem, rfl⟩⟩)

omit hn in
/-- One more feed fills the next slot. -/
theorem add {p : Path} {root : ObjectId} (hn : n.Slotted j code)
    (hm : ∀ f ∈ n.feeds, ∃ last, f.Shows c j code last w) :
    (n.add (p.feed root w.heap (.slot j n.feeds.length (.client code)))).Slotted j code where
  slots k f hf := by
    change (n.feeds ++ [_])[k]? = some f at hf
    rw [List.getElem?_append] at hf
    split at hf
    · exact hn.slots k f hf
    · next hk =>
      obtain ⟨hk', rfl⟩ := List.getElem?_eq_some_iff.1 hf
      obtain rfl : k = n.feeds.length := by
        simp only [List.length_singleton] at hk'
        omega
      simpa using ⟨_, rfl⟩
  memories := by
    refine List.pairwise_append.2 ⟨hn.memories, List.pairwise_singleton _ _, fun f hf f' hf' m x x' hx hx' => ?_⟩
    obtain rfl := List.mem_singleton.1 hf'
    obtain ⟨last, k, memory, hfills, -, hp⟩ := hm f hf
    -- the cell of the new feed is new
    obtain rfl : memory = some m := by
      have hx := hfills.symm.trans hx
      cases memory <;> simp_all [Observer.filtered]
    have hlt := hp.1
    have hnew : m = w.heap.memories.size := by
      simp only [Path.feed, Path.memory, Observer.filtered] at hx'
      split at hx' <;> simp_all
    omega

end Net.Slotted

end DataBinding
