import Mathlib.Logic.Relation
import DataBinding.Live.Step
/-!
# What stays alive

What is held from outside the heap is alive (`State.alive_of_kept`), and so is every object that its
properties lead to (`State.alive_of_reaches`).
-/

namespace DataBinding

variable {F C S : Type} (K : Client F C S)

namespace Heap
variable (h : Heap F C)

/-- A property of the first object holds the second. -/
def Holds (a b : ObjectId) : Prop := ∃ p, h.get a p = .object b

/-- Properties lead from the first object to the second. -/
def Reaches : ObjectId → ObjectId → Prop := Relation.ReflTransGen h.Holds

/-- The objects that properties hold exist. -/
def Closed : Prop := ∀ a p b, h.get a p = .object b → b < h.objects.size

/-- An object that a property holds is listed there. -/
theorem listed_of_get {a b : ObjectId} {p : String} (hp : h.get a p = .object b) :
    ∃ x, h.objects[a]? = some x ∧ (p, .object b) ∈ x.properties := by
  simp only [Heap.get] at hp
  cases ho : h.objects[a]? with
  | none => simp [ho] at hp
  | some x =>
    simp only [ho, Option.map_some, Option.getD_some, Object.get] at hp
    cases hl : x.properties.lookup p with
    | none => simp [hl] at hp
    | some v =>
      obtain rfl : v = .object b := by simpa [hl] using hp
      obtain ⟨l₁, l₂, hx, -⟩ := List.lookup_eq_some_iff.1 hl
      exact ⟨x, rfl, by simp [hx]⟩

variable {h} in
theorem Closed.congr {h' : Heap F C} (hc : h.Closed) (hs : h'.objects.size = h.objects.size)
    (hg : ∀ o p, h'.get o p = h.get o p) : h'.Closed := by
  intro a p b hb
  rw [hs]
  exact hc a p b (hg a p ▸ hb)

end Heap

/-- The frames or the client hold something, whatever is in the cells of the heap. -/
def Kept (fs : List (Frame F C)) (k : S) (n : Node) : Prop :=
  n ∈ K.refs k ∨ ∃ f ∈ fs, ∀ h : Heap F C, n ∈ f.refs K h

/-- An existing object that something kept leads to. -/
def KeptObject (fs : List (Frame F C)) (k : S) (h : Heap F C) (o : ObjectId) : Prop :=
  ∃ a, Kept K fs k (.object a) ∧ a < h.objects.size ∧ h.Reaches a o

theorem KeptObject.congr {K : Client F C S} {fs fs' : List (Frame F C)} {k : S} {h h' : Heap F C}
    {o : ObjectId} (ho : KeptObject K fs k h o) (hf : fs ⊆ fs')
    (hs : h'.objects.size = h.objects.size) (hg : ∀ o p, h'.get o p = h.get o p) :
    KeptObject K fs' k h' o := by
  obtain ⟨a, ha, hsize, hr⟩ := ho
  refine ⟨a, ha.imp_right fun ⟨f, hf', hn⟩ => ⟨f, hf hf', hn⟩, hs ▸ hsize, ?_⟩
  exact Relation.ReflTransGen.mono (fun a b ⟨p, hp⟩ => ⟨p, (hg a p).trans hp⟩) _ _ hr

theorem KeptObject.lt_size {K : Client F C S} {fs : List (Frame F C)} {k : S} {h : Heap F C}
    {o : ObjectId} (hc : h.Closed) (ho : KeptObject K fs k h o) : o < h.objects.size := by
  obtain ⟨a, -, hsize, hr⟩ := ho
  cases hr with
  | refl => exact hsize
  | tail _ hp => obtain ⟨p, hp⟩ := hp; exact hc _ p o hp

/-- What a property of a kept object holds is kept. -/
theorem KeptObject.get {K : Client F C S} {fs : List (Frame F C)} {k : S} {h : Heap F C}
    {o o' : ObjectId} {p : String} (ho : KeptObject K fs k h o) (hp : h.get o p = .object o') :
    KeptObject K fs k h o' := by
  obtain ⟨a, ha, hsize, hr⟩ := ho
  exact ⟨a, ha, hsize, hr.tail ⟨p, hp⟩⟩

namespace State

/-- What a root or something of the same kind refers to is never swept away. -/
theorem mem_survivors (s : State F C S) (roots : List Node) (P : Node → Prop)
    (hP : ∀ n, P n → n ∈ roots ∨ ∃ m, P m ∧ n ∈ m.refs K s.world.heap) (rounds : Nat) :
    ∀ kept : List Node, (∀ n, P n → n ∈ kept) →
      ∀ n, P n → n ∈ s.survivors K roots rounds kept := by
  induction rounds with
  | zero => intro kept hk n hn; exact hk n hn
  | succ rounds ih =>
    intro kept hk n hn
    simp only [survivors]
    split
    · exact hk n hn
    · refine ih _ (fun m hm => ?_) n hn
      simp only [sweep, List.mem_filter, hk m hm, true_and, decide_eq_true_eq, List.mem_append,
        List.mem_flatMap]
      rcases hP m hm with h | ⟨m', hm', h⟩
      · exact .inl h
      · exact .inr ⟨m', hk m' hm', h⟩

/-- What survives is held by a root or by something that survives. -/
theorem held_of_mem_survivors (s : State F C S) (roots : List Node) (rounds : Nat) :
    ∀ kept : List Node, kept.length ≤ rounds → ∀ n ∈ s.survivors K roots rounds kept, n ∈ kept ∧
      (n ∈ roots ∨ ∃ m ∈ s.survivors K roots rounds kept, n ∈ m.refs K s.world.heap) := by
  induction rounds with
  | zero =>
    intro kept hk n hn
    obtain rfl : kept = [] := List.length_eq_zero_iff.1 (Nat.le_zero.1 hk)
    cases hn
  | succ rounds ih =>
    intro kept hk n hn
    have hsub : (s.sweep K roots kept).Sublist kept := List.filter_sublist
    simp only [survivors] at hn ⊢
    split at hn
    · next heq =>
      refine ⟨hn, ?_⟩
      rw [← hsub.eq_of_length heq] at hn
      simp only [sweep, List.mem_filter, decide_eq_true_eq, List.mem_append, List.mem_flatMap] at hn
      simpa [heq] using hn.2
    · next hne =>
      have hlt : (s.sweep K roots kept).length ≤ rounds := by
        have hle := hsub.length_le
        omega
      obtain ⟨hmem, hheld⟩ := ih _ hlt n hn
      exact ⟨hsub.subset hmem, by simpa [hne] using hheld⟩

/-- Something is alive if a root refers to it, or something of the same kind among all there is does. -/
theorem alive_iff (s : State F C S) (n : Node) : s.alive K n = true ↔ n ∈ s.roots K ∨
    ∃ P : Node → Prop, P n ∧ ∀ m, P m → m ∈ s.nodes ∧
      (m ∈ s.roots K ∨ ∃ m', P m' ∧ m ∈ m'.refs K s.world.heap) := by
  have hclient : n ∈ K.refs s.world.client → n ∈ s.roots K := fun hn => by
    simp only [roots, List.mem_append]
    exact .inl (.inl (.inl hn))
  simp only [alive, Bool.or_eq_true, List.contains_iff_mem]
  constructor
  · rintro ((hn | hn) | hn)
    · exact .inl (hclient hn)
    · exact .inl hn
    · exact .inr ⟨(· ∈ s.survivors K (s.roots K) s.nodes.length s.nodes), hn, fun m hm =>
        held_of_mem_survivors K s _ _ _ (Nat.le_refl _) m hm⟩
  · rintro (hn | ⟨P, hn, hP⟩)
    · exact .inl (.inr hn)
    · exact .inr (mem_survivors K s _ P (fun m hm => (hP m hm).2) _ _ (fun m hm => (hP m hm).1) n hn)

theorem mem_roots_of_kept {c : Control F C} {fs base : List (Frame F C)} {h : Heap F C} {k : S}
    {n : Node} (hb : base ⊆ fs) (hn : Kept K base k n) : n ∈ (⟨c, fs, h, k⟩ : State F C S).roots K := by
  rcases hn with hn | ⟨f, hf, hn⟩
  · simp only [roots, List.mem_append]
    exact .inl (.inl (.inl hn))
  · simp only [roots, List.mem_append, List.mem_flatMap]
    exact .inl (.inr ⟨f, hb hf, hn h⟩)

theorem alive_of_kept {c : Control F C} {fs base : List (Frame F C)} {h : Heap F C} {k : S}
    {n : Node} (hb : base ⊆ fs) (hn : Kept K base k n) :
    (⟨c, fs, h, k⟩ : State F C S).alive K n = true := by
  simp [alive, mem_roots_of_kept K hb hn]

theorem mem_refs_of_holds {h : Heap F C} {a b : ObjectId} (hab : h.Holds a b) :
    Node.object b ∈ (Node.object a).refs K h := by
  obtain ⟨p, hp⟩ := hab
  obtain ⟨x, hx, hm⟩ := h.listed_of_get hp
  simp only [Node.refs, hx, List.mem_append, List.mem_flatMap]
  exact .inl ⟨(p, .object b), hm, by simp [Value.refs]⟩

/-- An object that properties lead to from one that is kept is alive. -/
theorem alive_of_reaches {c : Control F C} {fs base : List (Frame F C)} {h : Heap F C} {k : S}
    {o : ObjectId} (hc : h.Closed) (hb : base ⊆ fs) (ho : KeptObject K base k h o) :
    (⟨c, fs, h, k⟩ : State F C S).alive K (.object o) = true := by
  obtain ⟨a, ha, hsize, hr⟩ := ho
  have hroot := mem_roots_of_kept K (c := c) (h := h) hb ha
  have hlt : ∀ b, h.Reaches a b → b < h.objects.size :=
    fun b hb => KeptObject.lt_size hc ⟨a, ha, hsize, hb⟩
  have hmem := mem_survivors K ⟨c, fs, h, k⟩ (roots K ⟨c, fs, h, k⟩)
    (fun n => ∃ b, n = .object b ∧ h.Reaches a b) ?_
    (nodes ⟨c, fs, h, k⟩).length (nodes ⟨c, fs, h, k⟩) ?_ (.object o) ⟨o, rfl, hr⟩
  · simp [alive, hmem]
  · rintro _ ⟨b, rfl, hb⟩
    cases hb with
    | refl => exact .inl hroot
    | tail hb hp => exact .inr ⟨_, ⟨_, rfl, hb⟩, mem_refs_of_holds K hp⟩
  · rintro _ ⟨b, rfl, hb⟩
    simp only [nodes, List.mem_append, List.mem_map, List.mem_range]
    exact .inl (.inl ⟨b, hlt b hb, rfl⟩)

end State

end DataBinding
