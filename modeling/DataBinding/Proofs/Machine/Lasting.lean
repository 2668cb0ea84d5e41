import DataBinding.Proofs.Heap.Tapped
/-!
# What stays alive while somebody subscribes

As long as no root and no reference is lost, nothing dies (`State.alive_mono`). Where handlers and cells are added,
everything goes on to hold what it held (`Heap.Tapped.refs_observer` and its family), so an object that is alive for
an observer and the frames below it stays alive when the observer moves on (`Observer.Lives.tapped`); and so is
every object that its properties lead to (`Observer.Lives.reaches`).
-/

namespace DataBinding

variable {F C S : Type} {K : Client F C S}

/-! ## No reference is lost -/

section Subsets
variable {α β : Type} {l l' : List α} {f f' : α → List β}

theorem append_subset_append {a a' b b' : List α} (ha : a ⊆ a') (hb : b ⊆ b') : a ++ b ⊆ a' ++ b' :=
  List.append_subset.2 ⟨List.subset_append_of_subset_left b' ha, List.subset_append_of_subset_right a' hb⟩

theorem flatMap_subset_flatMap (hl : l ⊆ l') (hf : ∀ a ∈ l, f a ⊆ f' a) : l.flatMap f ⊆ l'.flatMap f' := by
  intro b hb
  obtain ⟨a, ha, hba⟩ := List.mem_flatMap.1 hb
  exact List.mem_flatMap.2 ⟨a, hl ha, hf a ha hba⟩

end Subsets

namespace State
variable {s s' : State F C S}

theorem alive_mono (hr : s.roots K ⊆ s'.roots K) (hn : s.nodes ⊆ s'.nodes)
    (hm : ∀ m : Node, m.refs K s.world.heap ⊆ m.refs K s'.world.heap) {n : Node} (h : s.alive K n = true) :
    s'.alive K n = true := by
  rw [alive_iff] at h ⊢
  refine h.imp (hr ·) fun ⟨P, hP, hall⟩ => ⟨P, hP, fun m hmP => ?_⟩
  obtain ⟨hnodes, hheld⟩ := hall m hmP
  exact ⟨hn hnodes, hheld.imp (hr ·) fun ⟨m', hm', href⟩ => ⟨m', hm', hm m' href⟩⟩

/-- What the control holds besides is of no matter. -/
theorem alive_of_control {c c' : Control F C} {fs : List (Frame F C)} {w : World F C S} {n : Node}
    (hc : c.refs K w.heap ⊆ c'.refs K w.heap) (h : (⟨c, fs, w⟩ : State F C S).alive K n = true) :
    (⟨c', fs, w⟩ : State F C S).alive K n = true := by
  have hr : (⟨c, fs, w⟩ : State F C S).roots K ⊆ (⟨c', fs, w⟩ : State F C S).roots K :=
    append_subset_append (append_subset_append (append_subset_append (List.Subset.refl _) hc)
      (List.Subset.refl _)) (List.Subset.refl _)
  have hn : (⟨c, fs, w⟩ : State F C S).nodes ⊆ (⟨c', fs, w⟩ : State F C S).nodes := List.Subset.refl _
  exact alive_mono hr hn (fun _ => List.Subset.refl _) h

/-- What a live object holds in a property is alive. -/
theorem alive_of_holds {a b : ObjectId} (ha : s.alive K (.object a) = true) (hab : s.world.heap.Holds a b)
    (hb : b < s.world.heap.objects.size) : s.alive K (.object b) = true := by
  have hnode : ∀ o < s.world.heap.objects.size, Node.object o ∈ s.nodes := fun o ho => by
    simp only [nodes, List.mem_append, List.mem_map, List.mem_range]
    exact .inl (.inl ⟨o, ho, rfl⟩)
  have hsize : a < s.world.heap.objects.size := by
    obtain ⟨p, hp⟩ := hab
    obtain ⟨x, hx, -⟩ := s.world.heap.listed_of_get hp
    exact (Array.getElem?_eq_some_iff.1 hx).1
  have href := mem_refs_of_holds K hab
  rw [alive_iff] at ha ⊢
  right
  obtain hroot | ⟨P, hP, hall⟩ := ha
  · refine ⟨fun m => m = .object a ∨ m = .object b, .inr rfl, ?_⟩
    rintro m (rfl | rfl)
    · exact ⟨hnode a hsize, .inl hroot⟩
    · exact ⟨hnode b hb, .inr ⟨_, .inl rfl, href⟩⟩
  · refine ⟨fun m => P m ∨ m = .object b, .inr rfl, ?_⟩
    rintro m (hm | rfl)
    · obtain ⟨hmem, hheld⟩ := hall m hm
      exact ⟨hmem, hheld.imp_right (Exists.imp fun _ => And.imp_left .inl)⟩
    · exact ⟨hnode b hb, .inr ⟨_, .inl hP, href⟩⟩

end State

/-! ## Where somebody subscribes -/

namespace Heap.Tapped

variable {taps : List (ObjectId × String)} {h h' : Heap F C} (ht : h.Tapped taps h')
include ht

theorem refs_observer (y : Observer F C) : y.refs K h ⊆ y.refs K h' := by
  induction y with
  | client | write => exact List.Subset.refl _
  | skip _ _ ih | outer _ _ _ ih | inner _ _ _ ih | relocate _ _ _ ih => exact ih
  | map _ _ ih | filter _ _ ih => exact append_subset_append (List.Subset.refl _) ih
  | distinct m next ih =>
    refine append_subset_append ?_ ih
    by_cases hm : m < h.memories.size
    · rw [ht.memory m hm]
      exact List.Subset.refl _
    · have hnone : h.memory m = none := by
        rw [Heap.memory, Array.getElem?_eq_none (Nat.le_of_not_lt hm), Option.getD_none]
      rw [hnone]
      exact List.nil_subset _
  | slot j _ next ih =>
    refine append_subset_append ?_ ih
    rw [join, join, ht.joins]
    exact List.Subset.refl _

theorem refs_task (t : Task F C) : t.refs K h ⊆ t.refs K h' := by
  cases t with
  | deliver _ y v => exact append_subset_append (ht.refs_observer y) (List.Subset.refl _)
  | client c => exact List.Subset.refl _

theorem refs_members (l : List (Stream F × Observer F C)) :
    (l.flatMap fun (x, y) => x.refs K.functionRefs ++ y.refs K h) ⊆
      l.flatMap fun (x, y) => x.refs K.functionRefs ++ y.refs K h' :=
  flatMap_subset_flatMap (List.Subset.refl _) fun e _ =>
    append_subset_append (List.Subset.refl _) (ht.refs_observer e.2)

theorem refs_frame (f : Frame F C) : f.refs K h ⊆ f.refs K h' := by
  cases f with
  | subscribed y | passing y => exact append_subset_append (ht.refs_observer y) (List.Subset.refl _)
  | notifying x rest o v =>
    exact append_subset_append (List.Subset.refl _)
      (flatMap_subset_flatMap (List.Subset.refl _) fun r _ => ht.refs_observer r.observer)
  | publishing y rest i v =>
    exact append_subset_append (List.Subset.refl _)
      (flatMap_subset_flatMap (List.Subset.refl _) fun z _ => ht.refs_observer z)
  | gathering y ts rest => exact append_subset_append (ht.refs_observer y) (ht.refs_members rest)
  | switching i g inner next => exact append_subset_append (List.Subset.refl _) (ht.refs_observer next)
  | draining i n t =>
    cases t with
    | deliver _ y _ => exact ht.refs_observer y
    | client => exact List.Subset.refl _
  | _ => exact List.Subset.refl _

theorem refs_node (m : Node) : m.refs K h ⊆ m.refs K h' := by
  cases m with
  | object o =>
    obtain ⟨new, -, he⟩ := ht.objects o
    simp only [Node.refs, he]
    cases h.objects[o]? with
    | none => exact List.nil_subset _
    | some x =>
      exact append_subset_append (List.Subset.refl _)
        (flatMap_subset_flatMap (List.subset_append_left ..) fun r _ => ht.refs_observer r.observer)
  | subject i =>
    simp only [Node.refs, observers, ht.subjects]
    exact flatMap_subset_flatMap (List.Subset.refl _) fun y _ => ht.refs_observer y
  | stream i =>
    simp only [Node.refs, stream, ht.streams]
    exact List.Subset.refl _

end Heap.Tapped

/-! ## The observer moves on -/

/-- The object is alive where something is about to be done for the observer, above these frames. -/
def Observer.Lives (K : Client F C S) (k : S) (h : Heap F C) (y : Observer F C) (fs : List (Frame F C))
    (o : ObjectId) : Prop :=
  (⟨.run (.subscribe .empty y), fs, h, k⟩ : State F C S).alive K (.object o) = true

namespace Observer.Lives

variable {taps : List (ObjectId × String)} {h h' : Heap F C} {k : S} {y y' : Observer F C}
  {fs fs' : List (Frame F C)} {o : ObjectId}

/-- Whatever the control holds besides the observer. -/
theorem alive_control {c : Control F C} (hc : y.refs K h ⊆ c.refs K h) (hl : y.Lives K k h fs o) :
    (⟨c, fs, h, k⟩ : State F C S).alive K (.object o) = true :=
  State.alive_of_control (c := .run (.subscribe .empty y)) hc hl

theorem of_alive {x : Stream F} (hx : x.refs K.functionRefs = [])
    (hl : (⟨.run (.subscribe x y), fs, h, k⟩ : State F C S).alive K (.object o) = true) : y.Lives K k h fs o := by
  refine State.alive_of_control (append_subset_append ?_ (List.Subset.refl _)) hl
  rw [hx]
  exact List.nil_subset _

theorem of_kept (ho : Node.object o ∈ K.refs k) : y.Lives K k h fs o :=
  State.alive_of_kept K (List.Subset.refl _) (.inl ho)

/-- Somebody subscribes, and the observer and the frames are passed on. -/
theorem tapped (ht : h.Tapped taps h') (hy : y.refs K h' ⊆ y'.refs K h') (hf : fs ⊆ fs')
    (hl : y.Lives K k h fs o) : y'.Lives K k h' fs' o := by
  refine State.alive_mono ?_ ?_ ht.refs_node hl
  · refine append_subset_append (append_subset_append (append_subset_append (List.Subset.refl _) ?_) ?_) ?_
    · exact List.Subset.trans (ht.refs_observer y) hy
    · exact flatMap_subset_flatMap hf fun f _ => ht.refs_frame f
    · rw [ht.schedulers]
      refine flatMap_subset_flatMap (List.Subset.refl _) fun x _ => ?_
      cases x with
      | queue l => exact flatMap_subset_flatMap (List.Subset.refl _) fun t _ => ht.refs_task t
      | immediate => exact List.Subset.refl _
  · simp only [State.nodes, ht.agrees.size, ht.subjects, ht.streams]
    exact List.Subset.refl _

/-- What properties lead to from a live object is alive. -/
theorem reaches {a : ObjectId} (hc : h.Closed) (hl : y.Lives K k h fs o) (ha : h.Reaches o a) :
    y.Lives K k h fs a := by
  induction ha with
  | refl => exact hl
  | tail _ hab ih =>
    obtain ⟨p, hp⟩ := hab
    exact State.alive_of_holds ih ⟨p, hp⟩ (hc _ p _ hp)

end Observer.Lives

end DataBinding
