import Mathlib.Data.List.Nodup
import DataBinding.Proofs.Chain.Live
/-!
# Where a chain is registered

The places where a subscription is registered are read off the heap by its code (`Heap.places`), and
the places where a path would have it registered by following the path (`Heap.owners`).

`Chain.Live.places_perm_iff`: the two are the same exactly when each registration was told last what
its property holds, as far as the next owner goes. `Chain.Follows.leaf`: then the path is read where
the chain ends.
-/

namespace DataBinding

variable {F C : Type}

/-- A place where a segment is watched. -/
structure Place where
  object : ObjectId
  timing : Timing
  property : String
  /-- How many segments come after it. -/
  after : Nat
deriving DecidableEq

/-- The place of a handler. -/
def Handler.place (x : Handler F C) (o : ObjectId) : Place :=
  ⟨o, x.timing, x.property, x.observer.depth⟩

namespace Heap

/-- The handlers that lead to this code, each with its object. -/
def enrolled [DecidableEq C] (h : Heap F C) (code : C) : List (ObjectId × Handler F C) :=
  (List.range h.objects.size).flatMap fun o =>
    ((h.handlers o).filter (·.observer.code? = some code)).map (o, ·)

/-- The places where handlers that lead to this code are registered. -/
def places [DecidableEq C] (h : Heap F C) (code : C) : List Place :=
  (h.enrolled code).map fun r => r.2.place r.1

/-- The places along a path: each segment where its parent is an object. -/
def owners (h : Heap F C) (t : Timing) : Value → List Segment → List Place
  | .object o, s :: rest => ⟨o, t, s.property, rest.length⟩ :: h.owners t (h.get o s.property) rest
  | _, _ => []

variable {h : Heap F C}

theorem mem_enrolled [DecidableEq C] {code : C} {o : ObjectId} {x : Handler F C} :
    (o, x) ∈ h.enrolled code ↔ x ∈ h.handlers o ∧ x.observer.code? = some code := by
  simp only [enrolled, List.mem_flatMap, List.mem_range, List.mem_map, List.mem_filter,
    decide_eq_true_eq, Prod.mk.injEq]
  constructor
  · rintro ⟨_, -, _, hx, rfl, rfl⟩
    exact hx
  · exact fun hx => ⟨o, h.lt_size_of_mem o hx.1, x, hx, rfl, rfl⟩

theorem Numbered.nodup_enrolled [DecidableEq C] (hn : h.Numbered) (code : C) :
    (h.enrolled code).Nodup := by
  refine List.nodup_flatMap.2 ⟨fun o _ => ?_, ?_⟩
  · refine List.Nodup.map (fun _ _ he => (Prod.mk.inj he).2) (List.Nodup.filter _ ?_)
    exact (hn.sorted o).imp fun hlt he => Nat.ne_of_lt hlt (congrArg Handler.id he)
  · refine List.nodup_range.imp fun hne r hr hr' => hne ?_
    obtain ⟨_, -, rfl⟩ := List.mem_map.1 hr
    obtain ⟨_, -, he⟩ := List.mem_map.1 hr'
    exact (Prod.mk.inj he).1.symm

theorem owners_of_object?_eq {t : Timing} {v w : Value} (hv : w.object? = v.object?)
    (l : List Segment) : h.owners t w l = h.owners t v l := by
  cases v <;> cases w <;> simp_all [Value.object?, owners]

theorem owners_of_none {t : Timing} {v : Value} (hv : v.object? = none) (l : List Segment) :
    h.owners t v l = [] := by
  cases v <;> simp_all [Value.object?, owners]

theorem after_lt_of_mem_owners {t : Timing} {l : List Segment} {v : Value} {p : Place}
    (hp : p ∈ h.owners t v l) : p.after < l.length := by
  induction l generalizing v with
  | nil => cases v <;> simp [owners] at hp
  | cons s rest ih =>
    cases v with
    | object o =>
      rcases List.mem_cons.1 hp with rfl | hp
      · exact Nat.lt_succ_self _
      · exact Nat.lt_succ_of_lt (ih hp)
    | _ => simp [owners] at hp

theorem pairwise_owners (t : Timing) (v : Value) (l : List Segment) :
    (h.owners t v l).Pairwise fun p q => q.after < p.after := by
  induction l generalizing v with
  | nil => cases v <;> simp [owners]
  | cons s rest ih =>
    cases v with
    | object o => exact List.pairwise_cons.2 ⟨fun _ hp => after_lt_of_mem_owners hp, ih _⟩
    | _ => simp [owners]

end Heap

namespace Registration

variable (r : Registration F C)

def place : Place := r.handler.place r.owner

/-- What the property holds now. -/
def held (h : Heap F C) : Value := h.get r.owner r.handler.property

/-- The registration was told of the object that its property holds, or that it holds none. -/
def UpToDate (h : Heap F C) : Prop := r.told.object? = (r.held h).object?

end Registration

namespace Chain

variable {c : Chain C} {h : Heap F C} {todo : List Link} {regs : List (Registration F C)} {v : Value}

/-! ## Registrations that are up to date -/

section Owners
variable (hu : ∀ r ∈ regs, 0 < r.handler.observer.depth → r.UpToDate h)
include hu

/-- Registrations that are up to date are on the owners along the path. -/
theorem Follows.owners (hf : c.Follows h todo regs v) :
    h.owners c.timing (.object c.root) c.segments =
      (regs.map Registration.place).reverse ++ h.owners c.timing v (todo.map Link.segment) := by
  induction hf with
  | root v =>
    have hv : h.owners c.timing (h.get c.root c.first.property) (c.links.map Link.segment) =
        h.owners c.timing v (c.links.map Link.segment) := by
      cases hl : c.links with
      | nil => cases v <;> cases h.get c.root c.first.property <;> rfl
      | cons => exact Heap.owners_of_object?_eq (hu _ (List.mem_singleton_self _) (by simp [hl])).symm _
    simp only [segments, Heap.owners, hv, List.map_cons, List.map_nil, List.reverse_cons,
      List.reverse_nil, List.nil_append, List.singleton_append]
    simp [Registration.place, Handler.place, rootHandler]
  | @link l todo regs o id v hf _ ih =>
    have hv : h.owners c.timing (h.get o l.segment.property) (todo.map Link.segment) =
        h.owners c.timing v (todo.map Link.segment) := by
      cases htodo : todo with
      | nil => cases v <;> cases h.get o l.segment.property <;> rfl
      | cons =>
        exact Heap.owners_of_object?_eq (hu _ List.mem_cons_self (by simp [htodo])).symm _
    rw [ih fun r hr => hu r (List.mem_cons_of_mem _ hr)]
    simp only [List.map_cons, Heap.owners, hv, List.reverse_cons, List.append_assoc]
    simp [Registration.place, Handler.place, linkHandler, Observer.depth]
  | absent hf hv ih =>
    rw [ih hu, Heap.owners_of_none hv, Heap.owners_of_none rfl]

/-- What the path reads is what the chain ends with: null, or what the last property holds. -/
theorem Follows.readFrom (hf : c.Follows h todo regs v) (hp : ∀ s ∈ c.segments, s.property ≠ "") :
    ∃ w, h.readFrom (.object c.root) c.segments = h.readFrom w (todo.map Link.segment) ∧
      ((v = .null ∧ w = .null ∧ ∀ r ∈ regs, todo.length < r.handler.observer.depth) ∨
        ∃ r ∈ regs, r.handler.observer.depth = todo.length ∧ v = r.told ∧ w = r.held h) := by
  have hread : ∀ o s, s ∈ c.segments → h.read o s.property = h.get o s.property := fun o s hs => by
    simp [Heap.read, hp s hs]
  induction hf with
  | root v =>
    refine ⟨h.get c.root c.first.property, ?_, .inr ⟨_, List.mem_singleton_self _, by simp, rfl, rfl⟩⟩
    simp only [segments, Heap.readFrom, hread c.root c.first List.mem_cons_self]
  | @link l todo regs o id v hf _ ih =>
    obtain ⟨w, hw, hcases⟩ := ih fun r hr => hu r (List.mem_cons_of_mem _ hr)
    obtain rfl : w = .object o := by
      obtain ⟨hv, -⟩ | ⟨r, hr, hd, ht, rfl⟩ := hcases
      · cases hv
      · have := hu r (List.mem_cons_of_mem _ hr) (by simp [hd])
        rw [Registration.UpToDate, ← ht] at this
        exact Value.object?_eq_some.1 this.symm
    refine ⟨h.get o l.segment.property, ?_, .inr ⟨_, List.mem_cons_self, by simp, rfl, rfl⟩⟩
    have hl : l.segment ∈ c.segments :=
      List.mem_cons_of_mem _ (List.mem_map_of_mem (mem_links_of_suffix hf.suffix))
    rw [hw, List.map_cons, Heap.readFrom, hread o _ hl]
  | @absent l todo regs v hf hv ih =>
    obtain ⟨w, hw, hcases⟩ := ih hu
    refine ⟨.null, ?_, .inl ⟨rfl, rfl, hf.depth⟩⟩
    have hnone : w.object? = none := by
      obtain ⟨-, rfl, -⟩ | ⟨r, hr, hd, rfl, rfl⟩ := hcases
      · rfl
      · rw [← hu r hr (by simp [hd]), hv]
    rw [hw, List.map_cons, Heap.readFrom_of_none hnone, Heap.readFrom_null]

/-- The chain that is followed to its end reads null, or what the last property holds. -/
theorem Follows.leaf (hf : c.Follows h [] regs v) (hp : ∀ s ∈ c.segments, s.property ≠ "") :
    (v = .null ∧ h.readFrom (.object c.root) c.segments = .null ∧
        ∀ r ∈ regs, 0 < r.handler.observer.depth) ∨
      ∃ r ∈ regs, r.handler.observer.depth = 0 ∧ v = r.told ∧
        h.readFrom (.object c.root) c.segments = r.held h := by
  obtain ⟨w, hw, hcases⟩ := hf.readFrom hu hp
  obtain ⟨rfl, rfl, hd⟩ | ⟨r, hr, hd, rfl, rfl⟩ := hcases
  · exact .inl ⟨rfl, hw, hd⟩
  · exact .inr ⟨r, hr, hd, rfl, hw⟩

end Owners

/-- A chain whose registrations were told what is held ends with what the path reads. -/
theorem Follows.eq_read (hf : c.Follows h [] regs v) (ht : ∀ r ∈ regs, r.told = r.held h)
    (hp : ∀ s ∈ c.segments, s.property ≠ "") : v = h.readFrom (.object c.root) c.segments := by
  obtain ⟨rfl, hr, -⟩ | ⟨r, hr, -, rfl, hread⟩ :=
    hf.leaf (fun r hr _ => congrArg Value.object? (ht r hr)) hp
  · exact hr.symm
  · exact (ht r hr).trans hread.symm

/-- Registrations on the owners along the path are up to date, but for the last one before what is
still to be followed. -/
theorem Follows.upToDate (hf : c.Follows h todo regs v) :
    ∀ ps : List Place, (∀ p ∈ ps, p.after < todo.length) →
      h.owners c.timing (.object c.root) c.segments = (regs.map Registration.place).reverse ++ ps →
      ∃ w, ps = h.owners c.timing w (todo.map Link.segment) ∧
        ((todo ≠ [] → v.object? = w.object?) →
          ∀ r ∈ regs, 0 < r.handler.observer.depth → r.UpToDate h) := by
  induction hf with
  | root v =>
    intro ps _ he
    refine ⟨h.get c.root c.first.property, ?_, fun hv r hr hd => ?_⟩
    · simp only [segments, Heap.owners, List.map_cons, List.map_nil, List.reverse_cons,
        List.reverse_nil, List.nil_append, List.singleton_append, List.cons.injEq] at he
      exact he.2.symm
    · rw [List.mem_singleton] at hr
      subst hr
      exact hv (by rintro hn; simp [hn] at hd)
  | @link l todo regs o id v hf hx ih =>
    intro ps hps he
    rw [List.map_cons, List.reverse_cons, List.append_assoc, List.singleton_append] at he
    obtain ⟨w, hw, hreg⟩ := ih _ (List.forall_mem_cons.2 ⟨by
      simp [Registration.place, Handler.place], fun p hp => Nat.lt_succ_of_lt (hps p hp)⟩) he
    cases w with
    | object o' =>
      rw [List.map_cons, Heap.owners, List.cons.injEq] at hw
      obtain rfl : o = o' := congrArg Place.object hw.1
      refine ⟨h.get o l.segment.property, hw.2, fun hv r hr hd => ?_⟩
      rcases List.mem_cons.1 hr with rfl | hr
      · exact hv (by rintro rfl; simp at hd)
      · exact hreg (fun _ => rfl) r hr hd
    | _ => simp [Heap.owners] at hw
  | @absent l todo regs v hf hv ih =>
    intro ps hps he
    obtain ⟨w, hw, hreg⟩ := ih ps (fun p hp => Nat.lt_succ_of_lt (hps p hp)) he
    -- nothing is registered from here on, so nothing is an owner
    cases hw' : w.object? with
    | some o =>
      rw [Value.object?_eq_some.1 hw', List.map_cons, Heap.owners] at hw
      have := hps _ (hw ▸ List.mem_cons_self)
      simp at this
    | none =>
      rw [Heap.owners_of_none hw'] at hw
      exact ⟨.null, by rw [hw, Heap.owners_of_none rfl], fun _ => hreg fun _ => hv.trans hw'.symm⟩

/-- A chain that is followed to its end is registered on the owners along the path exactly when its
registrations are up to date. -/
theorem Follows.owners_eq_iff (hf : c.Follows h [] regs v) :
    h.owners c.timing (.object c.root) c.segments = (regs.map Registration.place).reverse ↔
      ∀ r ∈ regs, 0 < r.handler.observer.depth → r.UpToDate h := by
  constructor
  · intro he
    obtain ⟨w, -, hu⟩ := hf.upToDate [] (fun p hp => by simp at hp) (by simpa using he)
    exact hu fun hn => absurd rfl hn
  · intro hu
    have := hf.owners hu
    cases v <;> simpa [Heap.owners] using this

/-! ## The places of the registrations -/

variable [DecidableEq C]

/-- All that is registered with the code of a chain is one of its registrations. -/
theorem Live.enrolled_perm (hn : h.Numbered) (hl : c.Live [] h [] regs v) :
    (h.enrolled c.code).Perm (regs.map fun r => (r.owner, r.handler)) := by
  refine (List.perm_ext_iff_of_nodup (hn.nodup_enrolled _) ?_).2 ?_
  · refine List.pairwise_map.2 (hl.follows.pairwise_depth.imp fun hlt he => ?_)
    exact Nat.ne_of_lt hlt (congrArg (Observer.depth ∘ Handler.observer) (Prod.mk.inj he).2)
  · rintro ⟨o, x⟩
    rw [Heap.mem_enrolled, List.mem_map]
    constructor
    · rintro ⟨hx, hc⟩
      obtain ⟨u, hu⟩ := hl.registered hx hc
      exact ⟨_, hu, rfl⟩
    · rintro ⟨r, hr, he⟩
      obtain ⟨rfl, rfl⟩ := Prod.mk.inj he
      exact ⟨hl.follows.mem_handlers r hr, hl.follows.code? r hr⟩

theorem Live.places_perm (hn : h.Numbered) (hl : c.Live [] h [] regs v) :
    (h.places c.code).Perm (regs.map Registration.place).reverse := by
  have := (hl.enrolled_perm hn).map fun r => r.2.place r.1
  rw [List.map_map] at this
  exact this.trans (List.reverse_perm _).symm

/-- A chain is registered on the owners along its path exactly when its registrations are up to
date. -/
theorem Live.places_perm_iff (hn : h.Numbered) (hl : c.Live [] h [] regs v) :
    (h.places c.code).Perm (h.owners c.timing (.object c.root) c.segments) ↔
      ∀ r ∈ regs, 0 < r.handler.observer.depth → r.UpToDate h := by
  rw [← hl.follows.owners_eq_iff]
  constructor
  · intro hp
    refine List.Perm.eq_of_pairwise (fun p q _ _ hpq hqp => absurd hpq (Nat.lt_asymm hqp))
      (Heap.pairwise_owners ..) ?_ (hp.symm.trans (hl.places_perm hn))
    refine List.pairwise_reverse.2 (List.pairwise_map.2 ?_)
    exact hl.follows.pairwise_depth
  · intro he
    rw [he]
    exact hl.places_perm hn

end Chain

end DataBinding
