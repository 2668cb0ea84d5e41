import DataBinding.Proofs.Chain.Live
import DataBinding.Proofs.Machine.Alive
import DataBinding.Proofs.Machine.Steps
/-!
# What others do to a chain

Around a chain there are the handlers and switches of other subscriptions (`Chain.Tidy`). What these
do on the way of a value, short of assigning a property, changes nothing of the chain and no property
(`Chain.Passes`): one lemma for each operation.
-/

namespace DataBinding

variable {F C S : Type}

/-- Supplied functions make new streams at most, and what has been noted stays. -/
def Client.Pure (K : Client F C S) (seen : S → List Value) : Prop :=
  ∀ f v w, ∃ xs, (K.apply f v w).2.heap = { w.heap with streams := xs } ∧
    seen (K.apply f v w).2.client = seen w.client

/-- An operator has touched no cell but its own. -/
structure Observer.Touches (x : Observer F C) (h h' : Heap F C) : Prop where
  objects : h'.objects = h.objects
  switches : h'.switches = h.switches
  size : h'.memories.size = h.memories.size
  memory : ∀ m, (∀ y, x ≠ .distinct m y) → h'.memory m = h.memory m
  join : ∀ j, (∀ k y, x ≠ .slot j k y) → h'.join j = h.join j

/-- An operator passes something on at once, or not, and touches no cell but its own. -/
theorem State.step_operator {K : Client F C S} {seen : S → List Value} (hK : K.Pure seen)
    {x next : Observer F C} (hx : x.operand? = some next) (hp : ∀ s side y, x ≠ .map (.publish s side) y)
    (v : Value) (base : List (Frame F C)) (w : World F C S) :
    ∃ w₁, x.Touches w.heap w₁.heap ∧ seen w₁.client = seen w.client ∧
      (State.step K ⟨.run (.deliver x v), base, w⟩ = ⟨.pass .done, base, w₁⟩ ∨
        ∃ v', State.step K ⟨.run (.deliver x v), base, w⟩ = ⟨.run (.deliver next v'), base, w₁⟩) := by
  have hsame : ∀ {x : Observer F C}, x.Touches w.heap w.heap :=
    ⟨rfl, rfl, rfl, fun _ _ => rfl, fun _ _ => rfl⟩
  have happly : ∀ f, (∀ x : Observer F C, x.Touches w.heap (K.apply f v w).2.heap) ∧
      seen (K.apply f v w).2.client = seen w.client := by
    intro f
    obtain ⟨xs, hx, hk⟩ := hK f v w
    rw [hx]
    exact ⟨fun _ => ⟨rfl, rfl, rfl, fun _ _ => rfl, fun _ _ => rfl⟩, hk⟩
  -- operators are the observers that have an operand
  cases x <;> simp only [Observer.operand?, Option.some.injEq, reduceCtorEq] at hx <;> subst hx
  case map f next =>
    cases f with
    | apply f => exact ⟨_, (happly f).1 _, (happly f).2, .inr ⟨_, rfl⟩⟩
    | wrap => exact ⟨w, hsame, rfl, .inr ⟨_, rfl⟩⟩
    | emptyIfNull =>
      cases v with
      | stream => exact ⟨w, hsame, rfl, .inr ⟨_, rfl⟩⟩
      | _ => exact ⟨⟨(w.heap.newStream .empty).2, w.client⟩,
          ⟨rfl, rfl, rfl, fun _ _ => rfl, fun _ _ => rfl⟩, rfl, .inr ⟨_, rfl⟩⟩
    | publish s side => exact absurd rfl (hp s side next)
  case filter f next =>
    refine ⟨_, (happly f).1 _, (happly f).2, ?_⟩
    simp only [State.step, stepCommand, stepDeliver]
    split
    · exact .inr ⟨v, rfl⟩
    · exact .inl rfl
  case skip i next =>
    simp only [State.step, stepCommand, stepDeliver]
    split
    · exact ⟨w, hsame, rfl, .inr ⟨v, rfl⟩⟩
    · exact ⟨⟨w.heap.setCounter i _, w.client⟩, ⟨rfl, rfl, rfl, fun _ _ => rfl, fun _ _ => rfl⟩, rfl,
        .inl rfl⟩
  case distinct m next =>
    simp only [State.step, stepCommand, stepDeliver]
    split
    · exact ⟨w, hsame, rfl, .inl rfl⟩
    · refine ⟨⟨w.heap.setMemory m v, w.client⟩, ⟨rfl, rfl, by simp [Heap.setMemory], fun m' hm => ?_,
        fun _ _ => rfl⟩, rfl, .inr ⟨v, rfl⟩⟩
      have hne : m ≠ m' := fun he => hm next (he ▸ rfl)
      simp [Heap.memory, Heap.setMemory, hne]
  case inner i g next =>
    refine ⟨w, hsame, rfl, ?_⟩
    simp only [State.step, stepCommand, stepDeliver]
    split
    · exact .inr ⟨v, rfl⟩
    · exact .inl rfl
  case slot j k next =>
    refine ⟨⟨w.heap.setJoin j ((w.heap.join j).set k (some v)), w.client⟩, ⟨rfl, rfl, rfl, fun _ _ => rfl,
      fun j' hj => ?_⟩, rfl, ?_⟩
    · have hne : j ≠ j' := fun he => hj k next (he ▸ rfl)
      simp [Heap.join, Heap.setJoin, hne]
    · simp only [State.step, stepCommand, stepDeliver]
      split
      · exact .inr ⟨_, rfl⟩
      · exact .inl rfl

namespace Chain

variable (c : Chain C)

/-- Handlers are numbered, properties hold existing objects, and each handler is one of the chain's
switches, or the one on the root, or one for an observer of the kind that others have. -/
structure Tidy (Other : Observer F C → Prop) (h : Heap F C) : Prop where
  numbered : h.Numbered
  closed : h.Closed
  own : ∀ o, ∀ x ∈ h.handlers o, x.observer.code? = some c.code →
    ∀ i g next, x.observer = .inner i g next → i ∈ c.links.map Link.switch
  others : ∀ o, ∀ x ∈ h.handlers o, x.observer.code? ≠ some c.code → Other x.observer

/-- From the first heap to the second, the chain and the properties stay as they are. -/
structure Passes (Other : Observer F C → Prop) (h h' : Heap F C) : Prop where
  leaves : c.Leaves h h'
  get : ∀ o p, h'.get o p = h.get o p
  tidy : c.Tidy Other h'

variable {c} {Other : Observer F C → Prop} {h h' h'' : Heap F C}

namespace Passes

theorem refl (ht : c.Tidy Other h) : c.Passes Other h h := ⟨.refl h, fun _ _ => rfl, ht⟩

theorem trans (hp : c.Passes Other h h') (hp' : c.Passes Other h' h'') : c.Passes Other h h'' :=
  ⟨hp.leaves.trans hp'.leaves, fun o p => (hp'.get o p).trans (hp.get o p), hp'.tidy⟩

end Passes

/-- What the switch of a link keeps to undo are handlers of the chain. -/
theorem Live.own {pending : List (ObjectId × Nat)} {todo : List Link}
    {regs : List (Registration F C)} {v : Value} (hl : c.Live pending h todo regs v)
    {o : ObjectId} {x : Handler F C} (hx : x ∈ h.handlers o) (hc : x.observer.code? = some c.code)
    {i g : Nat} {next : Observer F C} (he : x.observer = .inner i g next) :
    i ∈ c.links.map Link.switch := by
  obtain ⟨-, rfl⟩ | ⟨id, g', l, rest, hs, rfl, -⟩ := hl.owned o x hx hc
  · exact absurd he (observer_ne_inner _ _ _ _)
  · rw [linkHandler, Observer.inner.injEq] at he
    exact he.1 ▸ List.mem_map_of_mem (mem_links_of_suffix hs)

namespace Tidy

variable (ht : c.Tidy Other h)
include ht

/-- Handlers of the chain are as before, and those of others are no other than before. -/
theorem passes (hl : c.Leaves h h') (hg : ∀ o p, h'.get o p = h.get o p) (hn : h'.Numbered)
    (ho : ∀ o, ∀ x ∈ h'.handlers o, x.observer.code? ≠ some c.code →
      x ∈ h.handlers o ∨ Other x.observer) : c.Passes Other h h' where
  leaves := hl
  get := hg
  tidy :=
    { numbered := hn
      closed := ht.closed.congr hl.objects hg
      own := fun o x hx hc => ht.own o x ((hl.handlers o x hc).1 hx) hc
      others := fun o x hx hc => (ho o x hx hc).elim (fun hx => ht.others o x hx hc) id }

/-- Objects and switches are as before. -/
theorem of_cells (ho : h'.objects = h.objects) (hs : h'.switches = h.switches)
    (hm : h.memories.size ≤ h'.memories.size) : c.Tidy Other h' := by
  have hh : ∀ o, h'.handlers o = h.handlers o := fun o => by simp [Heap.handlers, ho]
  refine ⟨ht.numbered.of_cells ho hs hm, ht.closed.congr (by rw [ho]) fun o p => by
    simp [Heap.get, ho], fun o x hx => ht.own o x (hh o ▸ hx), fun o x hx => ht.others o x (hh o ▸ hx)⟩

/-- An operation of the chain itself. -/
theorem of_live {pending : List (ObjectId × Nat)} {todo : List Link}
    {regs : List (Registration F C)} {v : Value} (hl : c.Live pending h' todo regs v)
    (hn : h'.Numbered) (hs : h'.objects.size = h.objects.size)
    (hg : ∀ o p, h'.get o p = h.get o p)
    (ho : ∀ o, ∀ x ∈ h'.handlers o, x.observer.code? ≠ some c.code → x ∈ h.handlers o) :
    c.Tidy Other h' where
  numbered := hn
  closed := ht.closed.congr hs hg
  own _ _ hx hc _ _ _ he := hl.own hx hc he
  others o x hx hc := ht.others o x (ho o x hx hc) hc

/-- Changes of other cells. -/
theorem passes_cells (ho : h'.objects = h.objects) (hs : h'.switches = h.switches)
    (hm : h.memories.size ≤ h'.memories.size)
    (hm' : ∀ m, c.memory = some m → h'.memory m = h.memory m) : c.Passes Other h h' := by
  have hh : ∀ o, h'.handlers o = h.handlers o := fun o => by simp [Heap.handlers, ho]
  refine ⟨⟨.of_cells ho hs hm, fun o x _ => by rw [hh], fun i _ => ?_, hm'⟩,
    fun o p => by simp [Heap.get, ho], ht.of_cells ho hs hm⟩
  simp only [Heap.switch, hs]

theorem passes_setSwitch {i : Nat} (hi : i ∉ c.links.map Link.switch) {x : Switch C}
    (hx : h.Undoes i (x.current.getD .nothing)) : c.Passes Other h (h.setSwitch i x) := by
  refine ht.passes ⟨Heap.grows_setSwitch i x, fun _ _ _ => Iff.rfl, fun j hj => ?_, fun _ _ => rfl⟩
    (fun _ _ => rfl) (ht.numbered.setSwitch i x hx) fun _ _ hx _ => .inl hx
  exact Heap.switch_setSwitch_of_ne _ _ _ _ fun he => hi (he ▸ hj)

theorem passes_newSwitch (hi : h.switches.size ∉ c.links.map Link.switch) :
    c.Passes Other h h.newSwitch.2 := by
  have hg : h.Grows h.newSwitch.2 := .of_sublist rfl (fun _ _ => rfl) (fun _ => rfl)
    (fun _ => List.Sublist.refl _) (by simp [Heap.newSwitch]) (Nat.le_refl _)
  refine ht.passes ⟨hg, fun _ _ _ => Iff.rfl, fun j hj => ?_, fun _ _ => rfl⟩ (fun _ _ => rfl)
    (ht.numbered.of_sublist hg (fun _ => rfl) (fun _ => List.Sublist.refl _) fun j => ?_)
    fun _ _ hx _ => .inl hx
  · have hne : j ≠ h.switches.size := fun he => hi (he ▸ hj)
    rw [Heap.switch_newSwitch, if_neg hne]
  · rw [Heap.switch_newSwitch]
    split
    · trivial
    · exact ht.numbered.undoes j

theorem passes_undone {i : Nat} (hi : i ∉ c.links.map Link.switch) {t : Teardown C}
    (hu : h.Undoes i t) : c.Passes Other h (h.undone t) := by
  refine ht.passes ⟨Heap.grows_undone t, fun o x hc => ?_, fun _ _ => by simp, fun _ _ => by
    simp [Heap.memory]⟩ (fun _ _ => by simp) (ht.numbered.undone t) fun o x hx _ => .inl ?_
  · rw [Heap.mem_handlers_undone]
    refine and_iff_left_of_imp fun hx ht' => ?_
    subst ht'
    obtain ⟨g, next, he⟩ := hu.2 x hx rfl
    exact hi (ht.own o x hx hc i g next he)
  · exact ((Heap.mem_handlers_undone _).1 hx).1

theorem passes_restarted {i : Nat} (hi : i ∉ c.links.map Link.switch) :
    c.Passes Other h (h.restarted i) := by
  have hp := ht.passes_setSwitch hi (x := ⟨(h.switch i).generation + 1, none, (h.switch i).stopped⟩)
    trivial
  refine hp.trans (hp.tidy.passes_undone hi ?_)
  exact (Heap.grows_setSwitch i _).undoes (ht.numbered.undoes i)

theorem passes_entered {i : Nat} (hi : i ∉ c.links.map Link.switch) {t : Teardown C}
    (hu : h.Undoes i t) (g : Nat) : c.Passes Other h (h.entered i g t) := by
  rw [Heap.entered]
  split
  · exact ht.passes_setSwitch hi hu
  · exact ht.passes_undone hi hu

theorem passes_addHandler (o : ObjectId) (t : Timing) (p : String) (reports : Bool)
    {obs : Observer F C} (hc : obs.code? ≠ some c.code) (ho : Other obs) :
    c.Passes Other h (h.addHandler o t p reports obs).2 := by
  have hmem : ∀ o' x, x ∈ (h.addHandler o t p reports obs).2.handlers o' →
      x ∈ h.handlers o' ∨ x.observer = obs := fun o' x hx =>
    ((Heap.mem_handlers_addHandler ..).1 hx).imp_right fun hnew => congrArg Handler.observer hnew.2.2
  refine ht.passes ⟨Heap.grows_addHandler .., fun o' x hx => ?_, fun _ _ => rfl, fun _ _ => rfl⟩
    (fun _ _ => by simp) (ht.numbered.addHandler ..) fun o' x hx _ => (hmem o' x hx).imp_right
      fun (he : x.observer = obs) => he ▸ ho
  constructor
  · exact fun hm => (hmem o' x hm).resolve_right fun he => hc (he ▸ hx)
  · exact fun hm => (Heap.mem_handlers_addHandler ..).2 (.inl hm)

end Tidy

/-- Storing a value leaves the handlers as they are. -/
theorem leaves_put (h : Heap F C) (o : ObjectId) (p : String) (v : Value) :
    c.Leaves h (h.put o p v) :=
  ⟨Heap.grows_put o p v, fun o' x _ => by rw [Heap.handlers_put], fun _ _ => rfl, fun _ _ => rfl⟩

theorem Tidy.put {o : ObjectId} {p : String} {v : Value} (ht : c.Tidy Other h)
    (ho : o < h.objects.size) (hv : ∀ b, v = .object b → b < h.objects.size) :
    c.Tidy Other (h.put o p v) where
  numbered := ht.numbered.put o p v
  closed a q b hb := by
    rw [Heap.get_put _ _ _ _ _ _ ho] at hb
    rw [Heap.size_put]
    split at hb
    · exact hv b hb
    · exact ht.closed a q b hb
  own o' x hx := ht.own o' x (Heap.handlers_put h o o' p v ▸ hx)
  others o' x hx := ht.others o' x (Heap.handlers_put h o o' p v ▸ hx)

/-- An operator of another subscription passes something on at once, or not. -/
theorem Tidy.step_operator {K : Client F C S} {seen : S → List Value} {w : World F C S}
    (ht : c.Tidy Other w.heap) (hK : K.Pure seen) {x next : Observer F C}
    (hx : x.operand? = some next) (hs : c.Spares x) (v : Value) (base : List (Frame F C)) :
    ∃ w₁, c.Passes Other w.heap w₁.heap ∧ seen w₁.client = seen w.client ∧
      (State.step K ⟨.run (.deliver x v), base, w⟩ = ⟨.pass .done, base, w₁⟩ ∨
        ∃ v', State.step K ⟨.run (.deliver x v), base, w⟩ = ⟨.run (.deliver next v'), base, w₁⟩) := by
  have hpublish : ∀ s side y, x ≠ .map (.publish s side) y := by
    rintro s side y rfl
    exact hs.1 s side rfl
  obtain ⟨w₁, hcells, hseen, hstep⟩ := State.step_operator hK hx hpublish v base w
  refine ⟨w₁, ht.passes_cells hcells.objects hcells.switches (Nat.le_of_eq hcells.size.symm)
    fun m hm => hcells.memory m fun y he => ?_, hseen, hstep⟩
  subst he
  exact hs.1 hm

end Chain

end DataBinding
