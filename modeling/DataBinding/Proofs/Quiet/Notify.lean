import DataBinding.Proofs.Quiet.Cascade
/-!
# A change is announced

When the handlers of an object are told of a change, the chain is told once at most: the handler of
its first segment there comes first, and following the value from there leaves those of later segments
behind (`Chain.notify`).
-/

namespace DataBinding

variable {F C S : Type}

/-- The registration watches this property of this object. -/
def Registration.At (r : Registration F C) (o : ObjectId) (p : String) : Prop :=
  r.owner = o ∧ r.handler.property = p

namespace Chain

variable {c : Chain C} {K : Client F C S} {seen : S → List Value}

open State

/-! ## Before and after the chain is told -/

section Unmoved
variable {w w₁ w' : World F C S} {pending : List (ObjectId × Nat)} {todo : List Link}
  {regs pre : List (Registration F C)} {u v : Value}

theorem Unmoved.remembered (h : c.Unmoved K seen w w') :
    c.remembered w'.heap = c.remembered w.heap := h.1.leaves.remembered

theorem Unmoved.followed (h : c.Unmoved K seen w w₁)
    (hf : c.Followed seen (c.Onlooker K seen) pending todo regs pre v w₁ w') :
    c.Followed seen (c.Onlooker K seen) pending todo regs pre v w w' := by
  have hr : ∀ l, w₁.heap.readFrom v l = w.heap.readFrom v l := Heap.readFrom_congr h.1.get v
  refine ⟨hr _ ▸ hf.live, hf.tidy, h.1.leaves.toGrows.trans hf.grows,
    fun o p => (hf.get o p).trans (h.1.get o p), hf.told, ?_⟩
  have hh := hf.handed
  rw [Handed, h.remembered, h.2, hr] at hh
  exact hh

theorem Followed.unmoved (hf : c.Followed seen (c.Onlooker K seen) pending todo regs pre v w w₁)
    (h : c.Unmoved K seen w₁ w') :
    c.Followed seen (c.Onlooker K seen) pending todo regs pre v w w' := by
  refine ⟨hf.live.leaves h.1.leaves, h.1.tidy, hf.grows.trans h.1.leaves.toGrows,
    fun o p => (h.1.get o p).trans (hf.get o p), fun r hr => ?_, ?_⟩
  · exact (hf.told r hr).trans (h.1.get _ _).symm
  · rw [Handed, h.remembered, h.2]
    exact hf.handed

end Unmoved

/-! ## Telling one handler after the other -/

/-- The handler is an onlooker's, or one of the chain's that has been left behind. -/
def Deaf (c : Chain C) (K : Client F C S) (seen : S → List Value) (h : Heap F C)
    (x : Handler F C) : Prop :=
  c.Onlooker K seen x.observer ∨
    ∃ i g next, x.observer = .inner i g next ∧ i ∈ c.links.map Link.switch ∧
      (h.switch i).generation ≠ g

theorem Deaf.mono {h h' : Heap F C} {x : Handler F C} (hx : c.Deaf K seen h x)
    (hc : ∀ i ∈ c.links.map Link.switch, h'.switch i = h.switch i) : c.Deaf K seen h' x := by
  refine hx.imp_right fun ⟨i, g, next, he, hi, hg⟩ => ⟨i, g, next, he, hi, ?_⟩
  rw [hc i hi]
  exact hg

/-- Telling a deaf handler leaves the chain as it is. -/
theorem Deaf.deliver (hK : K.Pure seen) {x : Handler F C} {w : World F C S}
    (hx : c.Deaf K seen w.heap x) (ht : c.Tidy (c.Onlooker K seen) w.heap) (v : Value)
    (base : List (Frame F C)) :
    Completes K base ⟨.run (.deliver x.observer v), base, w⟩ fun _ w' => c.Unmoved K seen w w' := by
  obtain hx | ⟨i, g, next, he, -, hg⟩ := hx
  · exact hx.deliver hK base v w ht
  · rw [he]
    exact .step id ((step_inner_late (k := w.client) hg v).symm ▸ .pass ⟨.refl ht, rfl⟩)

/-- Deaf handlers are told before the others. -/
theorem notify_append (hK : K.Pure seen) {o : ObjectId} {v : Value} {base : List (Frame F C)}
    {l' : List (Handler F C)} {Q : Signal C → World F C S → Prop} :
    ∀ (l : List (Handler F C)) (w : World F C S) (ctl : Control F C),
      (∀ x ∈ l, c.Deaf K seen w.heap x) → c.Tidy (c.Onlooker K seen) w.heap →
      (∀ w₁, c.Unmoved K seen w w₁ →
        ∀ ctl', Completes K base (stepNotify ⟨ctl', base, w₁⟩ o v l') Q) →
      Completes K base (stepNotify ⟨ctl, base, w⟩ o v (l ++ l')) Q := by
  intro l
  induction l with
  | nil => exact fun w ctl _ ht hq => hq w ⟨.refl ht, rfl⟩ ctl
  | cons x rest ih =>
    intro w ctl hl ht hq
    refine .call (List.suffix_refl _) ((hl x List.mem_cons_self).deliver hK ht _ _) fun _ w₁ h₁ => ?_
    refine .back (ih w₁ _ (fun y hy => ?_) h₁.1.tidy fun w₂ h₂ => hq w₂ (h₁.trans h₂))
    exact (hl y (List.mem_cons_of_mem _ hy)).mono h₁.1.leaves.cells

theorem notify_deaf (hK : K.Pure seen) {o : ObjectId} {v : Value} {base : List (Frame F C)}
    {l : List (Handler F C)} {w : World F C S} {ctl : Control F C}
    (hl : ∀ x ∈ l, c.Deaf K seen w.heap x) (ht : c.Tidy (c.Onlooker K seen) w.heap) :
    Completes K base (stepNotify ⟨ctl, base, w⟩ o v l) fun _ w' => c.Unmoved K seen w w' := by
  rw [← List.append_nil l]
  exact notify_append hK l w ctl hl ht fun w₁ h₁ ctl' => .pass h₁

/-! ## Telling the chain -/

variable {w : World F C S} {regs pre post : List (Registration F C)} {u : Value}

/-- A registration of the chain is told a value. -/
theorem tell (hN : K.Notes seen c.code fun v => [v]) (hp : ∀ s ∈ c.segments, s.property ≠ "")
    {Other : Observer F C → Prop} {r : Registration F C}
    (hl : c.Live [] w.heap [] (pre ++ r :: post) u) (ht : c.Tidy Other w.heap) (v : Value)
    {base : List (Frame F C)} (hk : ∀ o, v = .object o → KeptObject K base w.client w.heap o) :
    Completes K base ⟨.run (.deliver r.handler.observer v), base, w⟩ fun _ w' =>
      ∃ todo new, todo <:+ c.links ∧ r.handler.observer.depth = todo.length ∧
        c.Cascaded seen Other [] todo (⟨r.owner, r.handler, v⟩ :: post) new v w w' := by
  obtain ⟨todo, -, hd, hcases, ht'⟩ := hl.retell
  have hlive := ht' v
  have hdel : Completes K base ⟨.run (.deliver (c.observer todo) v), base, w⟩ _ :=
    delivers hN hp todo [] _ v base w hlive ht hk
  have hdone := hdel.mono fun _ w' ⟨new, hc⟩ => (⟨todo, new, hlive.follows.suffix, hd, hc⟩ :
    ∃ todo new, todo <:+ c.links ∧ r.handler.observer.depth = todo.length ∧
      c.Cascaded seen Other [] todo (⟨r.owner, r.handler, v⟩ :: post) new v w w')
  obtain ⟨-, hx, rfl⟩ | ⟨n, l, hs, hx⟩ := hcases
  · rw [hx] at hdone ⊢
    exact hdone
  · rw [hx] at hdone ⊢
    exact .step id ((step_inner (k := w.client) (hl.running l (mem_links_of_suffix hs)).2 rfl v).symm ▸
      hdone)

/-- What becomes of the registrations when handlers are told of a change. -/
def Announced (c : Chain C) (K : Client F C S) (seen : S → List Value)
    (regs : List (Registration F C)) (o : ObjectId) (p : String) (v : Value)
    (w w' : World F C S) : Prop :=
  ((∀ r ∈ regs, ¬ r.At o p) ∧ c.Unmoved K seen w w') ∨
    ∃ pre r post todo new, regs = pre ++ r :: post ∧ r.At o p ∧ (∀ r' ∈ post, ¬ r'.At o p) ∧
      todo <:+ c.links ∧ r.handler.observer.depth = todo.length ∧
      c.Followed seen (c.Onlooker K seen) [] todo (⟨o, r.handler, v⟩ :: post) new v w w'

/-- A list has no such element, or it has a last one. -/
theorem exists_last {α : Type} (P : α → Prop) (l : List α) :
    (∀ x ∈ l, ¬ P x) ∨ ∃ pre x post, l = pre ++ x :: post ∧ P x ∧ ∀ y ∈ post, ¬ P y := by
  induction l with
  | nil => exact .inl (by simp)
  | cons a l ih =>
    obtain hn | ⟨pre, x, post, rfl, hx, hpost⟩ := ih
    · by_cases ha : P a
      · exact .inr ⟨[], a, l, rfl, ha, hn⟩
      · exact .inl (List.forall_mem_cons.2 ⟨ha, hn⟩)
    · exact .inr ⟨a :: pre, x, post, rfl, hx, hpost⟩

/-- A handler for the property is one of others, or a registration of the chain there. -/
theorem other_or_at (hp : ∀ s ∈ c.segments, s.property ≠ "") (hl : c.Live [] w.heap [] regs u)
    (ht : c.Tidy (c.Onlooker K seen) w.heap) {o : ObjectId} {p : String} {t : Timing}
    {x : Handler F C} (hx : x ∈ w.heap.handlersFor o t p) :
    c.Onlooker K seen x.observer ∨ t = c.timing ∧ ∃ r ∈ regs, r.handler = x ∧ r.At o p := by
  obtain ⟨-, hx, htime, hprop⟩ := (Heap.mem_handlersFor ..).1 hx
  by_cases hc : x.observer.code? = some c.code
  · obtain ⟨told, hr⟩ := hl.registered hx hc
    have hne : x.property ≠ "" ∧ x.timing = c.timing := by
      obtain ⟨-, he⟩ | ⟨n, l, rest, hs, -, he⟩ := hl.follows.cases_mem _ hr
      · exact ⟨by rw [show x = _ from he]; exact hp _ List.mem_cons_self, by rw [show x = _ from he]; rfl⟩
      · refine ⟨?_, by rw [show x = _ from he]; rfl⟩
        rw [show x = _ from he]
        exact hp _ (List.mem_cons_of_mem _ (List.mem_map_of_mem (mem_links_of_suffix hs)))
    exact .inr ⟨htime.symm.trans hne.2, _, hr, rfl, rfl, hprop.resolve_left hne.1⟩
  · exact .inl (ht.others o x hx hc)

/-- The switches of further links have gone on, so their handlers are deaf. -/
theorem left_behind {h h' : Heap F C} {r : Registration F C} {todo : List Link}
    (hl : c.Live [] w.heap [] (pre ++ r :: post) u) (hleave : c.Leaves w.heap h)
    (hs : todo <:+ c.links) (hd : r.handler.observer.depth = todo.length)
    (hlater : ∀ l ∈ todo, h.generation l < h'.generation l) {r' : Registration F C}
    (hr' : r' ∈ pre) : c.Deaf K seen h' r'.handler := by
  have hlt : r'.handler.observer.depth < todo.length :=
    hd ▸ (List.pairwise_append.1 hl.follows.pairwise_depth).2.2 r' hr' r List.mem_cons_self
  obtain ⟨-, he⟩ | ⟨n, l, rest, hs', -, he⟩ :=
    hl.follows.cases_mem r' (List.mem_append_left _ hr')
  · rw [he, depth_rootHandler] at hlt
    exact absurd hs.length_le (Nat.not_le_of_lt hlt)
  · rw [he, depth_linkHandler] at hlt
    have hl' : l ∈ todo := (List.suffix_of_suffix_length_le hs' hs hlt).subset List.mem_cons_self
    refine .inr ⟨l.switch, w.heap.generation l, c.observer rest, by rw [he]; rfl,
      List.mem_map_of_mem (mem_links_of_suffix hs'), ?_⟩
    have := hlater l hl'
    rw [hleave.generation (mem_links_of_suffix hs')] at this
    exact Nat.ne_of_gt this

/-- Handlers for a property of the object are told of a value. -/
theorem notify (hK : K.Pure seen) (hN : K.Notes seen c.code fun v => [v])
    (hp : ∀ s ∈ c.segments, s.property ≠ "") {o : ObjectId} {p : String}
    (hl : c.Live [] w.heap [] regs u) (ht : c.Tidy (c.Onlooker K seen) w.heap) {v : Value}
    (hv : ∀ b, v = .object b → b < w.heap.objects.size)
    (hsup : w.heap.supports o c.timing = true) (base : List (Frame F C)) (ctl : Control F C) :
    Completes K base (stepNotify ⟨ctl, base, w⟩ o v (w.heap.handlersFor o c.timing p))
      fun _ w' => c.Announced K seen regs o p v w w' := by
  -- the handler of the chain that is told first is that of its last registration there
  obtain hnone | ⟨pre, r, post, rfl, hr, hpost⟩ := exists_last (Registration.At · o p) regs
  · refine (notify_deaf hK (fun x hx => .inl ?_) ht).mono fun _ w' h => .inl ⟨hnone, h⟩
    refine (other_or_at hp hl ht hx).resolve_right fun ⟨_, r, hr, _, hat⟩ => hnone r hr hat
  · obtain ⟨rfl, rfl⟩ := hr
    have hmem := hl.follows.mem_handlers r (by simp)
    have htime : r.handler.timing = c.timing := by
      obtain ⟨-, he⟩ | ⟨_, _, _, -, -, he⟩ := hl.follows.cases_mem r (by simp) <;> rw [he] <;> rfl
    obtain ⟨A, B, hAB⟩ := List.append_of_mem
      ((Heap.mem_handlersFor ..).2 ⟨hsup, hmem, htime, .inr rfl⟩)
    have hsorted := (ht.numbered.sorted r.owner).sublist
      (w.heap.handlersFor_sublist r.owner r.handler.property c.timing)
    rw [hAB] at hsorted ⊢
    have hpre : ∀ r' ∈ pre ++ r :: post, r'.At r.owner r.handler.property →
        r.handler.id ≠ r'.handler.id → r' ∈ pre := fun r' hr' hat hid => by
      rcases List.mem_append.1 hr' with hr' | hr'
      · exact hr'
      · rcases List.mem_cons.1 hr' with rfl | hr'
        · exact absurd rfl hid
        · exact absurd hat (hpost r' hr')
    -- handlers before it are others'
    have hA : ∀ y ∈ A, c.Onlooker K seen y.observer := fun y hy => by
      refine (other_or_at hp hl ht (hAB ▸ List.mem_append_left _ hy)).resolve_right ?_
      rintro ⟨-, r', hr', rfl, hat⟩
      have hlt := (List.pairwise_append.1 hsorted).2.2 _ hy _ List.mem_cons_self
      have hr' := hpre r' hr' hat (Nat.ne_of_gt hlt)
      exact Nat.lt_asymm hlt
        ((List.pairwise_append.1 hl.ordered).2.2 _ hr' _ List.mem_cons_self hat.1)
    refine notify_append hK A w ctl (fun x hx => .inl (hA x hx)) ht fun w₁ h₁ ctl' => ?_
    have hshown : r.handler.reportsOwner = false := by
      obtain ⟨-, he⟩ | ⟨_, _, _, -, -, he⟩ := hl.follows.cases_mem r (by simp) <;> rw [he] <;> rfl
    have hkeep : ∀ b, v = .object b → KeptObject K
        (.notifying r.handler B r.owner v :: base) w₁.client w₁.heap b := by
      rintro b rfl
      refine ⟨b, .inr ⟨_, List.mem_cons_self, fun h => ?_⟩, ?_, .refl⟩
      · simp [Frame.refs, Value.refs]
      · exact h₁.1.leaves.objects ▸ hv b rfl
    simp only [stepNotify, hshown]
    refine .call (List.suffix_refl _) (tell hN hp (hl.leaves h₁.1.leaves) h₁.1.tidy v hkeep) ?_
    rintro _ w₂ ⟨todo, new, hs, hd, hcas⟩
    -- and those after it are others', or the chain has left them behind meanwhile
    have hB : ∀ y ∈ B, c.Deaf K seen w₂.heap y := fun y hy => by
      obtain hy | ⟨-, r', hr', rfl, hat⟩ := other_or_at hp hl ht
        (hAB ▸ List.mem_append_right _ (List.mem_cons_of_mem _ hy))
      · exact .inl hy
      · refine left_behind hl h₁.1.leaves hs hd hcas.later (hpre r' hr' hat (Nat.ne_of_lt ?_))
        exact (List.pairwise_cons.1 (List.pairwise_append.1 hsorted).2.1).1 _ hy
    refine .back ((notify_deaf hK hB hcas.tidy).mono fun _ w' h' => .inr ?_)
    exact ⟨pre, r, post, todo, new, rfl, ⟨rfl, rfl⟩, hpost, hs, hd,
      h₁.followed (hcas.toFollowed.unmoved h')⟩

end Chain

end DataBinding
