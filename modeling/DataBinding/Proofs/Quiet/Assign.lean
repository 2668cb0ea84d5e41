import DataBinding.Proofs.Quiet.Notify
/-!
# A property is assigned

An assignment that changes a property is stored and then announced before and after; a chain is told in
one of the two rounds, of the old value or of the new one (`Chain.set`).
-/

namespace DataBinding

variable {F C S : Type}

/-- What handlers with this timing are told of a change. -/
def Timing.told (old new : Value) : Timing → Value
  | .before => old
  | .after => new

namespace Chain

variable {c : Chain C} {K : Client F C S} {seen : S → List Value} {w w₁ w' : World F C S}
  {regs : List (Registration F C)} {u v : Value} {o : ObjectId} {p : String}

open State

theorem Announced.unmoved (h : c.Announced K seen regs o p v w w₁) (h' : c.Unmoved K seen w₁ w') :
    c.Announced K seen regs o p v w w' := by
  obtain ⟨hn, h⟩ | ⟨pre, r, post, todo, new, he, hr, hpost, hs, hd, hf⟩ := h
  · exact .inl ⟨hn, h.trans h'⟩
  · exact .inr ⟨pre, r, post, todo, new, he, hr, hpost, hs, hd, hf.unmoved h'⟩

theorem Unmoved.announced (h : c.Unmoved K seen w w₁) (h' : c.Announced K seen regs o p v w₁ w') :
    c.Announced K seen regs o p v w w' := by
  obtain ⟨hn, h'⟩ | ⟨pre, r, post, todo, new, he, hr, hpost, hs, hd, hf⟩ := h'
  · exact .inl ⟨hn, h.trans h'⟩
  · exact .inr ⟨pre, r, post, todo, new, he, hr, hpost, hs, hd, h.followed hf⟩

/-- After an announcement the chain is live and others are as they were. -/
theorem Announced.live (hl : c.Live [] w.heap [] regs u) (h : c.Announced K seen regs o p v w w') :
    (∃ regs' u', c.Live [] w'.heap [] regs' u') ∧ c.Tidy (c.Onlooker K seen) w'.heap ∧
      w.heap.Grows w'.heap := by
  obtain ⟨-, h⟩ | ⟨pre, r, post, todo, new, -, -, -, -, -, hf⟩ := h
  · exact ⟨⟨regs, u, hl.leaves h.1.leaves⟩, h.1.tidy, h.1.leaves.toGrows⟩
  · exact ⟨⟨_, _, hf.live⟩, hf.tidy, hf.grows⟩

/-- A registration elsewhere holds what it did. -/
theorem held_put {h : Heap F C} {r : Registration F C} (ho : o < h.objects.size) (hr : ¬ r.At o p) :
    r.held (h.put o p v) = r.held h := by
  rw [Registration.held, Heap.get_put _ _ _ _ _ _ ho]
  exact if_neg hr

/-- One of the two rounds of an announcement. -/
theorem round (hK : K.Pure seen) (hN : K.Notes seen c.code fun v => [v])
    (hp : ∀ s ∈ c.segments, s.property ≠ "") (hl : c.Live [] w.heap [] regs u)
    (ht : c.Tidy (c.Onlooker K seen) w.heap) (hv : ∀ b, v = .object b → b < w.heap.objects.size)
    (hsup : w.heap.supports o c.timing = true) (t : Timing) (base : List (Frame F C))
    (ctl : Control F C) :
    Completes K base (stepNotify ⟨ctl, base, w⟩ o v (w.heap.handlersFor o t p)) fun _ w' =>
      if t = c.timing then c.Announced K seen regs o p v w w' else c.Unmoved K seen w w' := by
  split
  · next he => exact he ▸ notify hK hN hp hl ht hv hsup base ctl
  · next hne =>
    exact notify_deaf hK (fun x hx => .inl ((other_or_at hp hl ht hx).resolve_right
      fun ⟨he, _⟩ => hne he)) ht

/-- Assigning a property: a chain is told of a change in the round of its timing. -/
theorem set (hK : K.Pure seen) (hN : K.Notes seen c.code fun v => [v])
    (hp : ∀ s ∈ c.segments, s.property ≠ "") (hl : c.Live [] w.heap [] regs u)
    (ht : c.Tidy (c.Onlooker K seen) w.heap) (ho : o < w.heap.objects.size)
    (hv : ∀ b, v = .object b → b < w.heap.objects.size)
    (hsup : w.heap.supports o c.timing = true) (base : List (Frame F C)) :
    Completes K base ⟨.run (.set o p v), base, w⟩ fun _ w' =>
      if (w.heap.get o p).eqv v then w' = w
      else c.Announced K seen regs o p (c.timing.told (w.heap.get o p) v)
        ⟨w.heap.put o p v, w.client⟩ w' := by
  refine .step id ?_
  rw [State.step_set]
  split
  · exact .pass rfl
  have hl₁ : c.Live [] (w.heap.put o p v) [] regs u := hl.leaves (leaves_put ..)
  have ht₁ : c.Tidy (c.Onlooker K seen) (w.heap.put o p v) := ht.put ho hv
  have hold : ∀ b, w.heap.get o p = .object b → b < (w.heap.put o p v).objects.size := fun b hb => by
    rw [Heap.size_put]
    exact ht.closed o p b hb
  have hv₁ : ∀ b, v = .object b → b < (w.heap.put o p v).objects.size := fun b hb => by
    rw [Heap.size_put]
    exact hv b hb
  have hsup₁ : (w.heap.put o p v).supports o c.timing = true := by rwa [Heap.supports_put]
  refine .call (f := .announcing o p (w.heap.get o p) v) (suffix_notify ⟨_, _, _⟩ _ _ _)
    (round hK hN hp (w := ⟨w.heap.put o p v, w.client⟩) hl₁ ht₁ hold hsup₁ .before _ _)
    fun signal w₂ h₂ => .back ?_
  -- between the two rounds the chain is live, and registered as before if it hears of completed changes
  have hmid : (∃ regs' u', c.Live [] w₂.heap [] regs' u' ∧ (c.timing = .after → regs' = regs)) ∧
      c.Tidy (c.Onlooker K seen) w₂.heap ∧ (w.heap.put o p v).Grows w₂.heap := by
    split at h₂
    · next hb =>
      obtain ⟨⟨regs', u', hl₂⟩, ht₂, hg⟩ := h₂.live hl₁
      exact ⟨⟨regs', u', hl₂, fun ha => by rw [ha] at hb; cases hb⟩, ht₂, hg⟩
    · exact ⟨⟨regs, u, hl₁.leaves h₂.1.leaves, fun _ => rfl⟩, h₂.1.tidy, h₂.1.leaves.toGrows⟩
  obtain ⟨⟨regs', u', hl₂, hregs⟩, ht₂, hg⟩ := hmid
  refine .call (f := .changed o (w.heap.get o p) v) (suffix_notify ⟨_, _, _⟩ _ _ _)
    (round hK hN hp hl₂ ht₂ (fun b hb => hg.objects ▸ hv₁ b hb) (hg.supports o _ ▸ hsup₁) .after _ _)
    fun _ w' h' => .back (.pass ?_)
  cases htime : c.timing with
  | before =>
    simp only [htime, if_true, reduceCtorEq, if_false] at h₂ h'
    exact h₂.unmoved h'
  | after =>
    simp only [htime, if_true, reduceCtorEq, if_false] at h₂ h'
    obtain rfl := hregs htime
    exact h₂.announced h'

end Chain

end DataBinding
