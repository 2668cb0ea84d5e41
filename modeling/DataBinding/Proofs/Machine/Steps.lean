import DataBinding.Proofs.Heap.Numbered
import DataBinding.Proofs.Machine.Calls
/-!
# Steps that belong together

What the machine does from one delivery to the next: a switch takes its next inner stream, a property
is watched, a subscription ends. Apart from where such a way begins, nothing is delivered on it.
-/

namespace DataBinding

namespace State

variable {F C S : Type} {K : Client F C S} {base : List (Frame F C)} {h : Heap F C} {k : S}
  {i g : Nat} {next : Observer F C}

/-- A delivery is about to be made. -/
def Delivers (s : State F C S) : Prop := ∃ o v, s.control = .run (.deliver o v)

theorem not_delivers_subscribe {x : Stream F} {y : Observer F C} {fs : List (Frame F C)} {w : World F C S} :
    ¬ Delivers ⟨.run (.subscribe x y), fs, w⟩ := by
  rintro ⟨o, v, hc⟩
  cases hc

theorem not_delivers_pass {signal : Signal C} {fs : List (Frame F C)} {w : World F C S} :
    ¬ Delivers ⟨.pass signal, fs, w⟩ := by
  rintro ⟨o, v, hc⟩
  cases hc

/-- On from a switch that is told of its next inner stream. -/
def switched (base : List (Frame F C)) (h : Heap F C) (k : S) (i : Nat) (inner : Stream F)
    (next : Observer F C) : State F C S :=
  if (h.switch i).stopped then ⟨.pass .done, base, h.restarted i, k⟩
  else
    ⟨.run (.subscribe inner (.inner i ((h.switch i).generation + 1) next)),
      .entering i ((h.switch i).generation + 1) inner :: base, h.restarted i, k⟩

theorem stopped_restarted (h : Heap F C) (i : Nat) :
    ((h.restarted i).switch i).stopped = (h.switch i).stopped := by
  rw [Heap.restarted, Heap.switch_undone, Heap.switch_setSwitch]
  split <;> rfl

theorem leads_outer (K : Client F C S) (base : List (Frame F C)) (k : S) (hn : h.Numbered)
    (i : Nat) (select : Selection) (next : Observer F C) (v : Value) :
    ∃ l, Leads K base ⟨.run (.deliver (.outer i select next) v), base, h, k⟩
      (⟨.run (.deliver (.outer i select next) v), base, h, k⟩ :: l)
      (switched base h k i (select.inner h v) next) ∧ ∀ s ∈ l, ¬ s.Delivers := by
  obtain ⟨t, ht⟩ : ∃ t, t = (h.switch i).current.getD .nothing := ⟨_, rfl⟩
  have hback : ∀ f, f = Frame.switching i ((h.switch i).generation + 1) (select.inner h v) next →
      stepFrame (⟨.pass .done, base, h.restarted i, k⟩ : State F C S) .done f =
        switched base h k i (select.inner h v) next := by
    rintro _ rfl
    simp only [stepFrame, stopped_restarted, switched]
    split <;> rfl
  refine ⟨[⟨.run (.undo t), .switching i ((h.switch i).generation + 1) (select.inner h v) next :: base,
      h.setSwitch i { h.switch i with generation := (h.switch i).generation + 1, current := none }, k⟩,
    ⟨.pass .done, .switching i ((h.switch i).generation + 1) (select.inner h v) next :: base,
      h.restarted i, k⟩], .go id ?_, ?_⟩
  · have hu := hn.undoes i
    have hr : h.restarted i = (h.setSwitch i { h.switch i with
      generation := (h.switch i).generation + 1, current := none }).undone t := by rw [ht]; rfl
    simp only [step, stepCommand, stepDeliver, stepSwitch, under_mk, ← ht]
    refine .go id ?_
    have hs : State.step K ⟨.run (.undo t), .switching i ((h.switch i).generation + 1)
        (select.inner h v) next :: base, h.setSwitch i { h.switch i with
          generation := (h.switch i).generation + 1, current := none }, k⟩ =
        ⟨.pass .done, .switching i ((h.switch i).generation + 1) (select.inner h v) next :: base,
          h.restarted i, k⟩ := by
      rw [hr]
      rw [← ht] at hu
      cases t with
      | nothing => rfl
      | handler o id => rfl
      | _ => exact hu.elim
    rw [hs]
    refine .back ?_
    rw [hback _ rfl]
    exact .here
  · rintro s hs ⟨o, w, hc⟩
    simp only [List.mem_cons, List.not_mem_nil, or_false] at hs
    rcases hs with rfl | rfl <;> cases hc

/-! ## Inner subscriptions -/

/-- A value of the latest inner stream is passed on. -/
theorem step_inner (hs : (h.switch i).stopped = false) (hg : (h.switch i).generation = g) (v : Value) :
    State.step K ⟨.run (.deliver (.inner i g next) v), base, h, k⟩ =
      ⟨.run (.deliver next v), base, h, k⟩ := by
  simp only [step, stepCommand, stepDeliver, hs, hg, beq_self_eq_true, Bool.not_false, Bool.and_self,
    if_true]
  rfl

/-- A value of an earlier inner stream is not. -/
theorem step_inner_late (hg : (h.switch i).generation ≠ g) (v : Value) :
    State.step K ⟨.run (.deliver (.inner i g next) v), base, h, k⟩ = ⟨.pass .done, base, h, k⟩ := by
  simp only [step, stepCommand, stepDeliver, beq_eq_false_iff_ne.2 hg, Bool.and_false]
  rfl

section Watch
variable {o : ObjectId} {p : String} {t : Timing} {x : Observer F C}

theorem step_watch (ha : (⟨.run (.subscribe (.watch o p t) x), base, h, k⟩ : State F C S).alive K
      (.object o) = true) :
    State.step K ⟨.run (.subscribe (.watch o p t) x), base, h, k⟩ =
      ⟨.run (.deliver x ((h.addHandler o t p p.isEmpty x).2.read o p)),
        .subscribed x (.handler o (h.nextHandler o)) :: base, (h.addHandler o t p p.isEmpty x).2, k⟩ := by
  simp only [step, stepCommand, stepSubscribe, stepWatch]
  rw [if_pos ha]
  rfl

theorem step_watch_dead (ha : ¬ (⟨.run (.subscribe (.watch o p t) x), base, h, k⟩ : State F C S).alive K
      (.object o) = true) :
    State.step K ⟨.run (.subscribe (.watch o p t) x), base, h, k⟩ =
      ⟨.pass (.subscription .nothing), base, h, k⟩ := by
  simp only [step, stepCommand, stepSubscribe, stepWatch]
  rw [if_neg ha]
  rfl

end Watch

theorem leads_entering (K : Client F C S) (base : List (Frame F C)) (k : S) (signal : Signal C)
    (ht : h.Undoes i signal.teardown) (g : Nat) (inner : Stream F) :
    ∃ l, Leads K base ⟨.pass signal, .entering i g inner :: base, h, k⟩ l
      ⟨.pass .done, base, h.entered i g signal.teardown, k⟩ ∧ ∀ s ∈ l, ¬ s.Delivers := by
  obtain ⟨t, he⟩ : ∃ t, t = signal.teardown := ⟨_, rfl⟩
  rw [← he] at ht ⊢
  by_cases hg : (h.switch i).generation = g
  · refine ⟨_, .back (l := []) ?_, List.forall_mem_singleton.2 not_delivers_pass⟩
    simp only [stepFrame, ← he, hg, Heap.entered, if_true]
    exact .here
  · refine ⟨_, .back (l := [⟨.run (.undo t), base, h, k⟩]) ?_, ?_⟩
    · simp only [stepFrame, ← he, hg, Heap.entered, if_false]
      refine .go id ?_
      cases t with
      | nothing => exact .here
      | handler o id => exact .here
      | _ => exact ht.elim
    · rintro s hs ⟨o, v, hc⟩
      simp only [List.mem_cons, List.not_mem_nil, or_false] at hs
      rcases hs with rfl | rfl <;> cases hc

end State

end DataBinding
