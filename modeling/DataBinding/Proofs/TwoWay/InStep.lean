import DataBinding.Proofs.TwoWay.Exchange
import DataBinding.Proofs.Value.Equality
/-!
# Two properties in step

Two properties that are carried to each other by functions of which each undoes the other are in step
when one holds what the other converts to (`InStep`). An assignment to either is followed by the other,
and neither is stored twice (`InStep.set`).
-/

namespace DataBinding

variable {F C S : Type} {K : Client F C S}

open State

/-! ## Conversions -/

/-- The two functions respect equality, and on values that equal themselves each undoes the other. -/
structure Value.Inverse (conv back : Value → Value) : Prop where
  respects : ∀ v v', v.eqv v' = true → (conv v).eqv (conv v') = true
  respects_back : ∀ v v', v.eqv v' = true → (back v).eqv (back v') = true
  back_conv : ∀ v, v.eqv v = true → (back (conv v)).eqv v = true
  conv_back : ∀ v, v.eqv v = true → (conv (back v)).eqv v = true

theorem Value.Inverse.symm {conv back : Value → Value} (h : Value.Inverse conv back) :
    Value.Inverse back conv :=
  ⟨h.respects_back, h.respects, h.conv_back, h.back_conv⟩

/-! ## Staying in step -/

/-- Two properties are carried to each other, and the second holds what the first converts to. -/
structure InStep (K : Client F C S) (conv back : Value → Value) (o : ObjectId) (p : String)
    (o' : ObjectId) (p' : String) (w : World F C S) : Prop extends
    Exchange K w.heap w.client o p o' p' conv back where
  equal : (w.heap.get o' p').eqv (conv (w.heap.get o p)) = true
  self : (w.heap.get o p).eqv (w.heap.get o p) = true

namespace InStep

variable {conv back : Value → Value} {w : World F C S} {o o' : ObjectId} {p p' : String} {v : Value}

theorem symm (hi : Value.Inverse conv back) (h : InStep K conv back o p o' p' w) :
    InStep K back conv o' p' o p w := by
  refine ⟨h.toExchange.symm, ?_, Value.eqv_self_left h.equal⟩
  have hback := Value.eqv_trans (hi.respects_back _ _ h.equal) (hi.back_conv _ h.self)
  exact Value.eqv_symm hback

/-- After an assignment both properties are in step again, and none has been stored twice. -/
theorem set (hi : Value.Inverse conv back) (h : InStep K conv back o p o' p' w)
    (hv : v.eqv v = true) :
    ∃ l signal w', Ends K [] (w.start (.set o p v)) l ⟨.pass signal, [], w'⟩ ∧
      InStep K conv back o p o' p' w' ∧ (w'.heap.get o p).eqv v = true ∧
      (l.filterMap stored?).Nodup := by
  obtain ⟨log, h', b, hs, hstores⟩ := h.toExchange.set (Value.eqv_symm (hi.back_conv v hv)) []
  obtain ⟨l, hl, rfl⟩ := hstores.ends
  have hput : (w.heap.put o p v).get o p = v := by
    rw [Heap.get_put _ _ _ _ _ _ h.there.exist, if_pos ⟨rfl, rfl⟩]
  have hne : ∀ u, (w.heap.put o p u).get o' p' = w.heap.get o' p' := fun u => by
    rw [Heap.get_put _ _ _ _ _ _ h.there.exist]
    exact if_neg fun he => h.ne he.1.symm
  refine ⟨l, _, ⟨h', w.client⟩, hl, ?_⟩
  generalize l.filterMap stored? = log at hs
  cases hs with
  | same he => exact ⟨h, he, List.nodup_nil⟩
  | one he =>
    refine ⟨⟨h.toExchange.put o p v, ?_, ?_⟩, ?_, by simp⟩
    · rw [hne, hput]
      exact he
    · rw [hput]
      exact hv
    · rw [hput]
      exact hv
  | both =>
    have hput' : ((w.heap.put o p v).put o' p' (conv v)).get o p = v := by
      rw [Heap.get_put _ _ _ _ _ _ (h.toExchange.put o p v).back.exist, if_neg fun he => h.ne he.1, hput]
    refine ⟨⟨(h.toExchange.put o p v).put o' p' (conv v), ?_, ?_⟩, ?_, ?_⟩
    · rw [hput', Heap.get_put _ _ _ _ _ _ (h.toExchange.put o p v).back.exist, if_pos ⟨rfl, rfl⟩]
      exact hi.respects v v hv
    · rw [hput']
      exact hv
    · rw [hput']
      exact hv
    · simp [h.ne]

end InStep

end DataBinding
