import DataBinding.Proofs.Announced.Changes
import DataBinding.Proofs.Quiet.Session
/-!
# What is assigned again

Assigned a second time, a value is found to be there already, and nobody is called. That is so for every value
without a NaN in it (`State.set_repeated`). One with a NaN does not equal itself, so it is stored and announced
again however often it is assigned (`World.nan_set_again`).
-/

namespace DataBinding

variable {F C S : Type} {K : Client F C S} {base : List (Frame F C)} {o : ObjectId} {p : String} {v : Value}
  {w : World F C S} {l : List (State F C S)} {e : State F C S}

namespace State

/-- An assignment that comes to an end has found an equal value or announced the change. -/
theorem Ends.set (h : Ends K base ⟨.run (.set o p v), base, w⟩ l e) :
    (w.heap.get o p).eqv v = true ∧ e = ⟨.pass (.flag false), base, w⟩ ∨
      (w.heap.get o p).eqv v = false ∧ ∃ l', l = ⟨.run (.set o p v), base, w⟩ :: l' ∧
        Announcement K base o p (w.heap.get o p) v (w.withHeap (w.heap.put o p v)) l' e := by
  obtain ⟨l', rfl, h'⟩ := h.next False.elim
  cases he : (w.heap.get o p).eqv v with
  | true =>
    rw [step_set_same he] at h'
    exact .inl ⟨rfl, (h'.of_answer trivial rfl).2⟩
  | false =>
    have hstep : State.step K ⟨.run (.set o p v), base, w⟩ = _ := step_set_other he
    rw [Heap.handlersFor_eq_due] at hstep
    exact .inr ⟨rfl, l', rfl, Ends.announcement (hstep ▸ h')⟩

/-- **What is assigned again.** The handlers that a first assignment calls come back and leave the properties as
they are. Then a second one of the same value, wherever it is made, finds the value there and calls nobody, unless
there is a NaN in it. In that case the value is stored and announced once more. -/
theorem set_repeated (ho : o < w.heap.objects.size)
    (hK : ∀ l f u w' x rest, Leads K base ⟨.run (.set o p v), base, w⟩ l (calling (f :: base) o u w' x rest) →
      (calling (f :: base) o u w' x rest).Harmless K) :
    ∃ l e, Ends K base ⟨.run (.set o p v), base, w⟩ l e ∧ ∀ base' : List (Frame F C),
      (v.holdsNaN = false → Ends K base' ⟨.run (.set o p v), base', e.world⟩ [⟨.run (.set o p v), base', e.world⟩]
        ⟨.pass (.flag false), base', e.world⟩) ∧
      (v.holdsNaN = true → ∀ l' e', Ends K base' ⟨.run (.set o p v), base', e.world⟩ l' e' →
        ∃ l'', l' = ⟨.run (.set o p v), base', e.world⟩ :: l'' ∧
          Announcement K base' o p (e.world.heap.get o p) v (e.world.withHeap (e.world.heap.put o p v)) l'' e') := by
  obtain ⟨l, e, he, heqv⟩ : ∃ l e, Ends K base ⟨.run (.set o p v), base, w⟩ l e ∧
      (e.world.heap.get o p).eqv v = !v.holdsNaN := by
    obtain ⟨hsame, hother⟩ := set_announced ho hK
    rw [← Value.eqv_self]
    cases hold : (w.heap.get o p).eqv v with
    | true => exact ⟨_, _, hsame hold, hold.trans (Value.eqv_self_left (Value.eqv_symm hold)).symm⟩
    | false =>
      obtain ⟨l, e, he, hget, -⟩ := hother hold
      have hv := hget e (List.mem_append_right _ (List.mem_singleton.2 rfl)) o p
      rw [if_pos ⟨rfl, rfl⟩] at hv
      exact ⟨_, e, he, by rw [hv]⟩
  refine ⟨l, e, he, fun base' => ⟨fun hv => ?_, fun hv l' e' h' => ?_⟩⟩
  · rw [hv] at heqv
    exact (Leads.one id (step_set_same heqv)).ends (.answer trivial rfl)
  · rw [hv] at heqv
    obtain ⟨hsame, -⟩ | ⟨-, ha⟩ := h'.set
    · exact absurd (heqv.symm.trans hsame) Bool.false_ne_true
    · exact ha

end State

/-- The door is opened in a way that holds a side, a change and a tuple, and then opened in that way again. -/
theorem World.door_opened_again :
    ∃ l e, State.Ends .porter [] (World.start ⟨.door, []⟩
        (.set 0 "State" (.tagged .source (.change 0 none (.tuple [.int 1, .text "open"]))))) l e ∧
      State.Ends .porter [] (e.world.start
          (.set 0 "State" (.tagged .source (.change 0 none (.tuple [.int 1, .text "open"])))))
        [e.world.start (.set 0 "State" (.tagged .source (.change 0 none (.tuple [.int 1, .text "open"]))))]
        ⟨.pass (.flag false), [], e.world⟩ := by
  have hend : State.Ends .porter [] (World.start ⟨.door, []⟩ (.set 0 "State"
      (.tagged .source (.change 0 none (.tuple [.int 1, .text "open"])))))
      (State.visited .porter 40 _) (State.run .porter 40 _) :=
    State.ends_iff_run.2 ⟨40, rfl, by decide +kernel, rfl⟩
  have hclients : ∀ s ∈ State.visited .porter 40 (World.start ⟨.door, []⟩ (.set 0 "State"
      (.tagged .source (.change 0 none (.tuple [.int 1, .text "open"]))))), s.toClients = true := by
    decide +kernel
  obtain ⟨l, e, he, h⟩ := State.set_repeated (o := 0) (p := "State")
    (v := .tagged .source (.change 0 none (.tuple [.int 1, .text "open"]))) (w := ⟨.door, []⟩) (by decide)
    fun l f u w' x rest (hl : State.Leads .porter [] _ l _) => by
      obtain ⟨c, hc⟩ := State.client_of_toClients (hclients _ (hl.mem hend id))
      rw [State.calling, hc]
      exact State.harmless_porter ..
  exact ⟨l, e, he, (h []).1 (by decide)⟩

/-- A gauge with a handler to be told after its level has changed. -/
def Heap.gauge : Heap Empty Unit :=
  ((Heap.empty.newObject "Gauge" .full).2.addHandler 0 .after "Level" false (.client ())).2

/-- A NaN is assigned to the level twice, and the handler only notes what it is given. It is called again, and the
answer is again that there was a change. -/
theorem World.nan_set_again :
    ∃ l e l' e',
      State.Ends (.recorder [.object 0]) [] (World.start ⟨.gauge, []⟩ (.set 0 "Level" (.float ⟨0x7ff8000000000000⟩))) l e ∧
      e.world.client = [.float ⟨0x7ff8000000000000⟩] ∧ e.world.heap.get 0 "Level" = .float ⟨0x7ff8000000000000⟩ ∧
      State.Ends (.recorder [.object 0]) [] (e.world.start (.set 0 "Level" (.float ⟨0x7ff8000000000000⟩))) l' e' ∧
      e'.control = .pass (.flag true) ∧
      e'.world.client = [.float ⟨0x7ff8000000000000⟩, .float ⟨0x7ff8000000000000⟩] :=
  ⟨_, _, _, _, State.ends_iff_run.2 ⟨20, rfl, by decide +kernel, rfl⟩, rfl, rfl,
    State.ends_iff_run.2 ⟨20, rfl, by decide +kernel, rfl⟩, rfl, rfl⟩

end DataBinding
