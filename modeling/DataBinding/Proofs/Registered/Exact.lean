import DataBinding.Proofs.Disposal.Between
import DataBinding.Proofs.Machine.Deliveries
import DataBinding.Proofs.Registered.Histories
/-!
# Registrations are removed exactly

A subscription is answered with the id under which its observer has been registered (`State.answer_of_registers`). In
an orderly state what is undone is on a roster: it is taken off, the rest stays as it is, and nothing is left that would
take it off again (`State.Orderly.removed`, `State.Orderly.undone_once`). So it is in every state that a history comes
to (`State.History.registrations_exact`).
-/

namespace DataBinding

open RosterEvent Teardown

variable {F C S : Type} {K : Client F C S}

namespace State

variable {s e : State F C S} {log log' : List (RosterEvent F C)}

/-! ## What comes of a subscription -/

/-- The answer to a subscription names the registration that has been made for it. -/
theorem answer_of_registers {n : Node} {y : Observer F C} (hr : s.registers? K = some (n, y))
    {l : List (State F C S)} {signal : Signal C} {w : World F C S}
    (h : Ends K s.frames s l ⟨.pass signal, s.frames, w⟩) :
    signal = .subscription (n.registration (s.world.heap.nextId n)) := by
  obtain ⟨ctl, fs, w₀⟩ := s
  unfold registers? at hr
  split at hr
  · next o p t y' hc =>
    cases hc
    obtain ⟨ha, hny⟩ : _ ∧ _ := by simpa using hr
    obtain ⟨rfl, rfl⟩ := hny
    obtain ⟨l', rfl, h'⟩ := h.next False.elim
    rw [step_watch ha] at h'
    obtain ⟨l₁, ⟨c₁, fs₁, w₁⟩, l₂, rfl, h₁, h₂⟩ := h'.split (List.suffix_cons ..) (List.suffix_refl _)
    obtain ⟨hc, hf⟩ := h₁.answered
    obtain rfl : fs₁ = .subscribed y' (.handler o (w₀.heap.nextHandler o)) :: fs := hf
    obtain ⟨l₃, rfl, h₃⟩ := h₂.next fun _ => List.cons_ne_self _ _
    cases c₁ with
    | run | resume => exact hc.elim
    | pass signal' =>
      obtain ⟨-, he⟩ := h₃.of_answer trivial rfl
      cases he
      rfl
    -- With a panic the registration is undone, and the panic goes on.
    | panic message =>
      obtain ⟨l₄, rfl, h₄⟩ := h₃.next False.elim
      obtain ⟨l₅, rfl, h₅⟩ := h₄.next fun _ => List.cons_ne_self _ _
      obtain ⟨-, he⟩ := h₅.of_answer trivial rfl
      cases he
  · next i y' hc =>
    cases hc
    obtain ⟨ha, hny⟩ : _ ∧ _ := by simpa using hr
    obtain ⟨rfl, rfl⟩ := hny
    obtain ⟨l', rfl, h'⟩ := h.next False.elim
    rw [step_listen ha] at h'
    obtain ⟨-, he⟩ := h'.of_answer trivial rfl
    cases he
    rfl
  · cases hr

theorem enrolls_step {n : Node} {y : Observer F C} (hr : s.registers? K = some (n, y)) (hn : n ∈ s.nodes) :
    s.world.heap.Enrolls n y (s.step K).world.heap := by
  have hacts : ¬ s.ClientActs := by
    unfold registers? at hr
    unfold ClientActs
    split at hr <;> simp_all
  have hevent : s.event? K = some (.enrolled n (s.world.heap.nextId n, y)) := by simp [event?, hr]
  have hrecords := records_step (K := K) s hacts fun p hp => by
    rw [hr, Option.mem_some_iff] at hp
    exact hp ▸ hn
  rw [hevent] at hrecords
  cases hrecords with
  | enrolled a => exact a

theorem leaves_step (hn : ¬ s.ClientActs) (hr : s.registers? K = none) (hs : s.strikes? = none) (n : Node) :
    (s.step K).world.heap.roster n = s.world.heap.roster n ∧
      (s.step K).world.heap.nextId n = s.world.heap.nextId n := by
  have hrecords := records_step (K := K) s hn (by simp [hr])
  have hevent : s.event? K = none := by simp [event?, hr, hs]
  rw [hevent] at hrecords
  cases hrecords with
  | none hroster hnext => exact ⟨hroster n, hnext n⟩

theorem event?_undo {t : Teardown C} {n : Node} {id : Nat} (hs : s.control = .run (.undo t))
    (ht : t.place? = some (n, id)) : ¬ s.ClientActs ∧ s.event? K = some (.struck n id) :=
  ⟨fun ha => by simp [ClientActs, hs] at ha, by simp [event?, registers?, strikes?, hs, ht]⟩

/-- What is undone is taken off, and it only. -/
theorem Orderly.removed (o : s.Orderly log) {t : Teardown C} {n : Node} {id : Nat} (hs : s.control = .run (.undo t))
    (ht : t.place? = some (n, id)) : s.world.heap.Removed n id (s.step K).world.heap := by
  obtain ⟨hn, hevent⟩ := event?_undo (K := K) hs ht
  have hid := o.warrants hn n id hevent
  obtain ⟨ctl, fs, w⟩ := s
  cases hs
  cases t with
  | handler x j =>
    cases ht
    refine o.logged.removed hid (w.heap.strikes_removeHandler x id) fun x' => ?_
    simp only [State.step, stepCommand, stepUndo, goOn, World.withHeap, Heap.handlers_removeHandler]
    split
    · next hx => exact hx ▸ List.filter_sublist
    · exact List.Sublist.refl _
  | observer i j =>
    cases ht
    exact o.logged.removed hid (w.heap.strikes_removeObserver i id) fun _ => List.Sublist.refl _
  | _ => cases ht

/-- And then there is nothing left that would take it off. -/
theorem Orderly.undone_once (o : s.Orderly log) {t : Teardown C} {n : Node} {id : Nat}
    (hs : s.control = .run (.undo t)) (ht : t.place? = some (n, id)) : (s.step K).tally (mark n id) = 0 := by
  obtain ⟨hn, hevent⟩ := event?_undo (K := K) hs ht
  have hone : s.world.heap.holds n id ≤ 1 := List.nodup_iff_count_le_one.1 (o.logged.nodup n) id
  have htally : (s.step K).tally (mark n id) + _ ≤ _ := tally_step s hn
  rw [spent_mark K, gained_mark, hevent] at htally
  simp only [Option.elim_some, takes, adds, if_true] at htally
  have hsole := o.sole n id
  omega

/-! ## Disposal -/

theorem step_dispose_handle {j : Nat} (hs : s.control = .run (.dispose j)) :
    (s.step K).world.heap = s.world.heap.clearHandle j := by
  simp only [State.step, hs, stepCommand, goOn, World.withHeap]

theorem ends_dispose_nothing {j : Nat} (hs : s.control = .run (.dispose j))
    (hj : s.world.heap.teardown j = .nothing) :
    Ends K s.frames s [s, s.step K] ⟨.pass .done, s.frames, s.world⟩ := by
  obtain ⟨ctl, fs, w⟩ := s
  cases hs
  have hstep : State.step K ⟨.run (.dispose j), fs, w⟩ = ⟨.run (.undo .nothing), fs, w⟩ := by
    simp only [State.step, stepCommand, goOn, World.withHeap, hj, Heap.clearHandle_of_nothing hj]
  have hend : Ends K fs ⟨.run (.undo .nothing), fs, w⟩ [⟨.run (.undo .nothing), fs, w⟩] ⟨.pass .done, fs, w⟩ :=
    .step False.elim (.answer trivial rfl)
  rw [← hstep] at hend
  exact .step False.elim hend

theorem step_undo_place {t : Teardown C} {n : Node} {id : Nat} (ht : t.place? = some (n, id)) (fs : List (Frame F C))
    (w : World F C S) : ∃ h', State.step K ⟨.run (.undo t), fs, w⟩ = ⟨.pass .done, fs, w.withHeap h'⟩ ∧
      h'.handles = w.heap.handles := by
  cases t with
  | handler | observer => exact ⟨_, rfl, rfl⟩
  | _ => cases ht

/-- To dispose of a registration empties the handle and takes the registration off. -/
theorem Orderly.ends_dispose (o : s.Orderly log) {j : Nat} {n : Node} {id : Nat} (hs : s.control = .run (.dispose j))
    (hj : (s.world.heap.teardown j).place? = some (n, id)) :
    ∃ h', Ends K s.frames s [s, s.step K] ⟨.pass .done, s.frames, s.world.withHeap h'⟩ ∧
      s.world.heap.Removed n id h' ∧ h'.handles = (s.world.heap.clearHandle j).handles ∧
      (⟨.pass .done, s.frames, s.world.withHeap h'⟩ : State F C S).tally (mark n id) = 0 := by
  have hn : ¬ s.ClientActs := fun ha => by simp [ClientActs, hs] at ha
  have o' := o.step (K := K) hn (by simp [registers?, hs])
  obtain ⟨ctl, fs, w⟩ := s
  cases hs
  have hstep : State.step K ⟨.run (.dispose j), fs, w⟩ =
      ⟨.run (.undo (w.heap.teardown j)), fs, w.withHeap (w.heap.clearHandle j)⟩ := rfl
  obtain ⟨h', hundo, hhandles⟩ := step_undo_place (K := K) hj fs (w.withHeap (w.heap.clearHandle j))
  have hremoved := o'.removed (K := K) (t := w.heap.teardown j) rfl hj
  have honce := o'.undone_once (K := K) (t := w.heap.teardown j) rfl hj
  rw [hstep, hundo] at hremoved honce
  have hend : Ends K fs ⟨.run (.undo (w.heap.teardown j)), fs, w.withHeap (w.heap.clearHandle j)⟩
      [⟨.run (.undo (w.heap.teardown j)), fs, w.withHeap (w.heap.clearHandle j)⟩]
      ⟨.pass .done, fs, w.withHeap h'⟩ := by
    refine .step False.elim ?_
    rw [hundo]
    exact .answer trivial rfl
  exact ⟨h', .step False.elim hend, ⟨hremoved.roster, hremoved.others, hremoved.nextId, hremoved.handlers⟩, hhandles,
    honce⟩

/-- Once a handle has been disposed of, to do so again does nothing. -/
theorem History.ends_dispose_again {j : Nat} (h : History K (s.step K) log e) (hs : s.control = .run (.dispose j))
    (hj : j < s.world.heap.handles.size) (he : e.control = .run (.dispose j)) :
    Ends K e.frames e [e, e.step K] ⟨.pass .done, e.frames, e.world⟩ := by
  have hempty : (s.step K).world.heap.teardown j = .nothing := by
    rw [step_dispose_handle hs, Heap.teardown_clearHandle, if_pos rfl]
  have hsize : j < (s.step K).world.heap.handles.size := by
    rw [step_dispose_handle hs]
    simpa [Heap.clearHandle] using hj
  rcases h.retains.teardown j hsize with ht | ht
  · exact ends_dispose_nothing he (ht.trans hempty)
  · exact ends_dispose_nothing he ht

/-- **Registrations are removed exactly.** In any state that a client comes to that deals fairly, from where nothing
has been made, by whatever it has registered, assigned, pushed and disposed of until then, also in the midst of
something else:

* the rosters are as the log has it: those are on them who have been registered and not been taken off, in order;
* so ids on a roster ascend, and are smaller than the next one;
* whoever is registered comes last, under the next id, and the subscription that is answered names this id;
* a registration that is undone, by whatever, is taken off, with all others as they were and in the same order, and
  nothing is left that would undo it again; any other step of the machine leaves the rosters alone;
* to dispose of a handle does nothing if it has nothing to undo. If it has a registration, this is undone as above, and
  the handle is emptied and the other handles are not. From then on, to dispose of the handle again does nothing. -/
theorem History.registrations_exact {k : S} (h : History K (fresh k) log s) :
    s.world.heap.Logged log ∧
    (∀ n, (s.world.heap.roster n).Pairwise (·.1 < ·.1) ∧ ∀ x ∈ s.world.heap.roster n, x.1 < s.world.heap.nextId n) ∧
    (∀ n y, s.registers? K = some (n, y) → n ∈ s.nodes →
      (s.step K).world.heap.roster n = s.world.heap.roster n ++ [(s.world.heap.nextId n, y)] ∧
      ∀ l signal w, Ends K s.frames s l ⟨.pass signal, s.frames, w⟩ →
        signal = .subscription (n.registration (s.world.heap.nextId n))) ∧
    (∀ t n id, s.control = .run (.undo t) → t.place? = some (n, id) →
      s.world.heap.Removed n id (s.step K).world.heap ∧ (s.step K).tally (mark n id) = 0) ∧
    (¬ s.ClientActs → s.registers? K = none → s.strikes? = none → ∀ n,
      (s.step K).world.heap.roster n = s.world.heap.roster n ∧
        (s.step K).world.heap.nextId n = s.world.heap.nextId n) ∧
    ∀ j, s.control = .run (.dispose j) →
      (s.world.heap.teardown j = .nothing →
        Ends K s.frames s [s, s.step K] ⟨.pass .done, s.frames, s.world⟩) ∧
      (∀ n id, (s.world.heap.teardown j).place? = some (n, id) →
        ∃ h', Ends K s.frames s [s, s.step K] ⟨.pass .done, s.frames, s.world.withHeap h'⟩ ∧
          s.world.heap.Removed n id h' ∧
          (⟨.pass .done, s.frames, s.world.withHeap h'⟩ : State F C S).tally (mark n id) = 0 ∧
          ∀ i, h'.teardown i = if i = j then .nothing else s.world.heap.teardown i) ∧
      (j < s.world.heap.handles.size → ∀ log' e, History K (s.step K) log' e → e.control = .run (.dispose j) →
        Ends K e.frames e [e, e.step K] ⟨.pass .done, e.frames, e.world⟩) := by
  have o : s.Orderly log := h.orderly (orderly_fresh k)
  refine ⟨o.logged, fun n => ⟨o.logged.ascending n, fun x hx => o.logged.lt_nextId hx⟩, fun n y hr hn => ?_,
    fun t n id hs ht => ⟨o.removed hs ht, o.undone_once hs ht⟩, leaves_step, fun j hs =>
    ⟨fun hj => ends_dispose_nothing hs hj, fun n id hj => ?_, fun hj log' e h' he => h'.ends_dispose_again hs hj he⟩⟩
  · refine ⟨?_, fun l signal w hend => answer_of_registers hr hend⟩
    rw [(enrolls_step hr hn).roster, if_pos rfl]
  · obtain ⟨h', hend, hremoved, hhandles, honce⟩ := o.ends_dispose (K := K) hs hj
    refine ⟨h', hend, hremoved, honce, fun i => ?_⟩
    rw [← Heap.teardown_clearHandle, Heap.teardown, hhandles, Heap.teardown]

end State

/-! ## A handler that leaves while it is told -/

/-- Code 0 disposes of the first handle whenever it is told a value, and then once more. -/
def Client.quitter : Client Empty Nat Unit where
  apply := nofun
  resume code _ w :=
    match code with
    | 0 => (w, .perform (.dispose 0) 2)
    | 2 => (w, .perform (.dispose 0) 1)
    | _ => (w, .finish)
  functionRefs := nofun
  codeRefs _ := []
  refs _ := []

/-- An object with a handler. -/
def Heap.manned : Heap Empty Nat :=
  (((Heap.empty.newObject "Hall" .full).2.addHandler 0 .after "Light" false (.client 0)).2.newHandle (.handler 0 0)).2

/-- An object with two handlers, and the handles of their subscriptions. -/
def World.hall : World Empty Nat Unit :=
  ⟨((Heap.manned.addHandler 0 .after "Light" false (.client 1)).2.newHandle (.handler 0 1)).2, ()⟩

namespace State

theorem deals_hall : (Heap.empty : Heap Empty Nat).Deals .nothing
    [.enrolled (.object 0) (0, .client 0), .enrolled (.object 0) (1, .client 1)] World.hall.heap .nothing :=
  .deal (.other ((Heap.alike_newObject ..).elsewhere rfl rfl))
    (.deal (.register .after "Light" false (.client 0) (by decide)) (.deal .keep
      (.deal (.register .after "Light" false (.client 1) (by decide)) (.deal .keep .done))))

/-- It does no more than that. -/
theorem acts_quitter {s : State Empty Nat Unit} (hs : s.ClientActs) : s.Acts .quitter [] := by
  obtain ⟨ctl, fs, w⟩ := s
  unfold ClientActs at hs
  split at hs
  · next n signal hc =>
    cases hc
    simp only [Acts, Client.quitter]
    split <;> exact ⟨⟨_, .done⟩, trivial⟩
  · next f _ _ _ => exact f.elim
  · next f _ _ _ => exact f.elim
  · exact hs.elim

/-- The light is put on, and the first handler disposes of itself when it is told. -/
def quitting : State Empty Nat Unit := (World.hall.start (.set 0 "Light" (.bool true))).run .quitter 4

theorem history_quitting : History .quitter (fresh ())
    [.enrolled (.object 0) (0, .client 0), .enrolled (.object 0) (1, .client 1)] quitting := by
  have hfair : ((World.hall.start (.set 0 "Light" (.bool true))).run .quitter 3).Acts .quitter [] :=
    acts_quitter trivial
  have hact : History .quitter ((World.hall.start (.set 0 "Light" (.bool true))).run .quitter 3) [] quitting :=
    .act hfair .here
  exact .next (s := fresh ()) (w := .hall) (c := .set 0 "Light" (.bool true)) rfl deals_hall trivial
    (.go id rfl (.go id rfl (.go id rfl hact)))

/-- When it disposes of itself the other handler stays, and it has nothing to dispose of the second time. -/
theorem quits_once : ∃ h',
    Ends .quitter quitting.frames quitting [quitting, quitting.step .quitter]
      ⟨.pass .done, quitting.frames, h', ()⟩ ∧
    h'.roster (.object 0) = [(1, .client 1)] ∧ h'.teardown 1 = .handler 0 1 ∧
    ∃ e : State Empty Nat Unit, History .quitter (quitting.step .quitter) [.struck (.object 0) 0] e ∧
      e.control = .run (.dispose 0) ∧
      Ends .quitter e.frames e [e, e.step .quitter] ⟨.pass .done, e.frames, e.world⟩ := by
  obtain ⟨-, -, -, -, -, hdispose⟩ := history_quitting.registrations_exact
  obtain ⟨-, hfirst, hagain⟩ := hdispose 0 rfl
  obtain ⟨h', hend, hremoved, -, hhandles⟩ := hfirst (.object 0) 0 rfl
  have hroster : quitting.world.heap.roster (.object 0) = [(0, .client 0), (1, .client 1)] := rfl
  have hfair : ((quitting.step .quitter).run .quitter 2).Acts .quitter [] := acts_quitter trivial
  have hact : History .quitter ((quitting.step .quitter).run .quitter 2) []
      ((quitting.step .quitter).run .quitter 3) := .act hfair .here
  have hlater : History .quitter (quitting.step .quitter) [.struck (.object 0) 0] _ := .go id rfl (.go id rfl hact)
  refine ⟨h', hend, ?_, hhandles 1, _, hlater, rfl, hagain (by decide) _ _ hlater rfl⟩
  obtain ⟨before, y, after, hbefore, hafter⟩ := hremoved.roster
  rw [hroster] at hbefore
  cases before with
  | nil =>
    cases hbefore
    exact hafter
  | cons x before =>
    cases before with
    | nil => cases hbefore
    | cons => simp at hbefore

end State

end DataBinding
