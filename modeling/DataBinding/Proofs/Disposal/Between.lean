import DataBinding.Proofs.Disposal.Silence
/-!
# Disposal between operations

A subscription that is disposed of while nothing else is under way is undone then and there, without client
code being called; afterwards its code is given no value, and to dispose of it again changes nothing. If its
life was orderly, exactly the registrations that lead to other code are left
(`World.Subscribed.disposed`). It was not if the switch of an inner stream was stopped while it subscribed:
then a handler is left behind (`World.strays_left`).
-/

namespace DataBinding

variable {F C S : Type} {K : Client F C S} {code : C} {n : Nat} {past lived l : List (State F C S)}
  {w w' : World F C S}

/-! ## Handles -/

/-- To empty an empty handle changes nothing. -/
theorem Heap.clearHandle_of_nothing {h : Heap F C} (hn : h.teardown n = .nothing) : h.clearHandle n = h := by
  have hhandles : h.handles.setIfInBounds n .nothing = h.handles := by
    refine Array.ext_getElem? fun i => ?_
    rw [Array.getElem?_setIfInBounds]
    split
    · next he =>
      subst he
      cases hi : h.handles[n]? with
      | none => rw [if_neg (by simpa using hi)]
      | some t =>
        have ht : t = .nothing := by simpa [Heap.teardown, hi] using hn
        rw [if_pos (Array.getElem?_eq_some_iff.1 hi).1, ht]
    · rfl
  rw [Heap.clearHandle, hhandles]

/-- So to dispose of it again changes nothing. -/
theorem World.ends_dispose_of_nothing (hn : w.heap.teardown n = .nothing) :
    ∃ l, State.Ends K [] (w.start (.dispose n)) l ⟨.pass .done, [], w⟩ := by
  have hstep : (w.start (.dispose n)).step K = ⟨.run (.undo .nothing), [], w⟩ := by
    simp only [State.step, World.start, stepCommand, State.goOn, World.withHeap, hn,
      Heap.clearHandle_of_nothing hn]
  have hend : State.Ends K [] ⟨.run (.undo .nothing), [], w⟩ [⟨.run (.undo .nothing), [], w⟩]
      ⟨.pass .done, [], w⟩ := .step False.elim (.answer trivial rfl)
  exact ⟨_, .step False.elim (hstep ▸ hend)⟩

/-- A handle that is moved into a composite is emptied. -/
theorem State.cleared_of_moved {s : State F C S} (hm : s.moved? = some n) :
    (s.step K).world.heap.teardown n = .nothing := by
  obtain ⟨c, fs, v⟩ := s
  have hclear : (v.heap.clearHandle n).teardown n = .nothing :=
    (Heap.teardown_clearHandle ..).trans (if_pos rfl)
  simp only [moved?] at hm
  split at hm
  · cases hm
    simp only [step, stepCommand, stepAdd]
    split <;> exact hclear
  · cases hm

namespace World.Subscribed

open Scope

/-- Wherever a life has come to rest with the handle as it was, it owns all that leads to the code. -/
theorem accounted_of_held (h : w.Subscribed K code n past) (hr : w.Runs K code lived w')
    (hg : ∀ s ∈ past ++ lived, s.grounded = true) (hh : w'.heap.teardown n = w.heap.teardown n)
    (ho : Orderly code (past ++ lived)) :
    (ofTrace code True (past ++ lived)).SoundHeap (some n) w'.heap ∧
      (ofTrace code True (past ++ lived)).Accounted w'.heap (w'.heap.teardown n).parts := by
  by_cases hm : ∀ s ∈ lived, s.moved? ≠ some n
  · exact h.accounted_of_orderly hr hg hm ho
  · -- it was moved, so there was nothing in it from the start
    obtain ⟨s, hs, hmoved⟩ : ∃ s ∈ lived, s.moved? = some n := by simpa using hm
    have hempty := h.teardown_of_cleared hr hs (State.cleared_of_moved hmoved)
    have hnone : w.heap.kept (some n) = w.heap.kept none := hh.symm.trans hempty
    obtain ⟨hreg, hreg'⟩ := List.forall_mem_append.1 (h.regular True hr hg fun _ => ho)
    have hs := h.soundHeap hreg
    have ha := h.accounted hreg fun s hs => careful ho (List.mem_append_left _ hs) nofun
    have hs' : (ofTrace code True (past ++ lived)).SoundHeap none w.heap :=
      ⟨hs.entries, hs.tasks, hs.keeps, made_nothing, nofun⟩
    rw [hnone] at ha
    have hc : ∀ s ∈ lived, (ofTrace code True (past ++ lived)).Careful none s :=
      fun s hs => careful ho (List.mem_append_right _ hs) nofun
    have ha' := accounted_runs h.reserves hreg' hc hs' ha hr
    refine ⟨(sound_runs h.reserves hreg' hs hr).1, ?_⟩
    rw [hempty]
    exact ha'

/-- **Disposal between operations.** -/
theorem disposed [DecidableEq C] (h : w.Subscribed K code n past) (hr : w.Runs K code lived w')
    (hg : ∀ s ∈ past ++ lived, s.grounded = true) (hh : w'.heap.teardown n = w.heap.teardown n)
    (ho : Orderly code (past ++ lived)) :
    ∃ trace h', State.Ends K [] (w'.start (.dispose n)) trace ⟨.pass .done, [], h', w'.client⟩ ∧
      (∀ s ∈ trace, s.tells code = false) ∧
      (∀ o, h'.handlers o = (w'.heap.handlers o).filter (·.observer.code? ≠ some code)) ∧
      (∀ i, h'.roster (.subject i) = (w'.heap.roster (.subject i)).filter (·.2.code? ≠ some code)) ∧
      ∀ later w'', World.Runs K code ⟨h', w'.client⟩ later w'' → (∀ s ∈ later, s.grounded = true) →
        (∀ s ∈ later, s.tells code = false) ∧
        ∃ again, State.Ends K [] (w''.start (.dispose n)) again ⟨.pass .done, [], w''⟩ := by
  obtain ⟨hs, ha⟩ := h.accounted_of_held hr hg hh ho
  obtain ⟨l, h', hl, hu, hun⟩ := leads_dispose (K := K) (s := w'.start (.dispose n)) List.nil_suffix hs rfl
  have hend := hl.ends (.answer trivial rfl)
  rw [List.append_nil] at hend
  have hgone : (ofTrace code True (past ++ lived)).Accounted h' [] := by
    refine hun.accounted [] ?_
    rw [List.append_nil]
    exact ha.alike (w'.heap.alike_clearHandle n)
  have hothers := hun.others trivial trivial
  refine ⟨_, h', hend, List.forall_mem_cons.2 ⟨rfl, fun x hx => (hu x hx).tells_eq_false⟩,
    hothers.handlers_eq fun o x hx => hgone.unregistered trivial (Heap.mem_roster_handlers hx),
    hothers.observers_eq fun i e he => hgone.unregistered trivial he, fun later w'' hr' hg' => ?_⟩
  have hout : (Command.dispose n : Command F C).Outside code := trivial
  have hdispose : w.Disposes K code n lived (w'.start (.dispose n)) l later :=
    ⟨rfl, hh, w', .dispose n, _, w'', lived, [], hr, hout, hend, hr', (List.append_nil _).symm⟩
  have hrun : w.Runs K code (lived ++ w'.start (.dispose n) :: l ++ later) w'' := by
    simpa using hr.append (.command hout hend hr')
  have hg : ∀ s ∈ past ++ (lived ++ w'.start (.dispose n) :: l ++ later), s.grounded = true := by
    simp only [List.forall_mem_append, List.forall_mem_cons] at hg ⊢
    exact ⟨hg.1, ⟨hg.2, rfl, fun x hx => (hu x hx).1⟩, hg'⟩
  obtain ⟨hpast, hlife⟩ := List.forall_mem_append.1 (h.regular False hrun hg False.elim)
  have hsilent := silent_of_disposes (q := ofTrace code False _) h.reserves id (h.soundHeap hpast)
    (h.accounted_direct id hpast) hdispose hlife
  refine ⟨hsilent.2.2, World.ends_dispose_of_nothing (h.teardown_of_cleared hrun (s := w'.start (.dispose n))
    (by simp) (State.cleared_of_dispose rfl))⟩

end World.Subscribed

/-! ## A person who moves, and then nobody looks any more -/

theorem Client.reserves_recorder (held : List Node) : (recorder held).Reserves () where
  apply := nofun
  resume c signal w := by
    unfold recorder
    dsimp only
    split <;> exact ⟨.refl, trivial⟩

/-- The city of the person has been subscribed to by code that notes it. -/
def State.noting : State Empty Unit (List Value) :=
  (World.start ⟨.homesApart, []⟩ (.subscribe (Path.city.stream .after 3) (.client ()))).run
    (.recorder [.object 3]) 40

theorem World.disposed_noting :
    (Path.city.pipeline .after ⟨[("Person", .full)]⟩).observe 3 default =
        .ok (Path.city.stream (F := Empty) .after 3) ∧
      ∃ past lived w', State.noting.stored.Subscribed (.recorder [.object 3]) () 0 past ∧
        State.noting.stored.Runs (.recorder [.object 3]) () lived w' ∧
        ∃ trace h', State.Ends (.recorder [.object 3]) [] (w'.start (.dispose 0)) trace
            ⟨.pass .done, [], h', w'.client⟩ ∧
          (∀ s ∈ trace, s.tells () = false) ∧
          (∀ o, h'.handlers o = (w'.heap.handlers o).filter (·.observer.code? ≠ some ())) ∧
          (∀ i, h'.roster (.subject i) = (w'.heap.roster (.subject i)).filter (·.2.code? ≠ some ())) ∧
          ∀ later w'', World.Runs (.recorder [.object 3]) () ⟨h', w'.client⟩ later w'' →
            (∀ s ∈ later, s.grounded = true) → (∀ s ∈ later, s.tells () = false) ∧
              ∃ again, State.Ends (.recorder [.object 3]) [] (w''.start (.dispose 0)) again
                ⟨.pass .done, [], w''⟩ := by
  have h := subscribed_of_run (K := .recorder [.object 3]) 40 (Client.reserves_recorder _)
    Heap.fresh_homes (runs_homesApart _ ()) (x := Path.city.stream .after 3) (by decide +kernel)
  have ht : State.noting.stored.Traces (.recorder [.object 3]) [.set 3 "Address" (.object 1)] _ _ :=
    World.traces_states 40 (by decide +kernel)
  have hr : State.noting.stored.Runs (.recorder [.object 3]) () _ _ := ht.runs (by simp [Command.Outside])
  refine ⟨Path.observe_pipeline .city .after 3 (by decide) (by decide) _, _, _, _, h, hr, h.disposed hr ?_ rfl ?_⟩
  · decide +kernel
  · exact orderly_of_forall (by decide +kernel)

/-! ## A screen that is switched off -/

/-- Of a client that holds these things: code that notes each value it is given, and turns the screen to the
empty stream when it is told of Bergen. -/
def Client.switcher (held : List Node) : Client Empty Unit (List Value) where
  apply := nofun
  resume
    | _, .value (.text "Bergen"), w =>
      (⟨w.heap, w.client ++ [.text "Bergen"]⟩, .perform (.set 4 "Mode" (.stream 1)) ())
    | _, .value v, w => (⟨w.heap, w.client ++ [v]⟩, .finish)
    | _, _, w => (w, .finish)
  functionRefs := nofun
  codeRefs _ := []
  refs _ := held

theorem Client.reserves_switcher (held : List Node) : (switcher held).Reserves () where
  apply := nofun
  resume c signal w := by
    unfold switcher
    dsimp only
    split <;> exact ⟨.refl, trivial⟩

/-- Beside the homes there is a screen, which shows the city of the person or nothing. -/
def Heap.screened : Heap Empty Unit :=
  ((((homesApart.newObject "Screen" .full).2.newStream (Path.city.stream .after 3)).2.newStream .empty).2.put
    4 "Mode" (.stream 0))

theorem World.runs_screened (K : Client Empty Unit (List Value)) (code : Unit) :
    (⟨.homes, []⟩ : World Empty Unit (List Value)).Runs K code [] ⟨.screened, []⟩ :=
  .edit (.tail (.tail (.tail (.tail (.single (.put ..)) (.object ..)) (.stream ..)) (.stream ..)) (.put ..)) .nil

/-- What the screen shows has been subscribed to. -/
def State.shown : State Empty Unit (List Value) :=
  (World.start ⟨.screened, []⟩ (.subscribe (.switch (.watch 4 "Mode" .after) .stream) (.client ()))).run
    (.switcher [.object 3, .object 4]) 40

/-- The person moves to Bergen, and the screen is switched off when it says so: the switch of what was shown
is stopped while it subscribes to the city of the new address, and the handler there stays for good. -/
theorem World.strays_left :
    (⟨.watch ⟨"Mode", ⟨"Stream", false⟩, ⟨"Screen", false⟩⟩ .after, [.switch]⟩ : Pipeline).observe 4 default =
        .ok (.switch (.watch 4 "Mode" .after) .stream : Stream Empty) ∧
      ∃ past lived w', State.shown.stored.Subscribed (.switcher [.object 3, .object 4]) () 0 past ∧
        State.shown.stored.Runs (.switcher [.object 3, .object 4]) () lived w' ∧
        w'.heap.teardown 0 = State.shown.stored.heap.teardown 0 ∧
        ∃ trace e, State.Ends (.switcher [.object 3, .object 4]) [] (w'.start (.dispose 0)) trace e ∧
          ∃ x ∈ e.world.heap.handlers 1, x.observer.code? = some () := by
  have h := subscribed_of_run (K := .switcher [.object 3, .object 4]) 40 (Client.reserves_switcher _)
    Heap.fresh_homes (runs_screened _ ()) (x := .switch (.watch 4 "Mode" .after) .stream) (by decide +kernel)
  have ht : State.shown.stored.Traces (.switcher [.object 3, .object 4])
      [.set 3 "Address" (.object 1)] _ _ := World.traces_states 60 (by decide +kernel)
  refine ⟨rfl, _, _, _, h, ht.runs (by simp [Command.Outside]), rfl, _, _,
    State.ends_iff_run.2 ⟨40, rfl, by decide +kernel, rfl⟩, by decide +kernel⟩

end DataBinding
