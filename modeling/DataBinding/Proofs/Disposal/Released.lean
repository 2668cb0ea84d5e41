import DataBinding.Proofs.Disposal.Runs
import DataBinding.Proofs.Machine.Sessions
import DataBinding.Proofs.Quiet.Session
/-!
# Disposal releases everything

However a subscription is disposed of, be it while one of its own values is being delivered: when the
machine has come to rest, no handler of an object and no observer of a subject leads to its code any more,
if the run is orderly (`World.Subscribed.released`). It is not orderly if a switch of the subscription is
stopped while it subscribes to its latest inner stream: the switch then keeps the new inner subscription,
and nobody undoes it (`Path.observe_disposed_entering`).
-/

namespace DataBinding

variable {F C S : Type} {K : Client F C S} {code : C} {n : Nat} {past lived l : List (State F C S)}
  {w w' : World F C S}

/-! ## A subscription and its life -/

/-- The client has left the code to one subscription, which is now kept in this handle; these are the
states gone through since there was nothing subscribed to. -/
structure World.Subscribed (K : Client F C S) (code : C) (n : Nat) (past : List (State F C S))
    (w : World F C S) : Prop where
  reserves : K.Reserves code
  made : ∃ (w₀ w₁ : World F C S) (l₀ l₁ : List (State F C S)), w₀.heap.Fresh ∧ w₀.Runs K code l₀ w₁ ∧
    w₁.Takes K code l₁ w n ∧ past = l₀ ++ l₁

/-- The handle whose subscription is about to be moved into a composite. -/
def State.moved? (s : State F C S) : Option Nat :=
  match s.control with
  | .run (.add _ m) => some m
  | _ => none

/-- The handle that is about to be disposed of. -/
def State.disposes? (s : State F C S) : Option Nat :=
  match s.control with
  | .run (.dispose m) => some m
  | _ => none

/-- The state is at rest with a subscription for an answer. -/
def State.subscribes (s : State F C S) : Bool :=
  match s with
  | ⟨.pass (.subscription _), [], _⟩ => true
  | _ => false

/-- No switch or gate slips that was made for an observer that leads to the code. -/
def Orderly (code : C) (l : List (State F C S)) : Prop :=
  ∀ s ∈ l, ∀ p, s.slips? = some p → ∀ s' ∈ l, ∀ y, s'.made? = some (p, y) → y.code? ≠ some code

/-- A handle that is disposed of is emptied. -/
theorem State.cleared_of_dispose {s : State F C S} (hc : s.control = .run (.dispose n)) :
    (s.step K).world.heap.teardown n = .nothing := by
  obtain ⟨c, fs, v⟩ := s
  cases hc
  exact (Heap.teardown_clearHandle ..).trans (if_pos rfl)

namespace World.Subscribed

open Scope

variable {q : Scope C} {deep : Prop}

theorem forward (h : w.Subscribed K code n past) (hr : w.Runs K code lived w') :
    ∃ h₀, Forward K h₀ (past ++ lived) w'.heap := by
  obtain ⟨w₀, w₁, l₀, l₁, -, h₀, h₁, rfl⟩ := h.made
  exact ⟨_, ((Forward.runs h.reserves h₀).append (.takes h.reserves h₁)).append
    (.runs h.reserves hr)⟩

/-- The states of a life are regular for the scope that their trace tells. -/
theorem regular (h : w.Subscribed K code n past) (deep : Prop) (hr : w.Runs K code lived w')
    (hg : ∀ s ∈ past ++ lived, s.grounded = true)
    (hs : deep → Orderly code (past ++ lived)) :
    ∀ s ∈ past ++ lived, (ofTrace code deep (past ++ lived)).Regular s := by
  obtain ⟨h₀, f⟩ := h.forward hr
  refine fun s hm => regular_ofTrace f hm (hg s hm) fun i hi hd ⟨s', hs', y, hy, hc⟩ => ?_
  exact hs hd s hm _ hi s' hs' y hy ((covers_iff hd y).1 hc)

/-- In an orderly life no panic loses what leads to the code. -/
theorem careful {hd : Option Nat} (ho : Orderly code l) {s : State F C S} (hs : s ∈ l)
    (ha : ∀ m, s.moved? = some m → hd ≠ some m) : (ofTrace code True l).Careful hd s := by
  have hlost : ∀ p, s.slips? = some p → ¬ ∃ s' ∈ l, ∃ y, s'.made? = some (p, y) ∧
      (⟨code, True, fun _ => False, fun _ => False⟩ : Scope C).Covers y :=
    fun p hp ⟨s', hs', y, hy, hc⟩ => ho s hs p hp s' hs' y hy ((covers_iff trivial y).1 hc)
  refine ⟨fun c m hc => ha m (by simp [State.moved?, hc]), fun m f fs hc hf => ?_⟩
  cases f with
  | relocating g => exact hlost (.gate g) (by simp [State.slips?, hc, hf])
  | opening i => exact hlost (.switch i) (by simp [State.slips?, hc, hf])
  | closing i => exact fun hl => hlost (.switch i) (by simp [State.slips?, hc, hf]) hl.2
  | _ => exact id

theorem soundHeap (h : w.Subscribed K q.code n past) (hr : ∀ s ∈ past, q.Regular s) :
    q.SoundHeap (some n) w.heap := by
  obtain ⟨w₀, w₁, l₀, l₁, hf, h₀, h₁, rfl⟩ := h.made
  obtain ⟨hr₀, hr₁⟩ := List.forall_mem_append.1 hr
  have hs := (sound_runs h.reserves hr₀ (sound_fresh hf) h₀).1
  exact (sound_takes h.reserves hr₁ hs h₁).1

theorem accounted (h : w.Subscribed K q.code n past) (hr : ∀ s ∈ past, q.Regular s)
    (hc : ∀ s ∈ past, q.Careful none s) : q.Accounted w.heap (w.heap.kept (some n)).parts := by
  obtain ⟨w₀, w₁, l₀, l₁, hf, h₀, h₁, rfl⟩ := h.made
  obtain ⟨hr₀, hr₁⟩ := List.forall_mem_append.1 hr
  obtain ⟨hc₀, hc₁⟩ := List.forall_mem_append.1 hc
  have hs := (sound_runs h.reserves hr₀ (sound_fresh hf) h₀).1
  have ha := accounted_runs h.reserves hr₀ hc₀ (sound_fresh hf) (accounted_fresh hf _) h₀
  have ha : q.Accounted w₁.heap [] := by simpa [Heap.kept] using ha
  exact (sound_takes h.reserves hr₁ hs h₁).2 hc₁ ha

/-- Wherever a life has come to rest, the handle owns all that leads to the code. -/
theorem accounted_of_orderly (h : w.Subscribed K code n past) (hr : w.Runs K code lived w')
    (hg : ∀ s ∈ past ++ lived, s.grounded = true) (hm : ∀ s ∈ lived, s.moved? ≠ some n)
    (ho : Orderly code (past ++ lived)) :
    (ofTrace code True (past ++ lived)).SoundHeap (some n) w'.heap ∧
      (ofTrace code True (past ++ lived)).Accounted w'.heap (w'.heap.teardown n).parts := by
  obtain ⟨hreg, hreg'⟩ := List.forall_mem_append.1 (h.regular True hr hg fun _ => ho)
  have hs := h.soundHeap hreg
  have ha := h.accounted hreg fun s hs => careful ho (List.mem_append_left _ hs) nofun
  have hc : ∀ s ∈ lived, (ofTrace code True (past ++ lived)).Careful (some n) s := fun s hs =>
    careful ho (List.mem_append_right _ hs) fun m he hn => by
      cases hn
      exact hm s hs he
  exact ⟨(sound_runs h.reserves hreg' hs hr).1, accounted_runs h.reserves hreg' hc hs ha hr⟩

theorem lt_size (h : w.Subscribed K code n past) : n < w.heap.handles.size := by
  obtain ⟨w₀, w₁, l₀, l₁, -, -, h₁, -⟩ := h.made
  cases h₁ with
  | stream => simp [World.withHeap, Heap.newHandle]
  | handler => simp [World.withHeap, Heap.newHandle, Heap.addHandler]

/-- A handle that has been emptied stays empty. -/
theorem teardown_of_cleared (h : w.Subscribed K code n past) (hr : w.Runs K code lived w')
    {s : State F C S} (hs : s ∈ lived) (hc : (s.step K).world.heap.teardown n = .nothing) :
    w'.heap.teardown n = .nothing := by
  have f := Forward.runs h.reserves hr
  have hl := (f.start s hs).trans (Forward.later_step h.reserves s)
  rcases (f.upto s hs).retains.teardown n (Nat.lt_of_lt_of_le h.lt_size hl.retains.size) with ht | ht
  · exact ht.trans hc
  · exact ht

/-- **Disposal releases everything.** -/
theorem released (h : w.Subscribed K code n past) (hr : w.Runs K code lived w')
    (hg : ∀ s ∈ past ++ lived, s.grounded = true) (hm : ∀ s ∈ lived, s.moved? ≠ some n)
    (ho : Orderly code (past ++ lived)) (hd : ∃ s ∈ lived, s.control = .run (.dispose n)) :
    (∀ o, ∀ x ∈ w'.heap.handlers o, x.observer.code? ≠ some code) ∧
      ∀ i, ∀ y ∈ w'.heap.observers i, y.code? ≠ some code := by
  obtain ⟨-, ha⟩ := h.accounted_of_orderly hr hg hm ho
  obtain ⟨s, hs, hc⟩ := hd
  have hcleared := h.teardown_of_cleared hr hs (State.cleared_of_dispose hc)
  rw [hcleared, Teardown.parts_nothing] at ha
  refine ⟨fun o x hx => ha.unregistered trivial (Heap.mem_roster_handlers hx), fun i y hy => ?_⟩
  obtain ⟨id, he⟩ := Heap.exists_mem_roster hy
  exact ha.unregistered trivial he

end World.Subscribed

/-! ## A person who leaves -/

theorem orderly_of_forall (h : ∀ s ∈ l, s.slips? = none) : Orderly code l :=
  fun s hs p hp => absurd hp (by simp [h s hs])

theorem State.disposes?_eq_some {s : State F C S} :
    s.disposes? = some n ↔ s.control = .run (.dispose n) := by
  simp only [disposes?]
  split <;> simp_all

/-- Commands of others one after the other are a run. -/
theorem World.Traces.runs {commands : List (Command F C)} (h : w.Traces K commands l w')
    (hc : ∀ c ∈ commands, c.Outside code) : w.Runs K code l w' := by
  induction h with
  | nil => exact .nil
  | cons he _ ih =>
    obtain ⟨hc, hc'⟩ := List.forall_mem_cons.1 hc
    exact .command hc he (ih hc')

/-- Keep the subscription that the state answers. -/
def State.stored (s : State F C S) : World F C S :=
  s.world.withHeap (s.world.heap.newHandle
    (match s.control with | .pass signal => signal.teardown | _ => .nothing)).2

theorem State.eq_of_subscribes {s : State F C S} (h : s.subscribes = true) :
    ∃ t v, s = ⟨.pass (.subscription t), [], v⟩ := by
  simp only [subscribes] at h
  split at h
  · exact ⟨_, _, rfl⟩
  · cases h

/-- What a subscription of so many steps at most leaves, if it has come to its end by then. -/
theorem World.subscribed_of_run {w₀ : World F C S} {x : Stream F} (limit : Nat) (hK : K.Reserves code)
    (hf : w₀.heap.Fresh) (hr : w₀.Runs K code past w)
    (ha : ((w.start (.subscribe x (.client code))).run K limit).subscribes = true) :
    ((w.start (.subscribe x (.client code))).run K limit).stored.Subscribed K code
      ((w.start (.subscribe x (.client code))).run K limit).world.heap.handles.size
      (past ++ (w.start (.subscribe x (.client code))).visited K limit) := by
  obtain ⟨t, v, he⟩ := State.eq_of_subscribes ha
  refine ⟨hK, w₀, w, past, _, hf, hr, ?_, rfl⟩
  rw [he]
  exact .stream (State.ends_iff_run.2 ⟨limit, he, rfl, rfl⟩)

/-- Of a client that holds these things: code that notes each value it is given, and disposes of the first
handle when it is told of Bergen. -/
def Client.leaver (held : List Node) : Client Empty Unit (List Value) where
  apply := nofun
  resume
    | _, .value (.text "Bergen"), w => (⟨w.heap, w.client ++ [.text "Bergen"]⟩, .perform (.dispose 0) ())
    | _, .value v, w => (⟨w.heap, w.client ++ [v]⟩, .finish)
    | _, _, w => (w, .finish)
  functionRefs := nofun
  codeRefs _ := []
  refs _ := held

theorem Client.reserves_leaver (held : List Node) : (leaver held).Reserves () where
  apply := nofun
  resume c signal w := by
    unfold leaver
    dsimp only
    split <;> exact ⟨.refl, trivial⟩

theorem Heap.fresh_homes : (homes : Heap F C).Fresh where
  rosters n := by
    cases n with
    | object o => simp [roster, handlers_homes]
    | _ => rfl
  tasks _ _ := nofun
  switches := rfl
  gates := rfl

/-- The second address is in Bergen. -/
def Heap.homesApart : Heap F C := homes.put 1 "City" (.text "Bergen")

theorem World.runs_homesApart (K : Client F C (List Value)) (code : C) :
    (⟨.homes, []⟩ : World F C (List Value)).Runs K code [] ⟨.homesApart, []⟩ :=
  .edit (.single (.put ..)) .nil

/-- The city of the person has been subscribed to by code that leaves. -/
def State.boarded : State Empty Unit (List Value) :=
  (World.start ⟨.homesApart, []⟩ (.subscribe (Path.city.stream .after 3) (.client ()))).run
    (.leaver [.object 3]) 40

theorem World.subscribed_boarded : ∃ past, (∀ s ∈ past, s.grounded = true ∧ s.slips? = none) ∧
    State.boarded.stored.Subscribed (.leaver [.object 3]) () 0 past := by
  have h := subscribed_of_run (K := .leaver [.object 3]) 40 (Client.reserves_leaver _)
    Heap.fresh_homes (runs_homesApart _ ()) (x := Path.city.stream .after 3) (by decide +kernel)
  exact ⟨_, by decide +kernel, h⟩

/-- The first address comes to be in Bergen: the person leaves when told so, and all is released. -/
theorem Path.observe_released_leaving :
    (Path.city.pipeline .after ⟨[("Person", .full)]⟩).observe 3 default =
        .ok (Path.city.stream (F := Empty) .after 3) ∧
      ∃ past lived w', State.boarded.stored.Subscribed (.leaver [.object 3]) () 0 past ∧
        State.boarded.stored.Runs (.leaver [.object 3]) () lived w' ∧ (∃ s ∈ lived, s.control = .run (.dispose 0)) ∧
        (∀ o, ∀ x ∈ w'.heap.handlers o, x.observer.code? ≠ some ()) ∧
        ∀ i, ∀ y ∈ w'.heap.observers i, y.code? ≠ some () := by
  obtain ⟨past, hpast, h⟩ := World.subscribed_boarded
  have ht : State.boarded.stored.Traces (.leaver [.object 3]) [.set 0 "City" (.text "Bergen")] _ _ :=
    World.traces_states 40 (by decide +kernel)
  have hr : State.boarded.stored.Runs (.leaver [.object 3]) () _ _ := ht.runs (by simp [Command.Outside])
  have hlived : ∀ s ∈ State.boarded.stored.states (.leaver [.object 3]) 40
      [.set 0 "City" (.text "Bergen")], s.grounded = true ∧ s.slips? = none ∧ s.moved? ≠ some 0 := by
    decide +kernel
  have hd : ∃ s ∈ State.boarded.stored.states (.leaver [.object 3]) 40
      [.set 0 "City" (.text "Bergen")], s.control = .run (.dispose 0) := by
    simp only [← State.disposes?_eq_some]
    decide +kernel
  refine ⟨observe_pipeline .city .after 3 (by decide) (by decide) _, past, _, _, h, hr, hd, ?_⟩
  exact h.released hr
    (List.forall_mem_append.2 ⟨fun s hs => (hpast s hs).1, fun s hs => (hlived s hs).1⟩)
    (fun s hs => (hlived s hs).2.2)
    (orderly_of_forall
      (List.forall_mem_append.2 ⟨fun s hs => (hpast s hs).2, fun s hs => (hlived s hs).2.1⟩)) hd

/-- The person moves to Bergen, and leaves when told so: the switch is stopped while it subscribes to the
city of the new address, and the handler there stays. -/
theorem Path.observe_disposed_entering :
    (Path.city.pipeline .after ⟨[("Person", .full)]⟩).observe 3 default =
        .ok (Path.city.stream (F := Empty) .after 3) ∧
      ∃ past lived w', State.boarded.stored.Subscribed (.leaver [.object 3]) () 0 past ∧
        State.boarded.stored.Runs (.leaver [.object 3]) () lived w' ∧ (∃ s ∈ lived, s.control = .run (.dispose 0)) ∧
        ∃ x ∈ w'.heap.handlers 1, x.observer.code? = some () := by
  obtain ⟨past, -, h⟩ := World.subscribed_boarded
  have ht : State.boarded.stored.Traces (.leaver [.object 3]) [.set 3 "Address" (.object 1)] _ _ :=
    World.traces_states 40 (by decide +kernel)
  refine ⟨observe_pipeline .city .after 3 (by decide) (by decide) _, past, _, _, h,
    ht.runs (by simp [Command.Outside]), ?_, by decide +kernel⟩
  simp only [← State.disposes?_eq_some]
  decide +kernel

end DataBinding
