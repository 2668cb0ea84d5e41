import DataBinding.Proofs.Course.Lane
import DataBinding.Proofs.Disposal.Between
import DataBinding.Proofs.TwoWay.Effects
/-!
# First values

Who subscribes to a path is told what is read along it before the subscription is handed back, and nothing else
unless it stores something meanwhile (`Path.observed_once`): by then only handlers lead to it, and handlers hear of
nothing as long as no change is announced (`State.Hushed`). A path that is read once leaves no handler behind, so
nothing more is told later either.
-/

namespace DataBinding

variable {F C S : Type} {K : Client F C S} {code : C} {base fs gs : List (Frame F C)} {s e : State F C S}
  {l : List (State F C S)} {v : Value} {x : Stream F} {root : ObjectId}

namespace State

/-! ## While no change is announced -/

/-- Nobody leads to the code but by way of handlers, and above these frames no change is being announced. -/
structure Hushed (code : C) (base : List (Frame F C)) (s : State F C S) : Prop where
  going : s.Going (.vacant code) s.world.heap.There fun _ => False
  subjects : ∀ i, ∀ e ∈ s.world.heap.roster (.subject i), e.2.Clear (.vacant code) s.world.heap.There
  tasks : ∀ i l, s.world.heap.tasks? i = some l → ∀ t ∈ l, t.Clear (.vacant code) s.world.heap.There i
  above : Stacked False base s.frames

/-- Nothing is told to the code now. -/
theorem Going.value?_eq_none [DecidableEq F] [DecidableEq C] {there : Spot → Prop}
    (hs : s.Going (.vacant code) there fun _ => False) : s.value? (.client code) = none := by
  refine State.value?_eq_none fun v hv => ?_
  have hc := hs.control
  rw [hv] at hc
  rcases hc with (hgiven | hleaf) | hfalse
  · exact hgiven
  · exact hleaf rfl
  · exact hfalse

namespace Hushed

variable (hs : s.Hushed code base)
include hs

/-- If nothing is stored, no handlers are called upon. -/
theorem recalls (hn : s.control.IsAnswer → s.frames ≠ base) (hstored : s.stored? = none) :
    s.Recalls (.vacant code) s.world.heap.There where
  set o p v hc hne := by simp [stored?, hc, hne] at hstored
  announcing signal o p old new fs hc hf := by
    have habove := hs.above
    have hne := hn (hc ▸ trivial)
    rw [hf] at habove hne
    exact absurd trivial ((habove.popped hne).1 id)
  observers i y hy := by
    obtain ⟨id, he⟩ := Heap.exists_mem_roster hy
    exact hs.subjects i _ he
  tasks := hs.tasks

theorem above_step (hn : s.control.IsAnswer → s.frames ≠ base) (hstored : s.stored? = none) :
    Stacked False base (s.step K).frames := by
  have habove := hs.above
  rcases stacked_step K s with hstep | ⟨hc, hstep⟩
  · refine habove.trans (hstep.imp ?_)
    rintro ⟨o, p, v, hc, hne⟩
    simp [stored?, hc, hne] at hstored
  · have hne := hn hc
    cases hf : s.frames with
    | nil =>
      rw [hf] at habove hstep
      exact habove.trans hstep
    | cons f fs =>
      rw [hf] at habove hstep hne
      exact (habove.popped hne).2.trans hstep

theorem step (hm : s.Minds K code) (hn : s.control.IsAnswer → s.frames ≠ base) (hstored : s.stored? = none) :
    (s.step K).Hushed code base := by
  have hu := uses_step hm
  have hmore : (Passage.vacant code : Passage F C).Eases s.world.heap.There (.vacant code)
      (s.step K).world.heap.There := Passage.eases_of_le hu.there
  have hgoing := hs.going.eased hmore
  have hsound : (Passage.vacant code : Passage F C).Sound (s.step K).world.heap.There code := Passage.sound_vacant _
  refine ⟨?_, fun i => ?_, ?_, hs.above_step hn hstored⟩
  · refine (Clear.step_going hm hsound hgoing ((hs.recalls hn hstored).eased hmore) ?_).imp fun _ h => h.1
    exact fun p hp _ => ⟨hp, nofun⟩
  · exact Clear.step_entries hm hsound hgoing fun e he => (hs.subjects i e he).eased hmore
  · exact Clear.step_tasks hm hgoing fun i l hl t ht => (hs.tasks i l hl t ht).eased hmore

/-- Until the call answers the code is told nothing. -/
theorem values_eq_nil [DecidableEq F] [DecidableEq C] (hm : ∀ x : State F C S, x.Minds K code)
    (hstored : ∀ x ∈ l, x.stored? = none) (h : Ends K base s l e) : values (.client code) l = [] := by
  induction h with
  | answer => rfl
  | step hn _ ih =>
    obtain ⟨hx, hl⟩ := List.forall_mem_cons.1 hstored
    exact (List.filterMap_cons_none hs.going.value?_eq_none).trans (ih (hs.step (hm _) hn hx) hl)

end Hushed

end State

/-! ## Told once -/

/-- The observer comes to be told this value, and if it returns, a subscription is handed back. Unless it stores
something meanwhile it is told nothing else until then. -/
structure State.TellsFirst [DecidableEq F] [DecidableEq C] (K : Client F C S) (code : C) (v : Value)
    (s : State F C S) : Prop where
  told : ∃ l gs h, Leads K s.frames s l ⟨.run (.deliver (.client code) v), gs ++ s.frames, h, s.world.client⟩ ∧
    values (.client code) l = [] ∧ s.world.heap.Agrees h ∧
      ∀ l' signal w, Ends K (gs ++ s.frames) ⟨.run (.deliver (.client code) v), gs ++ s.frames, h, s.world.client⟩ l'
          ⟨.pass signal, gs ++ s.frames, w⟩ →
        ∃ l'' t h', Ends K s.frames s l'' ⟨.pass (.subscription t), s.frames, h', w.client⟩ ∧ w.heap.Agrees h'
  once : ∀ l e, Ends K s.frames s l e → (∀ x ∈ l, x.stored? = none) → values (.client code) l = [v]

/-- The observer is told this value at once, with nobody registered anywhere, and what is handed back has nothing to
undo. Nothing more is ever told, and nobody ever leads to the observer. -/
structure State.TellsOnly [DecidableEq F] [DecidableEq C] (K : Client F C S) (code : C) (v : Value)
    (s : State F C S) : Prop where
  told : s.step K = ⟨.run (.deliver (.client code) v), .subscribed (.client code) .nothing :: s.frames, s.world⟩
  back : ∀ signal w, State.step K ⟨.pass signal, .subscribed (.client code) .nothing :: s.frames, w⟩ =
    ⟨.pass (.subscription .nothing), s.frames, w⟩
  ever : ∀ l e, s.Continues K code l e → l ≠ [] →
    values (.client code) (l ++ [e]) = [v] ∧ ∀ x ∈ l ++ [e], x.Unheard code

theorem Heap.Tapped.there {taps : List (ObjectId × String)} {h h' : Heap F C} (ht : h.Tapped taps h') (p : Spot)
    (hp : h.There p) : h'.There p := by
  cases p with
  | counter i => exact lt_of_lt_of_eq hp (congrArg Array.size ht.counters.symm)
  | memory i => exact Nat.lt_of_lt_of_le hp ht.memories
  | join i => exact lt_of_lt_of_eq hp (congrArg Array.size ht.joins.symm)
  | gate i => exact lt_of_lt_of_eq hp (congrArg Array.size ht.gates.symm)
  | queue i => exact lt_of_lt_of_eq hp (congrArg Array.size ht.schedulers.symm)

/-- The frames that hand a subscription back lead nowhere, and announce nothing. -/
theorem Frame.Opening.idle (hg : Frame.Opening gs) (q : Passage F C) (there : Spot → Prop) :
    ∀ f ∈ gs, f.Clear q there ∧ ¬ f.Announces := by
  induction hg with
  | subscribed => exact List.forall_mem_singleton.2 ⟨trivial, id⟩
  | opening i _ ih => exact List.forall_mem_append.2 ⟨ih, List.forall_mem_singleton.2 ⟨trivial, id⟩⟩
  | entering i n inner y _ _ ih =>
    exact List.forall_mem_cons.2 ⟨⟨trivial, id⟩, List.forall_mem_cons.2 ⟨⟨trivial, id⟩, ih⟩⟩

theorem State.Passes.value? [DecidableEq F] [DecidableEq C] (hs : s.Passes) : s.value? (.client code) = none := by
  refine State.value?_eq_none fun v hv => ?_
  simp only [State.Passes, hv] at hs

/-- The observer has had its value and is about to be dealt with: nobody else leads to it by then but handlers. -/
theorem State.Unheard.hushed {taps : List (ObjectId × String)} {h' : Heap F C} (hu : s.Unheard code)
    (ht : s.world.heap.Tapped taps h') (hg : Frame.Opening gs) :
    State.Hushed code s.frames (⟨.resume code (.value v), gs ++ s.frames, h', s.world.client⟩ : State F C S) := by
  have hmore : (Passage.vacant code : Passage F C).Eases s.world.heap.There (.vacant code) h'.There :=
    Passage.eases_of_le ht.there
  have hidle := hg.idle (.vacant code) h'.There
  refine ⟨⟨trivial, ?_⟩, fun i e he => ?_, fun i l hl t hm => ?_, gs, rfl, fun _ f hf => (hidle f hf).2⟩
  · exact List.forall_mem_append.2 ⟨fun f hf => (hidle f hf).1, fun f hf => (hu.frames f hf).eased hmore⟩
  · have hold : e ∈ s.world.heap.roster (.subject i) := by
      simpa only [Heap.roster, ht.subjects] using he
    exact (hu.heap.entries _ e hold).eased hmore
  · have hold : s.world.heap.tasks? i = some l := by
      simpa only [Heap.tasks?, ht.schedulers] using hl
    exact (hu.heap.tasks i l hold t hm).eased hmore

/-- Where nobody leads to the code, it is told nothing, whatever happens, unless it subscribes. -/
theorem State.Clear.silent [DecidableEq F] [DecidableEq C] (hs : s.Clear (.vacant code) (Passage.vacant code).inside)
    (h : s.Continues K code l e) : values (.client code) (l ++ [e]) = [] ∧ ∀ x ∈ l ++ [e], x.Unheard code := by
  have hclear := hs.along (Passage.sound_vacant _) h
  exact ⟨List.filterMap_eq_nil_iff.2 fun x hx => (hclear x hx).going.value?_eq_none,
    fun x hx => ⟨(hclear x hx).going.frames, (hclear x hx).heap⟩⟩

section Told
variable [DecidableEq F] [DecidableEq C] (hs : s.control = .run (.subscribe x (.client code))) (hu : s.Unheard code)
include hs hu

/-- A stream that yields a value tells it first. -/
theorem Stream.Yields.tellsFirst {taps : List (ObjectId × String)} (hK : K.Reserves code)
    (hx : x.Yields K s.world.client s.world.heap root taps v)
    (hl : (Observer.client code).Lives K s.world.client s.world.heap s.frames root) : s.TellsFirst K code v := by
  obtain ⟨c, fs, h, k⟩ := s
  cases hs
  obtain ⟨h', gs, ht, hg, l, hlead, hp⟩ := hx h (.client code) fs (.refl h) hl
  have hnone : values (.client code) l = [] := List.filterMap_eq_nil_iff.2 fun x hx => (hp x hx).value?
  refine ⟨⟨l, gs, h', hlead, hnone, ht.agrees, fun l' signal w hend => ?_⟩, fun l' e hend hstored => ?_⟩
  · obtain ⟨t, h'', ha, l'', hback, -⟩ := hg.handsBack (K := K) (k := w.client) signal fs w.heap
    have hsub : fs <:+ gs ++ fs := List.suffix_append ..
    exact ⟨_, t, h'', hlead.ends (hend.call hsub (List.suffix_refl _) (hback.ends (.answer trivial rfl))), ha⟩
  · obtain ⟨l₁, rfl, h₁⟩ := hlead.rest hend
    obtain ⟨l₂, rfl, h₂⟩ := h₁.next (absurd · id)
    have hrest := hu.hushed (v := v) ht hg
    have hquiet : values (.client code) l₂ = [] :=
      hrest.values_eq_nil hK.minds (fun y hy => hstored y (by simp [hy])) h₂
    have htold : values (.client code) (⟨.run (.deliver (.client code) v), gs ++ fs, h', k⟩ :: l₂) = [v] := by
      rw [values, List.filterMap_cons_some (State.value?_self rfl)]
      exact congrArg _ hquiet
    rw [values_append, hnone, htold]
    rfl

/-- What is read once is told once, and nothing is left behind. -/
theorem Path.tellsOnly {p : Path} (hx : x = .constant root p) (hl : s.alive K (.object root) = true) :
    s.TellsOnly K code (s.world.heap.readPath root p) := by
  subst hx
  obtain ⟨c, fs, w⟩ := s
  cases hs
  have hstep := State.step_constant hl
  refine ⟨hstep, fun _ _ => rfl, fun l e hrun hne => ?_⟩
  -- the frame that hands the subscription back is all that has been added
  have hframes : ∀ f ∈ .subscribed (.client code) .nothing :: fs, f.Clear (.vacant code) w.heap.There :=
    List.forall_mem_cons.2 ⟨trivial, hu.frames⟩
  obtain ⟨rfl, -⟩ | ⟨l₁, rfl, h₁⟩ := hrun.of_run rfl
  · exact absurd rfl hne
  rw [hstep] at h₁
  have hsilent : State.value? (.client code)
      (⟨.run (.subscribe (.constant root p) (.client code)), fs, w⟩ : State F C S) = none :=
    State.value?_eq_none nofun
  have htold := State.value?_self (y := .client code) (s := ⟨.run (.deliver (.client code) (w.heap.readPath root p)),
    .subscribed (.client code) .nothing :: fs, w⟩) rfl
  obtain ⟨rfl, rfl⟩ | ⟨l₂, rfl, h₂⟩ := h₁.of_run rfl
  · refine ⟨?_, List.forall_mem_cons.2 ⟨hu, List.forall_mem_singleton.2 ⟨hframes, hu.heap⟩⟩⟩
    simp [values, hsilent, htold]
  · obtain ⟨hquiet, hunheard⟩ := State.Clear.silent (by exact ⟨⟨trivial, hframes⟩, hu.heap⟩) h₂
    refine ⟨?_, List.forall_mem_cons.2 ⟨hu, List.forall_mem_cons.2 ⟨⟨hframes, hu.heap⟩, hunheard⟩⟩⟩
    rw [List.cons_append, List.cons_append, values, List.filterMap_cons_none hsilent, List.filterMap_cons_some htold]
    exact congrArg _ hquiet

end Told

/-! ## Paths -/

theorem Stream.refs_followed (functionRefs : F → List Node) (links : List Segment) (t : Timing) (x : Stream F) :
    (links.foldl (fun y s => y.follow s t) x).refs functionRefs = x.refs functionRefs := by
  induction links generalizing x with
  | nil => rfl
  | cons s links ih => exact ih _

/-- A path can always be observed. The stream keeps nothing alive, and a constant reads the path. -/
theorem Path.exists_observed (p : Path) (t : Timing) (caps : Capabilities) (root : ObjectId) (a : Arguments F)
    (functionRefs : F → List Node) : ∃ x, (p.pipeline t caps).observe root a = .ok x ∧ x.refs functionRefs = [] ∧
      ((p.pipeline t caps).isConstant = true → x = .constant root p) := by
  have hlinks := Stream.refs_followed functionRefs p.links t (.watch root p.root.property t)
  unfold pipeline
  split
  · exact ⟨_, rfl, rfl, fun _ => rfl⟩
  split
  · exact ⟨_, rfl, rfl, nofun⟩
  · unfold Staged.andThenIf
    split
    · exact ⟨_, rfl, hlinks, nofun⟩
    · exact ⟨_, rfl, hlinks, nofun⟩

/-- **Whoever subscribes to a path is told what is read along it, first and once.** It is so however the path is
observed, by a watch, by following its links or by reading it once, and in the last case it is all that is ever
told. -/
theorem Path.observed_once [DecidableEq F] [DecidableEq C] (hK : K.Reserves code) (p : Path) (t : Timing)
    (caps : Capabilities) (root : ObjectId) (a : Arguments F) :
    ∃ x, (p.pipeline t caps).observe root a = .ok x ∧
      ∀ s : State F C S, s.control = .run (.subscribe x (.client code)) → s.Unheard code → s.world.heap.Closed →
        s.alive K (.object root) = true →
        s.TellsFirst K code (s.world.heap.readPath root p) ∧
          ((p.pipeline t caps).isConstant = true → s.TellsOnly K code (s.world.heap.readPath root p)) := by
  obtain ⟨x, hx, hrefs, hconstant⟩ := p.exists_observed t caps root a K.functionRefs
  refine ⟨x, hx, fun s hs hu hc hl => ⟨?_, fun hp => Path.tellsOnly hs hu (hconstant hp) hl⟩⟩
  have hlives : (Observer.client code).Lives K s.world.client s.world.heap s.frames root := by
    obtain ⟨c, fs, w⟩ := s
    cases hs
    exact .of_alive hrefs hl
  exact (Path.yields_pipeline hc hx).tellsFirst hs hu hK hlives

/-- The city of a person, which is Oslo, whether or not persons are known to raise notifications. -/
theorem Path.city_observed_once : (Client.recorder [.object 3]).Reserves () ∧
    (∃ x, (city.pipeline .after ⟨[("Person", .full)]⟩).observe 3 default = .ok x ∧
      (World.start ⟨.homes, []⟩ (.subscribe x (.client ()))).TellsFirst (.recorder [.object 3]) () (.text "Oslo")) ∧
    ∃ x, (city.pipeline .after ⟨[]⟩).observe 3 default = .ok x ∧
      (World.start ⟨.homes, []⟩ (.subscribe x (.client ()))).TellsFirst (.recorder [.object 3]) () (.text "Oslo") ∧
      (World.start ⟨.homes, []⟩ (.subscribe x (.client ()))).TellsOnly (.recorder [.object 3]) () (.text "Oslo") := by
  have hK := Client.reserves_recorder [.object 3]
  have halive : ∀ x, State.alive (.recorder [.object 3])
      (World.start ⟨.homes, []⟩ (.subscribe x (.client ()))) (.object 3) = true := fun x =>
    State.alive_of_kept _ (List.Subset.refl _) (.inl List.mem_cons_self)
  have hunheard : ∀ x, State.Unheard () (World.start ⟨.homes, []⟩ (.subscribe x (.client ()))
      : State Empty Unit (List Value)) := fun _ => ⟨nofun, Heap.fresh_homes.empty_clear⟩
  obtain ⟨x, hx, hfirst⟩ := Path.observed_once hK city .after ⟨[("Person", .full)]⟩ 3 default
  obtain ⟨y, hy, honce⟩ := Path.observed_once hK city .after ⟨[]⟩ 3 default
  refine ⟨hK, ⟨x, hx, (hfirst _ rfl (hunheard x) Heap.closed_homes (halive x)).1⟩, y, hy, ?_⟩
  exact (honce _ rfl (hunheard y) Heap.closed_homes (halive y)).imp_right fun h => h rfl

end DataBinding
