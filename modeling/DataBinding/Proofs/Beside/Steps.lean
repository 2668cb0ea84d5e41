import DataBinding.Proofs.Beside.Links
import DataBinding.Proofs.Heap.Pairs
/-!
# Steps of both runs

Where both runs are at the same command, or pass a signal to the same frame, they go on with the same
(`Setting.proceeds_command`, `Setting.proceeds_frame`).
-/

namespace DataBinding

variable {F C S : Type} {q : Setting F C S} {ρ ρ' : Ties}

/-! ## What is read in both runs -/

namespace Heap.Mirrors

variable {h h' : Heap F C} (hm : h.Mirrors q ρ h')
include hm

theorem eqv {u u' v v' : Value} (hu : q.alike ρ u u') (hv : q.alike ρ v v') : u.eqv v = u'.eqv v' := by
  refine Value.Alike.eqv (fun i i' j j' hi hi' => ⟨?_, ?_⟩) hu hv
  · rintro rfl
    exact (hm.sound .stream).left hi hi'
  · rintro rfl
    exact (hm.sound .stream).right hi hi'

/-- Either both cells remember a value equal to the one that is given now, or none does. -/
theorem any_eqv {i j : Nat} (hij : (ρ .memory).pair i j) {v v' : Value} (hv : q.alike ρ v v') :
    (h.memory i).any (·.eqv v) = (h'.memory j).any (·.eqv v') := by
  have hc : Option.Rel (q.alike ρ) (h.memory i) (h'.memory j) := hm.cells .memory i j hij
  generalize h.memory i = u at hc ⊢
  generalize h'.memory j = u' at hc ⊢
  cases hc with
  | none => rfl
  | some hu => simp only [Option.any_some, hm.eqv hu hv]

theorem handlersFor (o : ObjectId) (t : Timing) (p : String) :
    Sifted (Handler.Alike q ρ o) (Handler.Alien q ρ o) (h.handlersFor o t p) (h'.handlersFor o t p) := by
  rw [handlersFor_eq, handlersFor_eq, hm.supports]
  split
  · refine (hm.handlers o).filter fun x y hxy => ?_
    rw [hxy.timing, hxy.property]
  · exact .nil

theorem observers (j : SubjectId) :
    Sifted (Observer.Alike q ρ) (Observer.Alien q ρ) (h.observers j) (h'.observers j) := by
  rw [observers_eq_map_roster, observers_eq_map_roster]
  exact (hm.listeners j).map (fun _ _ hxy => hxy.observer) fun _ hy => hy.observer

/-- The same inner stream is taken from a value. -/
theorem inner {v v' : Value} (hv : q.alike ρ v v') (select : Selection) :
    (select.inner h v).Alike q (ρ .stream).pair (select.inner h' v') := by
  cases select with
  | link p t =>
    by_cases ho : ∃ o, v = .object o
    · obtain ⟨o, rfl⟩ := ho
      obtain ⟨ho, rfl⟩ := hv
      exact ⟨ho, rfl⟩
    · have hnone : ∀ {v : Value}, (∀ o, v ≠ .object o) → ∀ h : Heap F C, (Selection.link p t).inner h v = .just .null := by
        intro v hv h
        cases v <;> first | rfl | exact absurd rfl (hv _)
      rw [hnone fun o he => ho ⟨o, he⟩, hnone fun o he => ho ⟨o, (Value.Alike.object_iff hv).2 he⟩]
      exact ⟨.null, rfl, rfl⟩
  | stream =>
    by_cases hs : ∃ i, v = .stream i
    · obtain ⟨i, rfl⟩ := hs
      obtain ⟨j, hij, rfl⟩ := hv
      exact hm.cells .stream i j hij
    · have hnone : ∀ {v : Value}, (∀ i, v ≠ .stream i) → ∀ h : Heap F C, Selection.stream.inner h v = .empty := by
        intro v hv h
        cases v <;> first | rfl | exact absurd rfl (hv _)
      have hv' : ∀ j, v' ≠ .stream j := by
        rintro j rfl
        exact hs hv.of_stream
      rw [hnone fun i he => hs ⟨i, he⟩, hnone hv']
      rfl

/-- What a watch reports. -/
theorem read {o : ObjectId} (ho : o < q.objects) (p : String) : q.alike ρ (h.read o p) (h'.read o p) := by
  unfold Heap.read
  split
  · exact ⟨ho, rfl⟩
  · exact hm.get o p

/-- What a path reads. -/
theorem readFrom {v v' : Value} (hv : q.alike ρ v v') (l : List Segment) :
    q.alike ρ (h.readFrom v l) (h'.readFrom v' l) := by
  induction l generalizing v v' with
  | nil => exact hv
  | cons s rest ih =>
    by_cases ho : ∃ o, v = .object o
    · obtain ⟨o, rfl⟩ := ho
      obtain ⟨ho, rfl⟩ := hv
      exact ih (hm.read ho s.property)
    · have hv' : ∀ o, v' ≠ .object o := fun o he => ho ⟨o, (Value.Alike.object_iff hv).2 he⟩
      have hnone : ∀ {v : Value}, (∀ o, v ≠ .object o) → ∀ h : Heap F C, h.readFrom v (s :: rest) = .null := by
        intro v hv h
        cases v <;> first | rfl | exact absurd rfl (hv _)
      rw [hnone (fun o he => ho ⟨o, he⟩), hnone hv']
      rfl

end Heap.Mirrors

/-! ## Slots of joins -/

/-- Either all slots are full in both runs, or in none. -/
theorem rel_mapM_id {l l' : List (Option Value)} (hl : List.Forall₂ (Option.Rel (q.alike ρ)) l l') :
    Option.Rel (List.Forall₂ (q.alike ρ)) (l.mapM id) (l'.mapM id) := by
  induction hl with
  | nil => exact .some .nil
  | @cons x y l l' hxy _ ih =>
    rw [List.mapM_cons, List.mapM_cons]
    cases hxy with
    | none => exact .none
    | some hv =>
      generalize l.mapM id = m at ih
      generalize l'.mapM id = m' at ih
      cases ih with
      | none => exact .none
      | some hvs => exact .some (.cons hv hvs)

namespace Setting

open State

variable {w w' : World F C S} {fs fs' : List (Frame F C)} (hq : q.Sound) (hj : q.Joint ρ w w')
  (hf : List.Forall₂ (Frame.Alike q ρ) fs fs')
include hq hj hf

/-- Both runs come to the same code. -/
theorem proceeds_resume {c : C} (hc : q.idle c) {signal signal' : Signal C}
    (hs : List.Forall₂ (q.alike ρ) signal.values signal'.values) {command command' : Command F C}
    (he : State.step q.client ⟨.run command, fs, w⟩ = ⟨.resume c signal, fs, w⟩)
    (he' : State.step q.client ⟨.run command', fs', w'⟩ = ⟨.resume c signal', fs', w'⟩) :
    q.Proceeds ρ ⟨.run command, fs, w⟩ ⟨.run command', fs', w'⟩ := by
  obtain ⟨w₁, w₁', hr, hr', hj₁⟩ := hj.resume hq hc hs
  obtain ⟨l, hl, -⟩ : ∃ l, Leads q.client [] _ (_ :: l) _ ∧ _ := leads_returns fs hr
  obtain ⟨l', hl', -⟩ : ∃ l', Leads q.client [] _ (_ :: l') _ ∧ _ := leads_returns fs' hr'
  exact ⟨ρ, _, _, _, _, Ties.le_refl ρ, .go id (he ▸ hl), .go id (he' ▸ hl'), .linked ⟨.pass .done, hf, hj₁⟩⟩

/-- The same is delivered in both runs. -/
theorem proceeds_deliver {x y : Observer F C} (hx : x.Alike q ρ y) {v v' : Value} (hv : q.alike ρ v v') :
    q.Proceeds ρ ⟨.run (.deliver x v), fs, w⟩ ⟨.run (.deliver y v'), fs', w'⟩ := by
  have hm := hj.mirrors
  have hρ := Ties.le_refl ρ
  cases hx with
  | client hc =>
    have hs : List.Forall₂ (q.alike ρ) (Signal.value v : Signal C).values (Signal.value v' : Signal C).values :=
      .cons hv .nil
    exact proceeds_resume hq hj hf hc hs rfl rfl
  | @map f x y hfun hx =>
    cases f with
    | apply f =>
      obtain ⟨ρ', hρ', hj', hv'⟩ := hj.apply hq hfun hv
      exact proceeds_go hf hρ' rfl rfl hj' (.run (.deliver (hx.mono hρ') hv'))
    | wrap sender p =>
      exact proceeds_go hf hρ (step_wrap (hj.alive hfun)) (step_wrap (hj.alive' hfun)) hj
        (.run (.deliver hx ⟨hfun, v', hv, rfl⟩))
    | emptyIfNull =>
      by_cases hs : ∃ i, v = .stream i
      · obtain ⟨i, rfl⟩ := hs
        obtain ⟨j, hij, rfl⟩ := hv
        exact proceeds_go hf hρ rfl rfl hj (.run (.deliver hx ⟨j, hij, rfl⟩))
      -- what is no stream becomes a new empty one in each run, and the two are tied
      · have hv' : ∀ j, v' ≠ .stream j := by
          rintro j rfl
          exact hs hv.of_stream
        have hρ' := ρ.le_tie .stream (w.heap.count .stream) (w'.heap.count .stream) 1
        exact proceeds_go hf hρ' (step_emptyIfNull fun i he => hs ⟨i, he⟩) (step_emptyIfNull hv')
          (hj.withHeap hρ' (hm.makes (Heap.makes_newStream _ .empty) (Heap.makes_newStream _ .empty) rfl trivial))
          (.run (.deliver (hx.mono hρ') ⟨_, ρ.pair_tie .., rfl⟩))
    | publish => exact hfun.elim
  | @filter f x y hfun hx =>
    obtain ⟨ρ', hρ', hj', hv'⟩ := hj.apply hq hfun hv
    have hb : (q.client.apply f v w).1.eqv (.bool true) = (q.client.apply f v' w').1.eqv (.bool true) :=
      hj'.mirrors.eqv hv' rfl
    refine proceeds_go hf hρ' rfl rfl hj' ?_
    dsimp only
    rw [hb]
    split
    · exact .run (.deliver (hx.mono hρ') (q.alike_mono hρ' hv))
    · exact .pass .done
  | @skip i j x y hij hx =>
    have hcount : w'.heap.counter j = w.heap.counter i := hm.cells .counter i j hij
    cases hn : w.heap.counter i with
    | zero => exact proceeds_go hf hρ (step_skip_zero hn) (step_skip_zero (hcount.trans hn)) hj (.run (.deliver hx hv))
    | succ n =>
      exact proceeds_go hf hρ (step_skip_succ hn) (step_skip_succ (hcount.trans hn))
        (hj.withHeap hρ (hm.sets hij (Heap.sets_setCounter _ i n) (Heap.sets_setCounter _ j n) rfl trivial))
        (.pass .done)
  | @distinct i j x y hij hx =>
    have heq := hm.any_eqv hij hv
    cases he : (w.heap.memory i).any (·.eqv v) with
    | true => exact proceeds_go hf hρ (step_distinct_same he) (step_distinct_same (heq ▸ he)) hj (.pass .done)
    | false =>
      exact proceeds_go hf hρ (step_distinct_other he) (step_distinct_other (heq ▸ he))
        (hj.withHeap hρ (hm.sets hij (Heap.sets_setMemory _ i v) (Heap.sets_setMemory _ j v') (.some hv) trivial))
        (.run (.deliver hx hv))
  | @outer i j select x y hij hx =>
    have hs : (w.heap.switch i).Alike ρ (w'.heap.switch j) := hm.cells .switch i j hij
    refine proceeds_under hf hρ rfl rfl
      (hj.withHeap hρ (hm.sets hij (Heap.sets_setSwitch _ i _) (Heap.sets_setSwitch _ j _) ?_ trivial))
      (.run (.undo hs.current)) ?_
    · exact ⟨by rw [hs.generation], hs.stopped, rfl⟩
    · rw [hs.generation]
      exact .switching hij (hm.inner hv select) hx
  | @inner i j g x y hij hx =>
    have hs : (w.heap.switch i).Alike ρ (w'.heap.switch j) := hm.cells .switch i j hij
    -- the switches agree, so the value comes too late in both runs or in neither
    obtain ⟨hstop, hg, he⟩ | ⟨hlate, he⟩ := step_inner_cases q.client fs w i g x v <;>
    obtain ⟨hstop', hg', he'⟩ | ⟨hlate', he'⟩ := step_inner_cases q.client fs' w' j g y v'
    · exact proceeds_go hf hρ he he' hj (.run (.deliver hx hv))
    · exact absurd ⟨hs.stopped.trans hstop, hs.generation.trans hg⟩ hlate'
    · exact absurd ⟨hs.stopped.symm.trans hstop', hs.generation.symm.trans hg'⟩ hlate
    · exact proceeds_go hf hρ he he' hj (.pass .done)
  | relocate hij hx => exact proceeds_go hf hρ rfl rfl hj (.run (.schedule (.deliver hij hx hv)))
  | @slot i j k x y hij hx =>
    have hl : List.Forall₂ (Option.Rel (q.alike ρ)) ((w.heap.join i).set k (some v)) ((w'.heap.join j).set k (some v')) :=
      forall₂_set (hm.cells .join i j hij) k (.some hv)
    have hj₁ := hj.withHeap hρ (hm.sets hij (Heap.sets_setJoin _ i ((w.heap.join i).set k (some v)))
      (Heap.sets_setJoin _ j ((w'.heap.join j).set k (some v'))) hl trivial)
    -- the same slots are empty in both runs
    have hall := rel_mapM_id hl
    cases hn : ((w.heap.join i).set k (some v)).mapM id <;>
    cases hn' : ((w'.heap.join j).set k (some v')).mapM id <;> rw [hn, hn'] at hall <;> cases hall
    case none.none.none => exact proceeds_go hf hρ (step_slot_wanting hn) (step_slot_wanting hn') hj₁ (.pass .done)
    case some.some.some hvs =>
      exact proceeds_go hf hρ (step_slot_full hn) (step_slot_full hn') hj₁ (.run (.deliver hx (.tuple hvs)))

omit hq

/-- The same is subscribed to in both runs. -/
theorem proceeds_subscribe {x x' : Stream F} {y y' : Observer F C} (hx : x.Alike q (ρ .stream).pair x')
    (hy : y.Alike q ρ y') : q.Proceeds ρ ⟨.run (.subscribe x y), fs, w⟩ ⟨.run (.subscribe x' y'), fs', w'⟩ := by
  have hm := hj.mirrors
  have hρ := Ties.le_refl ρ
  cases x with
  | empty =>
    obtain rfl := hx
    exact proceeds_go hf hρ rfl rfl hj (.pass (.subscription rfl))
  | just v =>
    obtain ⟨v', hv, rfl⟩ := hx
    exact proceeds_under hf hρ rfl rfl hj (.run (.deliver hy hv)) (.subscribed rfl)
  | watch o p t =>
    obtain ⟨ho, rfl⟩ := hx
    have hρ' := ρ.le_tie (.handler o) (w.heap.nextHandler o) (w'.heap.nextHandler o) 1
    -- the ids of the two handlers may differ, and are tied from now on
    have hm' := hm.addHandler t p p.isEmpty ho hy
    exact proceeds_under hf hρ' (step_watch (h := w.heap) (k := w.client) (hj.alive ho))
      (step_watch (h := w'.heap) (k := w'.client) (hj.alive' ho)) (hj.withHeap hρ' hm')
      (.run (.deliver (hy.mono hρ') (hm'.read ho p))) (.subscribed ⟨_, ρ.pair_tie .., rfl⟩)
  | constant root path =>
    obtain ⟨ho, rfl⟩ := hx
    have hroot : q.alike ρ (.object root) (.object root) := ⟨ho, rfl⟩
    exact proceeds_under hf hρ (step_constant (hj.alive ho)) (step_constant (hj.alive' ho)) hj
      (.run (.deliver hy (hm.readFrom hroot path.segments))) (.subscribed rfl)
  | subject j =>
    obtain ⟨hs, rfl⟩ := hx
    have hρ' := ρ.le_tie (.observer j) (w.heap.nextId (.subject j)) (w'.heap.nextId (.subject j)) 1
    exact proceeds_go hf hρ' (step_listen (hj.alive_subject hs)) (step_listen (hj.alive_subject' hs))
      (hj.withHeap hρ' (hm.addObserver hs hy)) (.pass (.subscription ⟨_, ρ.pair_tie .., rfl⟩))
  | map x f =>
    obtain ⟨x', hx, hfun, rfl⟩ := hx
    exact proceeds_go hf hρ rfl rfl hj (.run (.subscribe hx (.map hfun hy)))
  | filter x f =>
    obtain ⟨x', hx, hfun, rfl⟩ := hx
    exact proceeds_go hf hρ rfl rfl hj (.run (.subscribe hx (.filter hfun hy)))
  | skip x n =>
    obtain ⟨x', hx, rfl⟩ := hx
    have hρ' := ρ.le_tie .counter (w.heap.count .counter) (w'.heap.count .counter) 1
    exact proceeds_go hf hρ' rfl rfl
      (hj.withHeap hρ' (hm.makes (Heap.makes_newCounter _ n) (Heap.makes_newCounter _ n) rfl trivial))
      (.run (.subscribe (hx.mono fun _ _ => hρ'.pair) (.skip (ρ.pair_tie ..) (hy.mono hρ'))))
  | distinct x =>
    obtain ⟨x', hx, rfl⟩ := hx
    have hρ' := ρ.le_tie .memory (w.heap.count .memory) (w'.heap.count .memory) 1
    exact proceeds_go hf hρ' rfl rfl
      (hj.withHeap hρ' (hm.makes (Heap.makes_newMemory _) (Heap.makes_newMemory _) .none trivial))
      (.run (.subscribe (hx.mono fun _ _ => hρ'.pair) (.distinct (ρ.pair_tie ..) (hy.mono hρ'))))
  | switch x select =>
    obtain ⟨x', hx, rfl⟩ := hx
    have hρ' := ρ.le_tie .switch (w.heap.count .switch) (w'.heap.count .switch) 1
    have hpair := ρ.pair_tie .switch (w.heap.count .switch) (w'.heap.count .switch)
    exact proceeds_under hf hρ' rfl rfl
      (hj.withHeap hρ' (hm.makes (Heap.makes_newSwitch _) (Heap.makes_newSwitch _) ⟨rfl, rfl, rfl⟩ trivial))
      (.run (.subscribe (hx.mono fun _ _ => hρ'.pair) (.outer hpair (hy.mono hρ')))) (.opening hpair)
  | relocate x s =>
    obtain ⟨x', hx, rfl⟩ := hx
    have hρ' := ρ.le_tie .gate (w.heap.count .gate) (w'.heap.count .gate) 1
    have hpair := ρ.pair_tie .gate (w.heap.count .gate) (w'.heap.count .gate)
    exact proceeds_under hf hρ' rfl rfl
      (hj.withHeap hρ' (hm.makes (Heap.makes_newGate _) (Heap.makes_newGate _) rfl trivial))
      (.run (.subscribe (hx.mono fun _ _ => hρ'.pair) (.relocate hpair (hy.mono hρ')))) (.relocating hpair)
  | merge xs =>
    obtain ⟨xs', hxs, rfl⟩ := hx
    refine proceeds_go hf hρ rfl rfl hj (.run (.subscribeAll .nil ?_))
    rw [List.forall₂_map_left_iff, List.forall₂_map_right_iff]
    exact (alikeStreams_iff.1 hxs).imp fun _ _ hx => ⟨hx, hy⟩
  | combineLatest xs =>
    obtain ⟨xs', hxs, rfl⟩ := hx
    have hxs := alikeStreams_iff.1 hxs
    have hρ' := ρ.le_tie .join (w.heap.count .join) (w'.heap.count .join) 1
    have hempty : (Cell.join (List.replicate xs.length none) : Cell F C).Alike q ρ
        (.join (List.replicate xs'.length none)) := by
      rw [hxs.length_eq]
      exact forall₂_replicate _ .none
    exact proceeds_go hf hρ' rfl rfl
      (hj.withHeap hρ' (hm.makes (Heap.makes_newJoin _ xs.length) (Heap.makes_newJoin _ xs'.length) hempty trivial))
      (.run (.subscribeAll .nil (forall₂_mapIdx hxs fun k _ _ hx =>
        ⟨hx.mono fun _ _ => hρ'.pair, .slot (ρ.pair_tie ..) (hy.mono hρ')⟩)))

theorem proceeds_undo {t u : Teardown C} (ht : t.Alike ρ u) :
    q.Proceeds ρ ⟨.run (.undo t), fs, w⟩ ⟨.run (.undo u), fs', w'⟩ := by
  have hm := hj.mirrors
  have hρ := Ties.le_refl ρ
  cases t with
  | nothing =>
    obtain rfl := ht
    exact proceeds_go hf hρ rfl rfl hj (.pass .done)
  | handler o i =>
    obtain ⟨j, hij, rfl⟩ := ht
    exact proceeds_go hf hρ rfl rfl (hj.withHeap hρ (hm.removeHandler hij)) (.pass .done)
  | observer s i =>
    obtain ⟨j, hij, rfl⟩ := ht
    exact proceeds_go hf hρ rfl rfl (hj.withHeap hρ (hm.removeObserver hij)) (.pass .done)
  | relocate i t =>
    obtain ⟨j, t', hij, ht, rfl⟩ := ht
    exact proceeds_go hf hρ rfl rfl
      (hj.withHeap hρ (hm.sets hij (Heap.sets_shutGate _ i) (Heap.sets_shutGate _ j) rfl trivial)) (.run (.undo ht))
  | switch i t =>
    obtain ⟨j, t', hij, ht, rfl⟩ := ht
    have hs : (w.heap.switch i).Alike ρ (w'.heap.switch j) := hm.cells .switch i j hij
    exact proceeds_under hf hρ rfl rfl
      (hj.withHeap hρ (hm.sets hij (Heap.sets_setSwitch _ i _) (Heap.sets_setSwitch _ j _)
        ⟨hs.generation, rfl, hs.current⟩ trivial)) (.run (.undo ht)) (.closing hij)
  | all ms =>
    obtain ⟨ms', hms, rfl⟩ := ht
    exact proceeds_go hf hρ rfl rfl hj (.run (.undoAll (alikeMembers_iff.1 hms)))
  | composite c => exact ht.elim
  | client c => exact ht.elim

/-- The same property is assigned in both runs. -/
theorem proceeds_set {o : ObjectId} {p : String} {v v' : Value} (ho : o < q.objects) (hv : q.alike ρ v v') :
    q.Proceeds ρ ⟨.run (.set o p v), fs, w⟩ ⟨.run (.set o p v'), fs', w'⟩ := by
  have hm := hj.mirrors
  have hρ := Ties.le_refl ρ
  have hold := hm.get o p
  have heq := hm.eqv hold hv
  cases he : (w.heap.get o p).eqv v with
  | true => exact proceeds_go hf hρ (step_set_same he) (step_set_same (heq ▸ he)) hj (.pass (.flag false))
  | false =>
    have hput := hm.put (p := p) ho hv
    exact ⟨ρ, _, _, _, _, hρ, .one id (step_set_other he), .one id (step_set_other (heq ▸ he)),
      .telling (.cons (.announcing ho hold hv) hf) (hj.withHeap hρ hput) ho hold (hput.handlersFor o .before p)⟩

include hq

omit hj hf in
/-- The same task is run in both runs. -/
theorem proceeds_task {t u : Task F C} (ht : t.Alike q ρ u) {command command' : Command F C} {gs gs' : List (Frame F C)}
    (hg : List.Forall₂ (Frame.Alike q ρ) gs gs') {w₁ w₁' : World F C S} (hj₁ : q.Joint ρ w₁ w₁') {c c' : Control F C}
    (he : State.step q.client ⟨.run command, fs, w⟩ = stepTask ⟨c, gs, w₁⟩ t)
    (he' : State.step q.client ⟨.run command', fs', w'⟩ = stepTask ⟨c', gs', w₁'⟩ u) :
    q.Proceeds ρ ⟨.run command, fs, w⟩ ⟨.run command', fs', w'⟩ := by
  cases ht with
  | @deliver i j x y v v' hij hx hv =>
    have hgate : w₁'.heap.gateOpen j = w₁.heap.gateOpen i := hj₁.mirrors.cells .gate i j hij
    cases ho : w₁.heap.gateOpen i with
    | true =>
      exact ⟨ρ, _, _, _, _, Ties.le_refl ρ, .one id (he.trans (task_open ho)),
        .one id (he'.trans (task_open (hgate.trans ho))), .linked ⟨.run (.deliver hx hv), hg, hj₁⟩⟩
    | false =>
      exact ⟨ρ, _, _, _, _, Ties.le_refl ρ, .one id (he.trans (task_shut ho)),
        .one id (he'.trans (task_shut (hgate.trans ho))), .linked ⟨.pass .done, hg, hj₁⟩⟩
  | client hc =>
    have hnone : List.Forall₂ (q.alike ρ) (Signal.done : Signal C).values (Signal.done : Signal C).values := .nil
    obtain ⟨w₂, w₂', hr, hr', hj₂⟩ := hj₁.resume hq hc hnone
    obtain ⟨l, hl, -⟩ : ∃ l, Leads q.client [] _ (_ :: l) _ ∧ _ := leads_returns gs hr
    obtain ⟨l', hl', -⟩ : ∃ l', Leads q.client [] _ (_ :: l') _ ∧ _ := leads_returns gs' hr'
    exact ⟨ρ, _, _, ⟨.pass .done, gs, w₂⟩, ⟨.pass .done, gs', w₂'⟩, Ties.le_refl ρ,
      .go id (by rw [he]; exact hl), .go id (by rw [he']; exact hl'), .linked ⟨.pass .done, hg, hj₂⟩⟩

/-- Both runs are at the same command, which is not to run tasks. -/
theorem proceeds_command {command command' : Command F C} (hc : command.Alike q ρ command')
    (hd : ∀ s n, command ≠ .drain s n) : q.Proceeds ρ ⟨.run command, fs, w⟩ ⟨.run command', fs', w'⟩ := by
  have hm := hj.mirrors
  have hρ := Ties.le_refl ρ
  cases hc with
  | set ho hv => exact proceeds_set hj hf ho hv
  | @next j v v' hv => exact ⟨ρ, _, _, _, _, hρ, .one id rfl, .one id rfl, .giving hf hj hv (hm.observers j)⟩
  | deliver hx hv => exact proceeds_deliver hq hj hf hx hv
  | subscribe hx hy => exact proceeds_subscribe hj hf hx hy
  | subscribeAll hms hrest =>
    cases hrest with
    | nil => exact proceeds_go hf hρ rfl rfl hj (.pass (.subscription ⟨_, alikeMembers_iff.2 hms, rfl⟩))
    | cons he hrest => exact proceeds_under hf hρ rfl rfl hj (.run (.subscribe he.1 he.2)) (.gathering hms hrest)
  | undo ht => exact proceeds_undo hj hf ht
  | undoAll hms =>
    cases hms with
    | nil => exact proceeds_go hf hρ rfl rfl hj (.pass .done)
    | cons ht hrest => exact proceeds_under hf hρ rfl rfl hj (.run (.undo ht)) (.undoing hrest)
  | @dispose i j hij =>
    exact proceeds_go hf hρ rfl rfl
      (hj.withHeap hρ (hm.sets hij (Heap.sets_clearHandle _ i) (Heap.sets_clearHandle _ j) rfl trivial))
      (.run (.undo (hm.cells .handle i j hij)))
  | @schedule s t u ht =>
    have hs := hm.tasks s
    cases hl : w.heap.tasks? s <;> cases hl' : w'.heap.tasks? s <;> rw [hl, hl'] at hs <;> cases hs
    case none.none.none =>
      exact proceeds_task hq ht hf hj (step_schedule_now hl) (step_schedule_now hl')
    case some.some.some hs =>
      exact proceeds_go hf hρ (step_schedule_later hl) (step_schedule_later hl')
        (hj.withHeap hρ (hm.setTasks (hs.append (.keep ht .nil)))) (.pass .done)
  | drain s n m => exact absurd rfl (hd s n)

omit hq

/-- Both runs pass a signal to the same frame. -/
theorem proceeds_frame {f f' : Frame F C} (hfirst : f.Alike q ρ f') {signal signal' : Signal C}
    (hs : signal.Alike ρ signal') :
    q.Proceeds ρ ⟨.pass signal, f :: fs, w⟩ ⟨.pass signal', f' :: fs', w'⟩ := by
  have hm := hj.mirrors
  have hρ := Ties.le_refl ρ
  have ht : signal.teardown.Alike ρ signal'.teardown := by
    cases hs <;> first | rfl | assumption
  cases hfirst with
  | subscribed ht => exact proceeds_back hf hρ rfl rfl hj (.pass (.subscription ht))
  | notifying ho hv hl => exact proceeds_back_onward hρ rfl rfl (.telling hf hj ho hv hl)
  | publishing hv hl => exact proceeds_back_onward hρ rfl rfl (.giving hf hj hv hl)
  | announcing ho hold hnew =>
    exact proceeds_back_onward hρ rfl rfl (.telling (.cons .changed hf) hj ho hnew (hm.handlersFor _ .after _))
  | changed => exact proceeds_back hf hρ rfl rfl hj (.pass (.flag true))
  | gathering hms hrest =>
    exact proceeds_back hf hρ rfl rfl hj (.run (.subscribeAll (List.rel_append hms (.cons ht .nil)) hrest))
  | relocating hij => exact proceeds_back hf hρ rfl rfl hj (.pass (.subscription ⟨_, _, hij, ht, rfl⟩))
  | opening hij => exact proceeds_back hf hρ rfl rfl hj (.pass (.subscription ⟨_, _, hij, ht, rfl⟩))
  | @switching i j g x x' y y' hij hx hy =>
    have hsw : (w.heap.switch i).Alike ρ (w'.heap.switch j) := hm.cells .switch i j hij
    cases hstop : (w.heap.switch i).stopped with
    | true =>
      exact proceeds_back hf hρ (frame_switching_stopped hstop) (frame_switching_stopped (hsw.stopped.trans hstop)) hj
        (.pass .done)
    | false =>
      exact proceeds_back_onward hρ (frame_switching hstop) (frame_switching (hsw.stopped.trans hstop))
        (.linked ⟨.run (.subscribe hx (.inner hij hy)), .cons (.entering hij) hf, hj⟩)
  | @entering i j g x x' hij =>
    have hsw : (w.heap.switch i).Alike ρ (w'.heap.switch j) := hm.cells .switch i j hij
    by_cases hg : (w.heap.switch i).generation = g
    · exact proceeds_back hf hρ (frame_entering hg) (frame_entering (hsw.generation.trans hg))
        (hj.withHeap hρ (hm.sets hij (Heap.sets_setSwitch _ i _) (Heap.sets_setSwitch _ j _)
          ⟨hsw.generation, hsw.stopped, ht⟩ trivial)) (.pass .done)
    · exact proceeds_back hf hρ (frame_entering_late hg)
        (frame_entering_late fun he => hg (hsw.generation.symm.trans he)) hj (.run (.undo ht))
  | @closing i j hij =>
    have hsw : (w.heap.switch i).Alike ρ (w'.heap.switch j) := hm.cells .switch i j hij
    exact proceeds_back hf hρ rfl rfl
      (hj.withHeap hρ (hm.sets hij (Heap.sets_setSwitch _ i _) (Heap.sets_setSwitch _ j _)
        ⟨hsw.generation, hsw.stopped, rfl⟩ trivial)) (.run (.undo hsw.current))
  | undoing hms => exact proceeds_back hf hρ rfl rfl hj (.run (.undoAll hms))
  | draining => exact proceeds_back hf hρ rfl rfl hj (.run (.drain _ _ _))

end Setting

end DataBinding
