import DataBinding.Proofs.Beside.Worlds
import DataBinding.Proofs.Machine.Deliveries
/-!
# What only happens in the second run

An alien call is a command about alien observers and teardowns only. Each of its steps is again alien, and the world
of the first run goes with that of the second one as before (`Setting.Aside.step`). So if such a call comes to an
end, it does so with a signal, and has done nothing to what is done in both runs (`Setting.Aside.ends`).
-/

namespace DataBinding

variable {F C S : Type}

section Definitions
variable (q : Setting F C S) (ρ : Ties)

/-- Everything that is subscribed to, or undone, is alien. -/
def Request.Alien (e : Stream F × Observer F C) : Prop := e.1.Harmless q ∧ e.2.Alien q ρ

def Command.Alien : Command F C → Prop
  | .deliver y _ => y.Alien q ρ
  | .subscribe x y => x.Harmless q ∧ y.Alien q ρ
  | .subscribeAll ms rest => (∀ t ∈ ms, t.Alien q ρ) ∧ ∀ e ∈ rest, Request.Alien q ρ e
  | .undo t => t.Alien q ρ
  | .undoAll ms none => ∀ t ∈ ms, t.Alien q ρ
  | .dispose i => (ρ .handle).alien i
  | .schedule _ t => t.Alien q ρ
  | _ => False

def Control.Alien : Control F C → Prop
  | .run c => c.Alien q ρ
  | .pass s => s.Alien q ρ
  | _ => False

def Frame.Alien : Frame F C → Prop
  | .subscribed _ t => t.Alien q ρ
  | .gathering _ ms rest => (∀ t ∈ ms, t.Alien q ρ) ∧ ∀ e ∈ rest, Request.Alien q ρ e
  | .relocating i => (ρ .gate).alien i
  | .opening i => (ρ .switch).alien i
  | .switching i _ inner next => (ρ .switch).alien i ∧ inner.Harmless q ∧ next.Alien q ρ
  | .entering i _ _ => (ρ .switch).alien i
  | .closing i => (ρ .switch).alien i
  | .undoing rest none => ∀ t ∈ rest, t.Alien q ρ
  | _ => False

/-- The second run is at something alien, above these frames, while the first one is in this world. -/
structure Setting.Aside (w : World F C S) (base : List (Frame F C)) (s : State F C S) : Prop where
  joint : q.Joint ρ w s.world
  control : s.control.Alien q ρ
  frames : ∃ fs, s.frames = fs ++ base ∧ ∀ f ∈ fs, f.Alien q ρ

/-- The second run goes on with something alien. -/
def Setting.Strays (w : World F C S) (base : List (Frame F C)) (s : State F C S) : Prop :=
  ∃ ρ' l s', ρ ≤ ρ' ∧ State.Leads q.client base s (s :: l) s' ∧ q.Aside ρ' w base s'

end Definitions

variable {q : Setting F C S} {ρ ρ' : Ties} {w : World F C S} {base fs : List (Frame F C)} {s : State F C S}

section Mono
variable (hρ : ρ ≤ ρ')
include hρ

theorem Request.Alien.mono {e : Stream F × Observer F C} (h : Request.Alien q ρ e) : Request.Alien q ρ' e :=
  ⟨h.1, h.2.mono hρ⟩

theorem Frame.Alien.mono {f : Frame F C} (h : f.Alien q ρ) : f.Alien q ρ' := by
  cases f with
  | subscribed y t => exact Teardown.Alien.mono hρ h
  | gathering y ms rest => exact ⟨fun t ht => (h.1 t ht).mono hρ, fun e he => (h.2 e he).mono hρ⟩
  | relocating i => exact hρ.alien h
  | opening i => exact hρ.alien h
  | switching i g inner next => exact ⟨hρ.alien h.1, h.2.1, h.2.2.mono hρ⟩
  | entering i g inner => exact hρ.alien h
  | closing i => exact hρ.alien h
  | undoing rest panic =>
    cases panic with
    | none => exact fun t ht => (h t ht).mono hρ
    | some m => exact h
  | _ => exact h

end Mono

/-! ## Steps -/

namespace Setting

open State

variable {w' w₂ : World F C S} {c : Control F C}

section Go

variable {command : Command F C} {f : Frame F C} (hf : ∀ f ∈ fs, f.Alien q ρ) (hρ : ρ ≤ ρ')
include hf hρ

/-- A command goes on with something alien under the same frames. -/
theorem strays_go (he : State.step q.client ⟨.run command, fs ++ base, w'⟩ = ⟨c, fs ++ base, w₂⟩)
    (hj : q.Joint ρ' w w₂) (hc : c.Alien q ρ') : q.Strays ρ w base ⟨.run command, fs ++ base, w'⟩ :=
  ⟨ρ', _, _, hρ, .one id he, hj, hc, fs, rfl, fun f hm => (hf f hm).mono hρ⟩

/-- A command goes on with something alien under one frame more. -/
theorem strays_under (he : State.step q.client ⟨.run command, fs ++ base, w'⟩ = ⟨c, f :: (fs ++ base), w₂⟩)
    (hj : q.Joint ρ' w w₂) (hc : c.Alien q ρ') (hfirst : f.Alien q ρ') :
    q.Strays ρ w base ⟨.run command, fs ++ base, w'⟩ :=
  ⟨ρ', _, _, hρ, .one id he, hj, hc, f :: fs, rfl,
    List.forall_mem_cons.2 ⟨hfirst, fun f hm => (hf f hm).mono hρ⟩⟩

end Go

section Back

variable {f : Frame F C} {signal : Signal C} (hf : ∀ g ∈ fs, g.Alien q ρ) (hρ : ρ ≤ ρ')
include hf hρ

/-- A frame goes on with something alien under the others. -/
theorem strays_back (he : stepFrame ⟨.pass signal, fs ++ base, w'⟩ signal f = ⟨c, fs ++ base, w₂⟩)
    (hj : q.Joint ρ' w w₂) (hc : c.Alien q ρ') : q.Strays ρ w base ⟨.pass signal, f :: (fs ++ base), w'⟩ := by
  have hstep : State.step q.client ⟨.pass signal, f :: (fs ++ base), w'⟩ = ⟨c, fs ++ base, w₂⟩ := he
  refine ⟨ρ', [], ⟨c, fs ++ base, w₂⟩, hρ, .step (fun _ hb => ?_) (hstep ▸ .here), hj, hc, fs, rfl,
    fun f hm => (hf f hm).mono hρ⟩
  have hlen := congrArg List.length hb
  simp only [List.length_cons, List.length_append] at hlen
  omega

/-- A frame goes on with something alien under another one. -/
theorem strays_back_under {f' : Frame F C}
    (he : stepFrame ⟨.pass signal, fs ++ base, w'⟩ signal f = ⟨c, f' :: (fs ++ base), w₂⟩)
    (hj : q.Joint ρ' w w₂) (hc : c.Alien q ρ') (hfirst : f'.Alien q ρ') :
    q.Strays ρ w base ⟨.pass signal, f :: (fs ++ base), w'⟩ := by
  have hstep : State.step q.client ⟨.pass signal, f :: (fs ++ base), w'⟩ = ⟨c, f' :: (fs ++ base), w₂⟩ := he
  refine ⟨ρ', [], ⟨c, f' :: (fs ++ base), w₂⟩, hρ, .step (fun _ hb => ?_) (hstep ▸ .here), hj, hc, f' :: fs, rfl,
    List.forall_mem_cons.2 ⟨hfirst, fun f hm => (hf f hm).mono hρ⟩⟩
  have hlen := congrArg List.length hb
  simp only [List.length_cons, List.length_append] at hlen
  omega

end Back

variable (hq : q.Sound) (hj : q.Joint ρ w w') (hf : ∀ f ∈ fs, f.Alien q ρ)
include hq hj hf

omit hq hf in
/-- What an inner stream is taken from writes nothing. -/
theorem harmless_inner (select : Selection) (v : Value) : (select.inner w'.heap v).Harmless q := by
  cases select with
  | link p t => cases v <;> trivial
  | stream =>
    cases v with
    | stream i => exact hj.mirrors.streams i
    | _ => trivial

/-- Something is delivered to an alien observer. -/
theorem strays_deliver {y : Observer F C} (hy : y.Alien q ρ) (v : Value) :
    q.Strays ρ w base ⟨.run (.deliver y v), fs ++ base, w'⟩ := by
  have hm := hj.mirrors
  have hρ := Ties.le_refl ρ
  cases y with
  | client c =>
    obtain ⟨w₁, hr, hj₁⟩ := hj.resumeAlien hq hy.1 hy.2 (.value v)
    obtain ⟨l, hl, -⟩ : ∃ l, Leads q.client base _ (_ :: l) _ ∧ _ := leads_returns (fs ++ base) hr
    exact ⟨ρ, _, _, hρ, .go id hl, hj₁, trivial, fs, rfl, hf⟩
  | write => exact hy.elim
  | map f next =>
    obtain ⟨hfun, hnext⟩ := hy
    cases f with
    | apply f => exact strays_go hf hρ rfl (hj.applyAlien hq hfun v) hnext
    | wrap sender p => exact strays_go hf hρ rfl hj hnext
    | emptyIfNull =>
      cases v
      case stream => exact strays_go hf hρ rfl hj hnext
      -- the stream that is made is known to this run only
      all_goals
        exact strays_go hf (ρ.le_spare ..) rfl
          (hj.withHeap (ρ.le_spare ..) (hm.makesAlien (Heap.makes_newStream _ .empty) trivial trivial))
          (hnext.mono (ρ.le_spare ..))
    | publish => exact hfun.elim
  | filter f next =>
    obtain ⟨hfun, hnext⟩ := hy
    refine strays_go hf hρ rfl (hj.applyAlien hq hfun v) ?_
    dsimp only
    split
    · exact hnext
    · trivial
  | skip i next =>
    obtain ⟨hi, hnext⟩ := hy
    cases hn : w'.heap.counter i with
    | zero => exact strays_go hf hρ (step_skip_zero hn) hj hnext
    | succ n =>
      exact strays_go hf hρ (step_skip_succ hn)
        (hj.withHeap hρ (hm.setsAlien hi (Heap.sets_setCounter _ i n) trivial trivial)) trivial
  | distinct i next =>
    obtain ⟨hi, hnext⟩ := hy
    cases he : (w'.heap.memory i).any (·.eqv v) with
    | true => exact strays_go hf hρ (step_distinct_same he) hj trivial
    | false =>
      exact strays_go hf hρ (step_distinct_other he)
        (hj.withHeap hρ (hm.setsAlien hi (Heap.sets_setMemory _ i v) trivial trivial)) hnext
  | outer i select next =>
    obtain ⟨hi, hnext⟩ := hy
    exact strays_under hf hρ rfl (hj.withHeap hρ (hm.setsAlien hi (Heap.sets_setSwitch _ i _) trivial trivial))
      (hm.aliens .switch i hi) ⟨hi, harmless_inner hj select v, hnext⟩
  | inner i g next =>
    obtain ⟨-, -, he⟩ | ⟨-, he⟩ := step_inner_cases q.client (fs ++ base) w' i g next v
    · exact strays_go hf hρ he hj hy.2
    · exact strays_go hf hρ he hj trivial
  | relocate i scheduler next => exact strays_go hf hρ rfl hj hy
  | slot i k next =>
    obtain ⟨hi, hnext⟩ := hy
    have hj₁ := hj.withHeap hρ (hm.setsAlien hi (Heap.sets_setJoin _ i ((w'.heap.join i).set k (some v)))
      trivial trivial)
    cases hl : ((w'.heap.join i).set k (some v)).mapM id with
    | none => exact strays_go hf hρ (step_slot_wanting hl) hj₁ trivial
    | some values => exact strays_go hf hρ (step_slot_full hl) hj₁ hnext

omit hq in
/-- An alien observer subscribes. -/
theorem strays_subscribe {x : Stream F} {y : Observer F C} (hx : x.Harmless q) (hy : y.Alien q ρ) :
    q.Strays ρ w base ⟨.run (.subscribe x y), fs ++ base, w'⟩ := by
  have hm := hj.mirrors
  have hρ := Ties.le_refl ρ
  cases x with
  | empty => exact strays_go hf hρ rfl hj trivial
  | just v => exact strays_under hf hρ rfl hj hy trivial
  | watch o p t =>
    -- an object that is gone is watched by nobody
    by_cases ha : State.alive q.client ⟨.run (.subscribe (.watch o p t) y), fs ++ base, w'⟩ (.object o) = true
    · obtain ⟨ρ', hρ', hm', ht⟩ := hm.addHandlerAlien o t p p.isEmpty hy
      exact strays_under hf hρ' (step_watch (h := w'.heap) (k := w'.client) ha) (hj.withHeap hρ' hm')
        (hy.mono hρ') ht
    · exact strays_go hf hρ (step_watch_dead (h := w'.heap) (k := w'.client) ha) hj trivial
  | constant root path => exact strays_under hf hρ rfl hj hy trivial
  | subject j =>
    by_cases ha : State.alive q.client ⟨.run (.subscribe (.subject j) y), fs ++ base, w'⟩ (.subject j) = true
    · obtain ⟨ρ', hρ', hm', ht⟩ := hm.addObserverAlien j hy
      exact strays_go hf hρ' (step_listen ha) (hj.withHeap hρ' hm') ht
    · exact strays_go hf hρ (step_listen_dead ha) hj trivial
  | map x f => exact strays_go hf hρ rfl hj ⟨hx.1, hx.2, hy⟩
  | filter x f => exact strays_go hf hρ rfl hj ⟨hx.1, hx.2, hy⟩
  | skip x n =>
    have hρ' := ρ.le_spare .counter (w'.heap.count .counter)
    exact strays_go hf hρ' rfl (hj.withHeap hρ' (hm.makesAlien (Heap.makes_newCounter _ n) trivial trivial))
      ⟨hx, ρ.alien_spare .., hy.mono hρ'⟩
  | distinct x =>
    have hρ' := ρ.le_spare .memory (w'.heap.count .memory)
    exact strays_go hf hρ' rfl (hj.withHeap hρ' (hm.makesAlien (Heap.makes_newMemory _) trivial trivial))
      ⟨hx, ρ.alien_spare .., hy.mono hρ'⟩
  | switch x select =>
    have hρ' := ρ.le_spare .switch (w'.heap.count .switch)
    have ha := ρ.alien_spare .switch (w'.heap.count .switch)
    exact strays_under hf hρ' rfl (hj.withHeap hρ' (hm.makesAlien (Heap.makes_newSwitch _) trivial trivial))
      ⟨hx, ha, hy.mono hρ'⟩ ha
  | relocate x i =>
    have hρ' := ρ.le_spare .gate (w'.heap.count .gate)
    have ha := ρ.alien_spare .gate (w'.heap.count .gate)
    exact strays_under hf hρ' rfl (hj.withHeap hρ' (hm.makesAlien (Heap.makes_newGate _) trivial trivial))
      ⟨hx, ha, hy.mono hρ'⟩ ha
  | merge xs =>
    refine strays_go hf hρ rfl hj ⟨List.forall_mem_nil _, fun e he => ?_⟩
    obtain ⟨x, hmem, rfl⟩ := List.mem_map.1 he
    exact ⟨harmlessStreams_iff.1 hx x hmem, hy⟩
  | combineLatest xs =>
    have hρ' := ρ.le_spare .join (w'.heap.count .join)
    refine strays_go hf hρ' rfl (hj.withHeap hρ' (hm.makesAlien (Heap.makes_newJoin _ xs.length) trivial trivial))
      ⟨List.forall_mem_nil _, fun e he => ?_⟩
    obtain ⟨k, hk, rfl⟩ := List.mem_mapIdx.1 he
    exact ⟨harmlessStreams_iff.1 hx _ (List.getElem_mem hk), ρ.alien_spare .., hy.mono hρ'⟩

omit hq in
theorem strays_undo {t : Teardown C} (ht : t.Alien q ρ) :
    q.Strays ρ w base ⟨.run (.undo t), fs ++ base, w'⟩ := by
  have hm := hj.mirrors
  have hρ := Ties.le_refl ρ
  cases t with
  | nothing => exact strays_go hf hρ rfl hj trivial
  | handler o i => exact strays_go hf hρ rfl (hj.withHeap hρ (hm.removeHandlerAlien ht)) trivial
  | observer s i => exact strays_go hf hρ rfl (hj.withHeap hρ (hm.removeObserverAlien ht)) trivial
  | relocate i t =>
    exact strays_go hf hρ rfl (hj.withHeap hρ (hm.setsAlien ht.1 (Heap.sets_shutGate _ i) trivial trivial)) ht.2
  | switch i t =>
    exact strays_under hf hρ rfl
      (hj.withHeap hρ (hm.setsAlien ht.1 (Heap.sets_setSwitch _ i _) (hm.aliens .switch i ht.1) trivial)) ht.2 ht.1
  | all ms => exact strays_go hf hρ rfl hj (alienMembers_iff.1 ht)
  | composite c => exact ht.elim
  | client c => exact ht.elim

theorem strays_command {command : Command F C} (hc : command.Alien q ρ) :
    q.Strays ρ w base ⟨.run command, fs ++ base, w'⟩ := by
  have hm := hj.mirrors
  have hρ := Ties.le_refl ρ
  cases command with
  | deliver y v => exact strays_deliver hq hj hf hc v
  | subscribe x y => exact strays_subscribe hj hf hc.1 hc.2
  | subscribeAll ms rest =>
    cases rest with
    | nil => exact strays_go hf hρ rfl hj (alienMembers_iff.2 hc.1)
    | cons e rest =>
      obtain ⟨he, hrest⟩ := List.forall_mem_cons.1 hc.2
      exact strays_under hf hρ rfl hj he ⟨hc.1, hrest⟩
  | undo t => exact strays_undo hj hf hc
  | undoAll ms panic =>
    cases panic with
    | some m => exact hc.elim
    | none =>
      cases ms with
      | nil => exact strays_go hf hρ rfl hj trivial
      | cons t rest =>
        obtain ⟨ht, hrest⟩ := List.forall_mem_cons.1 hc
        exact strays_under hf hρ rfl hj ht hrest
  | dispose i =>
    exact strays_go hf hρ rfl (hj.withHeap hρ (hm.setsAlien hc (Heap.sets_clearHandle _ i) trivial trivial))
      (hm.aliens .handle i hc)
  | schedule i t =>
    cases hl : w'.heap.tasks? i with
    | some l' =>
      -- the queue gets a task that the other run has not
      have hs := hm.tasks i
      rw [hl] at hs
      obtain ⟨l, hi, hs⟩ : ∃ l, w.heap.tasks? i = some l ∧ Sifted (Task.Alike q ρ) (Task.Alien q ρ) l l' := by
        cases hi : w.heap.tasks? i with
        | none => rw [hi] at hs; cases hs
        | some l => rw [hi] at hs; cases hs with | some hs => exact ⟨l, rfl, hs⟩
      have hs' := hs.append (.drop hc .nil)
      rw [List.append_nil] at hs'
      exact strays_go hf hρ (step_schedule_later hl) (hj.withHeap hρ (hm.setTasksAlien hi hs')) trivial
    | none =>
      cases t with
      | deliver g y v =>
        cases hg : w'.heap.gateOpen g with
        | true => exact strays_go hf hρ ((step_schedule_now hl).trans (task_open hg)) hj hc.2
        | false => exact strays_go hf hρ ((step_schedule_now hl).trans (task_shut hg)) hj trivial
      | client c =>
        obtain ⟨w₁, hr, hj₁⟩ := hj.resumeAlien hq hc.1 hc.2 .done
        obtain ⟨l, hl', -⟩ : ∃ l, Leads q.client base _ (_ :: l) _ ∧ _ := leads_returns (fs ++ base) hr
        have hnow : State.step q.client ⟨.run (.schedule i (.client c)), fs ++ base, w'⟩ =
          ⟨.resume c .done, fs ++ base, w'⟩ := step_schedule_now hl
        exact ⟨ρ, _, ⟨.pass .done, fs ++ base, w₁⟩, hρ, .go id (hnow ▸ hl'), hj₁, trivial, fs, rfl, hf⟩
  | _ => exact hc.elim

omit hq in
/-- An alien frame goes on with a signal. -/
theorem strays_frame {f : Frame F C} (hfirst : f.Alien q ρ) {signal : Signal C} (hs : signal.Alien q ρ) :
    q.Strays ρ w base ⟨.pass signal, f :: (fs ++ base), w'⟩ := by
  have hm := hj.mirrors
  have hρ := Ties.le_refl ρ
  have ht : signal.teardown.Alien q ρ := by
    cases signal <;> first | exact hs | trivial
  cases f with
  | subscribed y t => exact strays_back hf hρ rfl hj hfirst
  | gathering y ms rest =>
    refine strays_back hf hρ rfl hj ⟨fun t hmem => ?_, hfirst.2⟩
    rcases List.mem_append.1 hmem with hmem | hmem
    · exact hfirst.1 t hmem
    · exact List.mem_singleton.1 hmem ▸ ht
  | relocating i => exact strays_back hf hρ rfl hj ⟨hfirst, ht⟩
  | opening i => exact strays_back hf hρ rfl hj ⟨hfirst, ht⟩
  | switching i g inner next =>
    obtain ⟨hi, hinner, hnext⟩ := hfirst
    cases hstop : (w'.heap.switch i).stopped with
    | true => exact strays_back hf hρ (frame_switching_stopped hstop) hj trivial
    | false => exact strays_back_under hf hρ (frame_switching hstop) hj ⟨hinner, hi, hnext⟩ hi
  | entering i g inner =>
    by_cases hg : (w'.heap.switch i).generation = g
    · exact strays_back hf hρ (frame_entering hg)
        (hj.withHeap hρ (hm.setsAlien hfirst (Heap.sets_setSwitch _ i _) ht trivial)) trivial
    · exact strays_back hf hρ (frame_entering_late hg) hj ht
  | closing i =>
    exact strays_back hf hρ rfl (hj.withHeap hρ (hm.setsAlien hfirst (Heap.sets_setSwitch _ i _) trivial trivial))
      (hm.aliens .switch i hfirst)
  | undoing rest panic =>
    cases panic with
    | none => exact strays_back hf hρ rfl hj hfirst
    | some m => exact hfirst.elim
  | _ => exact hfirst.elim

end Setting

namespace Setting.Aside

open State

/-- What is alien and has not come to its end goes on. -/
theorem step (hq : q.Sound) (h : q.Aside ρ w base s) (hs : s.control.IsAnswer → s.frames ≠ base) :
    q.Strays ρ w base s := by
  obtain ⟨hj, hc, fs, hframes, hf⟩ := h
  obtain ⟨c, gs, w'⟩ := s
  obtain rfl : gs = fs ++ base := hframes
  cases c with
  | run command => exact strays_command hq hj hf hc
  | pass signal =>
    cases fs with
    | nil => exact absurd rfl (hs trivial)
    | cons f fs =>
      obtain ⟨hfirst, hf⟩ := List.forall_mem_cons.1 hf
      exact strays_frame hj hf hfirst hc
  | _ => exact hc.elim

/-- What is alien and comes to its end does so with a signal, and the worlds still go together. -/
theorem ends (hq : q.Sound) {e : State F C S} {l : List (State F C S)} (h : q.Aside ρ w base s)
    (he : Ends q.client base s l e) : ∃ ρ' signal w₂, ρ ≤ ρ' ∧ e = ⟨.pass signal, base, w₂⟩ ∧
      q.Joint ρ' w w₂ ∧ signal.Alien q ρ' := by
  obtain ⟨n, hn⟩ : ∃ n, l.length = n := ⟨_, rfl⟩
  induction n using Nat.strongRecOn generalizing ρ s l with
  | ind n ih =>
    by_cases hs : s.control.IsAnswer → s.frames ≠ base
    · obtain ⟨ρ₁, l₁, s₁, hρ₁, hl₁, h₁⟩ := h.step hq hs
      obtain ⟨l₂, rfl, he₂⟩ := hl₁.rest he
      have hlt : l₂.length < n := by
        rw [← hn]
        simp only [List.cons_append, List.length_cons, List.length_append]
        omega
      obtain ⟨ρ₂, signal, w₂, hρ₂, hrest⟩ := ih _ hlt h₁ he₂ rfl
      exact ⟨ρ₂, signal, w₂, Ties.le_trans hρ₁ hρ₂, hrest⟩
    · obtain ⟨ha, hb⟩ := Classical.not_imp.1 hs
      obtain ⟨rfl, rfl⟩ := he.unique (.answer ha (not_not.1 hb))
      obtain ⟨hj, hc, -⟩ := h
      obtain ⟨c, gs, w'⟩ := s
      obtain rfl : gs = base := not_not.1 hb
      cases c with
      | pass signal => exact ⟨ρ, signal, w', Ties.le_refl ρ, rfl, hj, hc⟩
      | run => exact ha.elim
      | resume => exact ha.elim
      | panic => exact hc.elim

end Setting.Aside

end DataBinding
