import DataBinding.Proofs.Deferred.Relayed
import DataBinding.Proofs.TwoWay.Queued
/-!
# Scheduled delivery

On a queue nothing is lost, repeated or overtaken, however the tasks, drains and disposals are nested
(`State.Placed.queued`).
-/

namespace DataBinding

variable {F C S : Type} [DecidableEq F] [DecidableEq C] {K : Client F C S} {code : C} {i : SchedulerId}

/-- A subscription on a scheduler goes on so: its observer, before the gate, is the first to be given values. -/
structure State.Relays (K : Client F C S) (code : C) (i : SchedulerId) (g : Nat) (z : Observer F C) (s : State F C S) :
    Prop where
  /-- What has been received is what has been started and what is still kept, unless a value is just being handed
  over. -/
  received : ∀ l e ts, s.Continues K code l e → e.relayed? i g = none → e.world.heap.tasks? i = some ts →
    values (.relocate g i z) l = (started i l).filterMap (Task.value? g) ++ ts.filterMap (Task.value? g)
  /-- Before the disposal each task that is started delivers its value. -/
  delivers : ∀ l e y v, s.Continues K code l e → e.started? i = some (.deliver g y v) → (∀ x ∈ l, ¬ x.Disposes g) →
    (e.step K).control = .run (.deliver z v)
  /-- After the disposal none does. -/
  drops : ∀ l e y v, s.Continues K code l e → e.started? i = some (.deliver g y v) → (∃ x ∈ l, x.Disposes g) →
    (e.step K).control = .pass .done

namespace State

variable {s : State F C S} {g : Nat} {z : Observer F C} {ts : List (Task F C)}

omit [DecidableEq F] [DecidableEq C] in
/-- What becomes of a task that is started for the gate. -/
theorem Clear.started?_step {y : Observer F C} {v : Value} (hs : s.Clear (.relay g i z) fun _ => False)
    (h : s.started? i = some (.deliver g y v)) :
    (s.step K).control = if s.world.heap.gateOpen g then .run (.deliver z v) else .pass .done := by
  obtain ⟨n, ts, hc, hts⟩ := exists_of_started? h
  obtain ⟨-, rfl⟩ := Observer.Clear.relay (hs.heap.tasks i _ hts _ List.mem_cons_self)
  obtain ⟨c, fs, w⟩ := s
  cases hc
  rw [step_drain_cons hts]
  cases hg : w.heap.gateOpen g with
  | true => rw [task_open hg]; rfl
  | false => rw [task_shut hg]; rfl

/-- A subscription on a queue, from the time that its source is subscribed to. -/
theorem Clear.relays (hq : (Passage.relay g i z).Sound s.world.heap.There code)
    (hs : s.Clear (.relay g i z) fun _ => False) (hg : s.world.heap.gateOpen g = true)
    (hts : s.world.heap.tasks? i = some ts) (hnone : ts.filterMap (Task.value? g) = []) (hd : s.relayed? i g = none) :
    s.Relays K code i g z where
  received l e ts' h he hts' := by
    obtain ⟨ts₁, hts₁, hlog⟩ := h.tasks hts
    obtain rfl : ts₁ = ts' := Option.some.inj (hts₁.symm.trans hts')
    rw [← hs.relayed hq h hd he, ← List.filterMap_append, ← hlog, List.filterMap_append, hnone, List.nil_append]
  delivers l e y v h ht hl := by
    have hopen : e.world.heap.gateOpen g = true := (h.gateOpen_iff (hq.own _ rfl)).2 ⟨hg, hl⟩
    rw [(hs.continues hq h).started?_step ht, if_pos hopen]
  drops l e y v h ht hl := by
    obtain ⟨x, hx, hdx⟩ := hl
    have hshut : ¬ e.world.heap.gateOpen g = true := fun ho => ((h.gateOpen_iff (hq.own _ rfl)).1 ho).2 x hx hdx
    rw [(hs.continues hq h).started?_step ht, if_neg hshut]

omit [DecidableEq F] [DecidableEq C] in
/-- The answer to a subscription on a scheduler is what disposes of it. -/
theorem ends_relocate {x : Stream F} {base : List (Frame F C)} {w w' : World F C S} {l : List (State F C S)}
    {signal : Signal C} (h : Ends K base ⟨.run (.subscribe (.relocate x i) z), base, w⟩ l ⟨.pass signal, base, w'⟩) :
    ∃ t, signal = .subscription (.relocate w.heap.gates.size t) := by
  obtain ⟨l', rfl, h'⟩ := h.next nofun
  obtain ⟨l₁, ⟨c₁, fs₁, w₁⟩, l₂, rfl, h₁, h₂⟩ := h'.split (List.suffix_cons (.relocating w.heap.gates.size) _)
    (List.suffix_refl _)
  obtain ⟨ha₁, hf₁⟩ := h₁.answered
  obtain rfl : fs₁ = .relocating w.heap.gates.size :: base := hf₁
  obtain ⟨l₃, rfl, h₃⟩ := h₂.next fun _ hb => absurd (congrArg List.length hb) (Nat.succ_ne_self _)
  cases c₁ with
  | run | resume => exact ha₁.elim
  | pass signal₁ =>
    obtain ⟨-, he⟩ := h₃.unique (.answer trivial rfl)
    cases he
    exact ⟨_, rfl⟩
  | panic m =>
    obtain ⟨-, he⟩ := h₃.unique (.answer trivial rfl)
    cases he

/-- **Scheduled delivery loses nothing and keeps the order.** -/
theorem Placed.queued (K : Client F C S) (code : C) (hs : s.Placed) (hq : s.world.heap.tasks? i = some ts) :
    (∀ l e, s.Continues K code l e →
      ∃ ts', e.world.heap.tasks? i = some ts' ∧ ts ++ scheduled i l = started i l ++ ts') ∧
    (∀ x z, s.control = .run (.subscribe (.relocate x i) z) → ∃ g,
      (∃ h, s.step K = ⟨.run (.subscribe x (.relocate g i z)), .relocating g :: s.frames, h, s.world.client⟩) ∧
      (∀ l signal w, Ends K s.frames s l ⟨.pass signal, s.frames, w⟩ → ∃ t, signal = .subscription (.relocate g t)) ∧
      (s.step K).Relays K code i g z) ∧
    (∀ n l signal w, s.control = .run (.drain i n) → Ends K s.frames s l ⟨.pass signal, s.frames, w⟩ →
      (∀ x ∈ l, x.Minds K code) →
      signal = .count (n + (started i (l.filter (·.frames.length = s.frames.length))).length) ∧
        w.heap.tasks? i = some []) ∧
    ∀ n t ts' l fs m w, s.control = .run (.drain i n) → ts = t :: ts' →
      Ends K (.draining i n t :: s.frames) (s.step K) l ⟨.panic m, fs, w⟩ → (∀ x ∈ l, x.Minds K code) →
      State.step K ⟨.panic m, fs, w⟩ = ⟨.panic m, s.frames, w⟩ ∧
        ∃ ts'', w.heap.tasks? i = some ts'' ∧ ts' ++ scheduled i l = started i l ++ ts'' := by
  refine ⟨fun l e h => h.tasks hq, ?_, ?_, ?_⟩
  · intro x z hc
    obtain ⟨hsound, hclear⟩ := hs.relays K code hc
    refine ⟨s.world.heap.gates.size, ?_, ?_, ?_⟩
    · obtain ⟨c, fs, w⟩ := s
      cases hc
      exact ⟨_, rfl⟩
    · intro l signal w h
      obtain ⟨c, fs, w₀⟩ := s
      cases hc
      exact ends_relocate h
    · have hold : ts.filterMap (Task.value? s.world.heap.gates.size) = [] := by
        -- the gate of a task that is kept is older
        rw [List.filterMap_eq_nil_iff]
        intro t ht
        by_contra hn
        obtain ⟨v, hv⟩ := Option.ne_none_iff_exists'.1 hn
        obtain ⟨y, rfl⟩ := Task.exists_of_value? hv
        have hy := hs.heap.tasks i _ hq _ ht
        exact Nat.lt_irrefl _ (hy.resolve_left id).1.1
      obtain ⟨c, fs, w⟩ := s
      cases hc
      exact hclear.relays hsound (Heap.gateOpen_newGate_self w.heap) hq hold rfl
  · rintro n l signal w hc h hm
    obtain ⟨c, fs, w₀⟩ := s
    cases hc
    exact h.drained hm hq
  · rintro n t ts' l fs m w hc rfl h hm
    obtain ⟨c, fs₀, w₀⟩ := s
    cases hc
    exact Ends.panicked hq h hm

end State

/-! ## A subject on a queue -/

/-- Of a client that holds these things: code that notes the values it is given, and code that panics. -/
def Client.failing (held : List Node) : Client Empty Bool (List Value) where
  apply f := f.elim
  resume
    | false, .value v, w => (⟨w.heap, w.client ++ [v]⟩, .finish)
    | true, _, w => (w, .panic "late")
    | _, _, w => (w, .finish)
  functionRefs f := f.elim
  codeRefs _ := []
  refs _ := held

theorem Client.reserves_failing (held : List Node) (code : Bool) : (failing held).Reserves code where
  apply f := f.elim
  resume c signal w := by
    unfold failing
    dsimp only
    split <;> exact ⟨.refl, trivial⟩

/-- A subject and a queue. -/
def World.queueing : World Empty Bool (List Value) :=
  ⟨(Heap.empty.newSubject.2.newScheduler (.queue [])).2, []⟩

theorem World.fresh_queueing : queueing.heap.Fresh where
  rosters n := by
    cases n with
    | subject i =>
      cases i with
      | zero => rfl
      | succ i => simp [Heap.roster, queueing, Heap.newSubject, Heap.newScheduler, Heap.empty]
    | _ => simp [Heap.roster, Heap.handlers, queueing, Heap.newSubject, Heap.newScheduler, Heap.empty]
  tasks s l hl := by
    cases s with
    | zero => cases hl; rfl
    | succ s => simp [Heap.tasks?, queueing, Heap.newSubject, Heap.newScheduler, Heap.empty] at hl
  switches := rfl
  gates := rfl

namespace State

/-- Somebody has subscribed on the queue. A task that panics is scheduled, and then two values are pushed. -/
def pending : State Empty Bool (List Value) :=
  (World.queueing.ended (.failing [.subject 0]) 30 [.subscribe (.relocate (.subject 0) 0) (.client false),
    .schedule 0 (.client true), .next 0 (.bool true), .next 0 .null]).getLastD
      (World.queueing.start (.subscribe (.relocate (.subject 0) 0) (.client false)))

/-- The first drain has panicked. -/
def drained : State Empty Bool (List Value) := (pending.world.start (.drain 0 0)).run (.failing [.subject 0]) 10

theorem placed_pending : pending.Placed :=
  have hout : (.subscribe (.relocate (.subject 0) 0) (.client false) : Command Empty Bool).Outside true :=
    Bool.false_ne_true
  World.fresh_queueing.placed hout (World.Undergoes.continues (Client.reserves_failing _ true)
    (by simp [Command.Outside]) (World.undergoes_states 30 (by decide +kernel)))

omit [DecidableEq F] [DecidableEq C] in
theorem Placed.start {s : State F C S} (hs : s.Placed) {c : Command F C} (hc : c.Outside code) :
    (s.world.start c).Placed := State.Clear.start s.world.client (fun _ _ => trivial) .refl hc hs

theorem ends_drained : Ends (.failing [.subject 0]) [] (pending.world.start (.drain 0 0))
    ((pending.world.start (.drain 0 0)).visited (.failing [.subject 0]) 10) drained :=
  ends_iff_run.2 ⟨10, rfl, by decide +kernel, rfl⟩

theorem placed_drained : drained.Placed :=
  have hout : (.drain 0 0 : Command Empty Bool).Outside true := trivial
  (placed_pending.start hout).continues
    (ends_drained.continues (List.suffix_refl _) fun x _ => (Client.reserves_failing _ true).minds x)

/-- Somebody else subscribes on the queue; values are pushed and delivered, one more is pushed, and the second
subscription is disposed of. -/
def deferring : List (Command Empty Bool) :=
  [.subscribe (.relocate (.subject 0) 0) (.client false), .next 0 (.bool true), .drain 0 0, .drain 0 0, .next 0 .null,
    .undo (.relocate 1 (.observer 0 1)), .drain 0 0]

/-- Seven tasks are started in all, and nothing is left. A drain whose task panics keeps the two tasks behind it, and
the next drain returns after these. -/
theorem Placed.queued_pending :
    (∃ l e ts g, (pending.world.start (.subscribe (.relocate (.subject 0) 0) (.client false))).Continues
        (.failing [.subject 0]) true l e ∧ ts.length = 3 ∧ (started 0 l).length = 7 ∧
      (∃ ts', e.world.heap.tasks? 0 = some ts' ∧ ts ++ scheduled 0 l = started 0 l ++ ts') ∧
      State.Relays (.failing [.subject 0]) true 0 g (.client false)
        ((pending.world.start (.subscribe (.relocate (.subject 0) 0) (.client false))).step (.failing [.subject 0]))) ∧
    (∃ l w, Ends (.failing [.subject 0]) [] (drained.world.start (.drain 0 0)) l ⟨.pass (.count 2), [], w⟩ ∧
      Signal.count 2 = (.count (0 + (started 0 (l.filter (·.frames.length = 0))).length) : Signal Bool) ∧
      w.heap.tasks? 0 = some []) ∧
    ∃ w ts, State.step (.failing [.subject 0]) ⟨.panic "late", [.draining 0 0 (.client true)], w⟩ =
        ⟨.panic "late", [], w⟩ ∧ w.heap.tasks? 0 = some ts ∧ ts.length = 2 := by
  have hK := Client.reserves_failing [.subject 0] true
  obtain ⟨ts, hts, hlength⟩ : ∃ ts, pending.world.heap.tasks? 0 = some (.client true :: ts) ∧ ts.length = 2 :=
    ⟨_, rfl, rfl⟩
  refine ⟨?_, ?_, ?_⟩
  · have hout : (.subscribe (.relocate (.subject 0) 0) (.client false) : Command Empty Bool).Outside true :=
      Bool.false_ne_true
    have hundergoes : pending.world.Undergoes (.failing [.subject 0]) deferring _ _ :=
      World.undergoes_states 40 (by decide +kernel)
    have hrun := World.Undergoes.continues hK (by simp [Command.Outside]) hundergoes
    obtain ⟨hall, hsubscribed, -, -⟩ := (placed_pending.start hout).queued (.failing [.subject 0]) true hts
    obtain ⟨g, -, -, hrelays⟩ := hsubscribed _ _ rfl
    exact ⟨_, _, _, g, hrun, congrArg (· + 1) hlength, by decide +kernel, hall _ _ hrun, hrelays⟩
  · have hout : (.drain 0 0 : Command Empty Bool).Outside true := trivial
    obtain ⟨ts', hts', -⟩ : ∃ ts', drained.world.heap.tasks? 0 = some ts' ∧ ts'.length = 2 :=
      Option.map_eq_some_iff.1 (by decide +kernel)
    have hends : Ends (.failing [.subject 0]) [] (drained.world.start (.drain 0 0))
        ((drained.world.start (.drain 0 0)).visited (.failing [.subject 0]) 20)
        ((drained.world.start (.drain 0 0)).run (.failing [.subject 0]) 20) :=
      ends_iff_run.2 ⟨20, rfl, by decide +kernel, rfl⟩
    obtain ⟨-, -, hdrained, -⟩ := (placed_drained.start hout).queued (.failing [.subject 0]) true hts'
    obtain ⟨hcount, hempty⟩ := hdrained 0 _ (.count 2) _ rfl hends fun x _ => hK.minds x
    exact ⟨_, _, hends, hcount, hempty⟩
  · have hout : (.drain 0 0 : Command Empty Bool).Outside true := trivial
    obtain ⟨-, -, -, hpanicked⟩ := (placed_pending.start hout).queued (.failing [.subject 0]) true hts
    have hends : Ends (.failing [.subject 0]) [.draining 0 0 (.client true)]
        ((pending.world.start (.drain 0 0)).step (.failing [.subject 0]))
        [(pending.world.start (.drain 0 0)).step (.failing [.subject 0])]
        (((pending.world.start (.drain 0 0)).step (.failing [.subject 0])).step (.failing [.subject 0])) :=
      .step nofun (.answer trivial rfl)
    obtain ⟨hpanic, ts', hts', hlog⟩ := hpanicked 0 _ ts _ _ "late" _ rfl rfl hends fun x _ => hK.minds x
    have hkept : ts ++ [] = [] ++ ts' := hlog
    rw [List.append_nil, List.nil_append] at hkept
    exact ⟨_, ts', hpanic, hts', hkept ▸ hlength⟩

end State

end DataBinding
