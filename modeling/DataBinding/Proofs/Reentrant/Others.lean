import DataBinding.Proofs.Reentrant.Attached
/-!
# What others do leaves the chain attached

Each step of others is to something else of theirs, or under a frame that goes on with something of
theirs. So what they do in `n` steps leaves the chain attached if what they do in fewer does. One lemma
for each kind of command; assignments, which tell the chain, come later.
-/

namespace DataBinding.Chain

variable {F C S : Type} {c : Chain C} {K : Client F C S} {seen : S → List Value}
  {past : List (State F C S)} {n m : Nat} {pending : List (ObjectId × Nat)} {w : World F C S}
  {regs : List (Registration F C)} {v : Value} {base : List (Frame F C)} {control : Control F C}

open State

/-- Changes of cells that are none of the chain's. -/
theorem Attached.passes_cells (ha : c.Attached seen past pending w regs v) {h' : Heap F C}
    (ho : h'.objects = w.heap.objects) (hs : h'.switches = w.heap.switches)
    (hm : h'.memories = w.heap.memories) : c.Passes c.Spares w.heap h' :=
  ha.tidy.passes_cells ho hs (Nat.le_of_eq (by rw [hm])) fun _ _ => by simp only [Heap.memory, hm]

variable (hK : K.Assigns seen c.code) (ih : ∀ m < n, c.Endures K seen m)
  (ha : c.Attached seen past pending w regs v)
include ih ha

section Resume
include hK

theorem Attached.resume {x : C} {signal : Signal C} (hx : x = c.code → ∀ u, signal ≠ .value u) :
    Keeps K State.Valid n base past ⟨.resume x signal, base, w⟩ (c.Done seen pending w.heap) := by
  refine .go id fun _ m hm => ?_
  have hh := hK.heap x signal w
  have ha₁ : c.Attached seen (past ++ [⟨.resume x signal, base, w⟩]) pending
      (K.resume x signal w).1 regs v := by
    have hside : c.Aside (.resume x signal : Control F C) := hx
    refine (ha.passes _ ?_ ?_ (hK.silent x signal w hx)).one hside.silent
    · rw [hh]
      exact .refl _
    · rw [hh]
      exact ha.tidy
  have := ha₁.move ih hm (hK.moves x signal w) (.resume x signal) base
  rw [hh] at this
  exact this

end Resume

/-! ## Deliveries -/

/-- The first value of an inner stream of another switch, which then keeps the subscription or not. -/
theorem Attached.inner {i g : Nat} {next : Observer F C} {t : Teardown C} (x : Stream F) (hm : m < n)
    (hs : c.Spares (.inner i g next)) (hu : w.heap.Undoes i t) (u : Value) :
    Keeps K State.Valid m base past ⟨.run (.deliver (.inner i g next) u),
      .subscribed (.inner i g next) t :: .entering i g x :: base, w⟩
      (c.Done seen pending w.heap) := by
  refine .call (f := .entering i g x) (R := fun past signal w' =>
    signal = .subscription t ∧ c.Done seen pending w.heap past signal w') (List.suffix_cons _ _) ?_ ?_
  · refine .call (List.suffix_refl _) (ih m hm _ _ _ _ _ _ _ hs ha) ?_
    rintro past' signal w' ⟨-, ⟨regs', v', ha'⟩, ho⟩
    exact .back fun _ _ => .pass ⟨rfl, by simp, ⟨regs', v', ha'.one (silent_pass signal)⟩, ho⟩
  · rintro past' _ w' ⟨rfl, -, ⟨regs', v', ha'⟩, ho⟩
    obtain ⟨L, hL, hd⟩ := leads_entering K base w'.client (.subscription t) (ho.undoes hu) g x
    have hp := ha'.tidy.passes_entered hs.1 (ho.undoes hu) g
    have ha₁ := (ha'.passes ⟨_, w'.client⟩ hp.leaves hp.tidy rfl).more L
      (silent_of_not_delivers hd)
    exact .leads hL (.pass ⟨by simp, ⟨regs', v', ha₁⟩, ho.trans (.of_leaves hp.leaves)⟩)

/-- An inner stream of another switch is subscribed to. -/
theorem Attached.subscribe_inner {i g : Nat} {next : Observer F C} {x : Stream F} (hm : m < n)
    (hs : c.Spares (.inner i g next)) (hx : x = .just .null ∨ ∃ o p t, x = .watch o p t) :
    Keeps K State.Valid m base past ⟨.run (.subscribe x (.inner i g next)), .entering i g x :: base, w⟩
      (c.Done seen pending w.heap) := by
  have hside : c.Aside (.run (.subscribe x (.inner i g next))) := by
    obtain rfl | ⟨o, p, t, rfl⟩ := hx <;> exact ⟨trivial, hs⟩
  have ha₁ : c.Attached seen
      (past ++ [⟨.run (.subscribe x (.inner i g next)), .entering i g x :: base, w⟩]) pending w regs v :=
    ha.one hside.silent
  have ht : w.heap.Undoes i (.nothing : Teardown C) := trivial
  refine .go id fun _ k hk => ?_
  have hk' := Nat.lt_trans hk hm
  obtain rfl | ⟨o, p, t, rfl⟩ := hx
  · exact ha₁.inner ih (.just .null) hk' hs ht .null
  by_cases halive : State.alive K ⟨.run (.subscribe (.watch o p t) (.inner i g next)),
      .entering i g (.watch o p t) :: base, w⟩ (.object o) = true
  · have hw := ha.tidy.passes_addHandler o t p p.isEmpty (code?_of_spares hs) hs
    have ha₂ := ha₁.passes ⟨_, w.client⟩ hw.leaves hw.tidy rfl
    rw [step_watch halive]
    refine (ha₂.inner ih (.watch o p t) hk' hs ?_ _).mono fun _ _ _ hd => hd.after (.of_leaves hw.leaves)
    exact Heap.belongs_addHandler o t p p.isEmpty ha.tidy.numbered i g next
  · obtain ⟨L, hL, hd⟩ := leads_entering K base w.client (.subscription .nothing) ht g (.watch o p t)
    have hw := ha.tidy.passes_entered hs.1 ht g
    have ha₂ := (ha₁.passes ⟨_, w.client⟩ hw.leaves hw.tidy rfl).more L
      (silent_of_not_delivers hd)
    rw [step_watch_dead halive]
    exact .leads hL (.pass ⟨by simp, ⟨regs, v, ha₂⟩, .of_leaves hw.leaves⟩)

/-- Another switch takes its next inner stream. -/
theorem Attached.outer {i : Nat} {p : String} {t : Timing} {next : Observer F C}
    (hs : c.Spares (.outer i (.link p t) next)) (u : Value) :
    Keeps K State.Valid n base past ⟨.run (.deliver (.outer i (.link p t) next) u), base, w⟩
      (c.Done seen pending w.heap) := by
  have hside : c.Aside (.run (.deliver (.outer i (.link p t) next) u)) := hs
  obtain ⟨L, hL, hd⟩ := leads_outer K base w.client ha.tidy.numbered i (.link p t) next u
  refine .leads_lt hL fun m hm => ?_
  have hp := ha.tidy.passes_restarted hs.1
  have ha₁ := (ha.passes ⟨w.heap.restarted i, w.client⟩ hp.leaves hp.tidy rfl).more
    (⟨.run (.deliver (.outer i (.link p t) next) u), base, w⟩ :: L)
    (List.forall_mem_cons.2 ⟨hside.silent, silent_of_not_delivers hd⟩)
  refine Keeps.mono (R := c.Done seen pending (w.heap.restarted i)) ?_ fun _ _ _ hdone =>
    hdone.after (.of_leaves hp.leaves)
  rw [switched]
  split
  · exact .pass (ha₁.done (by simp))
  · refine ha₁.subscribe_inner ih hm ⟨hs.1, hs.2.2⟩ ?_
    cases u with
    | object o => exact .inr ⟨o, p, t, rfl⟩
    | _ => exact .inl rfl

theorem Attached.schedule {i : SchedulerId} {gate : Nat} {x : Observer F C} (hx : c.Spares x)
    (u : Value) :
    Keeps K State.Valid n base past ⟨.run (.schedule i (.deliver gate x u)), base, w⟩
      (c.Done seen pending w.heap) := by
  have hside : c.Aside (.run (.schedule i (.deliver gate x u))) := hx
  have hsame : c.Passes c.Spares w.heap w.heap := .refl ha.tidy
  cases ht : w.heap.tasks? i with
  | some tasks =>
    refine ha.go ih id hside (.pass .done)
      ⟨w.heap.setTasks i (tasks ++ [.deliver gate x u]), w.client⟩ (by simp [Aside]) ?_
      (ha.passes_cells rfl rfl rfl) rfl
    simp only [State.step, stepCommand, stepSchedule, ht]
    rfl
  | none =>
    by_cases hg : w.heap.gateOpen gate = true
    · refine ha.go ih id hside (.run (.deliver x u)) w hx ?_ hsame rfl
      simp only [State.step, stepCommand, stepSchedule, ht, stepTask, hg]
      rfl
    · refine ha.go ih id hside (.pass .done) w (by simp [Aside]) ?_ hsame rfl
      simp only [State.step, stepCommand, stepSchedule, ht, stepTask, hg]
      rfl

theorem Attached.write (root : ObjectId) (p : Path) (u : Value) :
    Keeps K State.Valid n base past ⟨.run (.write root p u), base, w⟩
      (c.Done seen pending w.heap) := by
  have hsame : c.Passes c.Spares w.heap w.heap := .refl ha.tidy
  have hside : c.Aside (.run (.write root p u) : Control F C) := trivial
  cases ht : w.heap.target? root p with
  | some target =>
    refine ha.go ih id hside (.run (.set target.1 target.2 u)) w trivial ?_ hsame rfl
    simp only [State.step, stepCommand, stepWrite, ht]
    rfl
  | none =>
    refine ha.go ih id hside (.pass (.flag false)) w (by simp [Aside]) ?_ hsame rfl
    simp only [State.step, stepCommand, stepWrite, ht]
    rfl

include hK in
/-- A value is delivered to another observer. -/
theorem Attached.deliver {x : Observer F C} (hx : c.Spares x) (u : Value) :
    Keeps K State.Valid n base past ⟨.run (.deliver x u), base, w⟩ (c.Done seen pending w.heap) := by
  have hside : c.Aside (.run (.deliver x u)) := hx
  have hsame : c.Passes c.Spares w.heap w.heap := .refl ha.tidy
  cases hop : x.operand? with
  | some next =>
    have hnext : c.Spares next := by
      cases x <;> simp_all [Observer.operand?, Spares]
    obtain ⟨w₁, hp, hw, he | ⟨u', he⟩⟩ := ha.tidy.step_operator hK.pure hop hx u base
    · exact ha.go ih id hside (.pass .done) w₁ (by simp [Aside]) he hp hw
    · exact ha.go ih id hside (.run (.deliver next u')) w₁ hnext he hp hw
  | none =>
    cases x with
    | client code =>
      exact ha.go ih id hside (.resume code (.value u)) w (fun he => absurd he hx) rfl
        hsame rfl
    | write root p =>
      by_cases halive : State.alive K ⟨.run (.deliver (.write root p) u), base, w⟩ (.object root) = true
      · refine ha.go_under ih id hside (.run (.write root p u)) (.writing root) w trivial
          ?_ hsame rfl (aside_frame (fun _ => .done) (by simp) fun _ _ => rfl)
        simp only [State.step, stepCommand, stepDeliver]
        rw [if_pos halive]
        rfl
      · refine ha.go ih id hside (.pass .done) w (by simp [Aside]) ?_ hsame rfl
        simp only [State.step, stepCommand, stepDeliver]
        rw [if_neg halive]
        rfl
    | outer i select next =>
      cases select with
      | link p t => exact ha.outer ih hx u
      | stream => exact absurd rfl hx.2.1
    | relocate gate i next =>
      exact ha.go ih id hside (.run (.schedule i (.deliver gate next u))) w hx rfl hsame rfl
    | _ => simp [Observer.operand?] at hop

/-! ## Subscriptions -/

theorem Attached.subscribeAll (members : List (Teardown C)) {rest : List (Stream F × Observer F C)}
    (hr : ∀ p ∈ rest, p.1.Plain ∧ c.Spares p.2) :
    Keeps K State.Valid n base past ⟨.run (.subscribeAll members rest), base, w⟩
      (c.Done seen pending w.heap) := by
  have hside : c.Aside (.run (.subscribeAll members rest)) := hr
  have hsame : c.Passes c.Spares w.heap w.heap := .refl ha.tidy
  cases rest with
  | nil =>
    exact ha.go ih id hside (.pass (.subscription (.all members))) w (by simp [Aside]) rfl hsame rfl
  | cons p rest =>
    obtain ⟨hp, hr⟩ := List.forall_mem_cons.1 hr
    exact ha.go_under ih id hside (.run (.subscribe p.1 p.2)) (.gathering p.2 members rest) w hp rfl
      hsame rfl fun signal _ _ =>
        ⟨.run (.subscribeAll (members ++ [signal.teardown]) rest), hr, rfl⟩

/-- Others subscribe to a stream. -/
theorem Attached.subscribe {x : Stream F} {y : Observer F C} (hx : x.Plain) (hy : c.Spares y) :
    Keeps K State.Valid n base past ⟨.run (.subscribe x y), base, w⟩ (c.Done seen pending w.heap) := by
  have hside : c.Aside (.run (.subscribe x y)) := ⟨hx, hy⟩
  have hsame : c.Passes c.Spares w.heap w.heap := .refl ha.tidy
  have hsub : ∀ t : Teardown C, ∀ (signal : Signal C) (w' : World F C S), (∀ u, signal ≠ .value u) →
      ∃ control', c.Aside control' ∧ stepFrame (⟨.pass signal, base, w'⟩ : State F C S) signal
        (.subscribed y t) = ⟨control', base, w'⟩ :=
    fun t => aside_frame (fun _ => .subscription t) (by simp) fun _ _ => rfl
  cases x with
  | empty =>
    exact ha.go ih id hside (.pass (.subscription .nothing)) w (by simp [Aside]) rfl hsame rfl
  | just u =>
    exact ha.go_under ih id hside (.run (.deliver y u)) (.subscribed y .nothing) w hy rfl hsame rfl
      (hsub .nothing)
  | watch o p t =>
    by_cases halive : State.alive K ⟨.run (.subscribe (.watch o p t) y), base, w⟩ (.object o) = true
    · have hw := ha.tidy.passes_addHandler o t p p.isEmpty (code?_of_spares hy) hy
      exact ha.go_under ih id hside (.run (.deliver y _)) (.subscribed y (.handler o _)) ⟨_, w.client⟩
        hy (step_watch halive) hw rfl (hsub _)
    · exact ha.go ih id hside (.pass (.subscription .nothing)) w (by simp [Aside])
        (step_watch_dead halive) hsame rfl
  | constant root p =>
    exact ha.go_under ih id hside (.run (.deliver y _)) (.subscribed y .nothing) w hy rfl hsame rfl
      (hsub .nothing)
  | subject i =>
    by_cases halive : State.alive K ⟨.run (.subscribe (.subject i) y), base, w⟩ (.subject i) = true
    · refine ha.go ih id hside (.pass (.subscription (.observer i (w.heap.addObserver i y).1)))
        ⟨(w.heap.addObserver i y).2, w.client⟩ (by simp [Aside]) ?_ (ha.passes_cells rfl rfl rfl) rfl
      simp only [State.step, stepCommand, stepSubscribe, stepListen]
      rw [if_pos halive]
      rfl
    · refine ha.go ih id hside (.pass (.subscription .nothing)) w (by simp [Aside]) ?_ hsame rfl
      simp only [State.step, stepCommand, stepSubscribe, stepListen]
      rw [if_neg halive]
      rfl
  | map x f => exact ha.go ih id hside (.run (.subscribe x (.map f y))) w ⟨hx.1, hx.2, hy⟩ rfl hsame rfl
  | filter x f => exact ha.go ih id hside (.run (.subscribe x (.filter f y))) w ⟨hx, hy⟩ rfl hsame rfl
  | skip x k =>
    exact ha.go ih id hside (.run (.subscribe x (.skip _ y))) ⟨(w.heap.newCounter k).2, w.client⟩
      ⟨hx, hy⟩ rfl (ha.passes_cells rfl rfl rfl) rfl
  | distinct x =>
    -- a cell that is made now is not the chain's
    have hm : c.memory ≠ some w.heap.memories.size := fun hm =>
      absurd (ha.live.memory _ hm) (Nat.lt_irrefl _)
    refine ha.go ih id hside (.run (.subscribe x (.distinct w.heap.memories.size y)))
      ⟨w.heap.newMemory.2, w.client⟩ ⟨hx, hm, hy⟩ rfl ?_ rfl
    refine ha.tidy.passes_cells rfl rfl (by simp [Heap.newMemory]) fun m hm' => ?_
    have hne : m ≠ w.heap.memories.size := Nat.ne_of_lt (ha.live.memory m hm')
    simp [Heap.memory, Heap.newMemory, Array.getElem?_push, hne]
  | switch x select =>
    -- nor is a switch
    have hi : w.heap.switches.size ∉ c.links.map Link.switch := by
      intro hm
      obtain ⟨l, hl, he⟩ := List.mem_map.1 hm
      exact absurd (ha.live.running l hl).1 (Nat.not_lt_of_le (Nat.le_of_eq he.symm))
    exact ha.go_under ih id hside (.run (.subscribe x (.outer w.heap.switches.size select y)))
      (.opening w.heap.switches.size) ⟨w.heap.newSwitch.2, w.client⟩ ⟨hx.1, hi, hx.2, hy⟩ rfl
      (ha.tidy.passes_newSwitch hi) rfl
      (aside_frame (fun signal => .subscription (.switch w.heap.switches.size signal.teardown))
        (by simp) fun _ _ => rfl)
  | relocate x i =>
    exact ha.go_under ih id hside (.run (.subscribe x (.relocate w.heap.gates.size i y)))
      (.relocating w.heap.gates.size) ⟨w.heap.newGate.2, w.client⟩ ⟨hx, hy⟩ rfl
      (ha.passes_cells rfl rfl rfl) rfl
      (aside_frame (fun signal => .subscription (.relocate w.heap.gates.size signal.teardown))
        (by simp) fun _ _ => rfl)
  | merge xs =>
    refine ha.go ih id hside (.run (.subscribeAll [] (xs.map (·, y)))) w (fun p hp => ?_) rfl hsame rfl
    obtain ⟨z, hz, rfl⟩ := List.mem_map.1 hp
    exact ⟨plainStreams_iff.1 hx z hz, hy⟩
  | combineLatest xs =>
    refine ha.go ih id hside (.run (.subscribeAll [] (xs.mapIdx fun k z =>
      (z, .slot (w.heap.newJoin xs.length).1 k y)))) ⟨(w.heap.newJoin xs.length).2, w.client⟩
      (fun p hp => ?_) rfl (ha.passes_cells rfl rfl rfl) rfl
    obtain ⟨k, hk, rfl⟩ := List.mem_mapIdx.1 hp
    exact ⟨plainStreams_iff.1 hx _ (List.getElem_mem hk), hy⟩

end DataBinding.Chain
