import DataBinding.Proofs.Course.Continues
/-!
# Tasks of a queue

A queue keeps what is scheduled with it, in this order, until a drain takes it from there and starts it: what it kept
before and what is scheduled is what is started and what it keeps afterwards (`State.Continues.tasks`). So it is in
any run, whatever the tasks do. A drain that returns has left nothing and tells how many tasks it has started itself
(`State.Ends.drained`); when a task panics it is gone from the queue, and only that (`State.Ends.panicked`).
-/

namespace DataBinding

variable {F C S : Type} {K : Client F C S} {code : C} {i : SchedulerId}

namespace State

/-- The task that is about to be handed to the scheduler. -/
def scheduled? (i : SchedulerId) (s : State F C S) : Option (Task F C) :=
  match s.control with
  | .run (.schedule j t) => if j = i then some t else none
  | _ => none

/-- The task that a drain of the scheduler is about to start. -/
def started? (i : SchedulerId) (s : State F C S) : Option (Task F C) :=
  match s.control with
  | .run (.drain j _) => if j = i then (s.world.heap.tasks? i).bind List.head? else none
  | _ => none

end State

/-- What is handed to the scheduler along the way. -/
def scheduled (i : SchedulerId) (l : List (State F C S)) : List (Task F C) := l.filterMap (State.scheduled? i)

/-- What is started by drains of the scheduler along the way. -/
def started (i : SchedulerId) (l : List (State F C S)) : List (Task F C) := l.filterMap (State.started? i)

namespace State

variable {s e : State F C S} {l : List (State F C S)} {ts : List (Task F C)}

theorem scheduled?_self {t : Task F C} (hs : s.control = .run (.schedule i t)) : s.scheduled? i = some t := by
  simp only [scheduled?, hs, if_true]

theorem started?_drain {n : Nat} (hs : s.control = .run (.drain i n)) :
    s.started? i = (s.world.heap.tasks? i).bind List.head? := by
  simp only [started?, hs, if_true]

theorem exists_of_scheduled? {t : Task F C} (hs : s.scheduled? i = some t) : s.control = .run (.schedule i t) := by
  unfold scheduled? at hs
  split at hs
  · next j t' hc =>
    obtain ⟨rfl, rfl⟩ : j = i ∧ t' = t := by simpa using hs
    exact hc
  · cases hs

theorem exists_of_started? {t : Task F C} (hs : s.started? i = some t) :
    ∃ n ts, s.control = .run (.drain i n) ∧ s.world.heap.tasks? i = some (t :: ts) := by
  unfold started? at hs
  split at hs
  · next j n hc =>
    obtain ⟨rfl, hs⟩ : j = i ∧ (s.world.heap.tasks? i).bind List.head? = some t := by simpa using hs
    obtain ⟨ts, hts, hhead⟩ := Option.bind_eq_some_iff.1 hs
    obtain ⟨ts, rfl⟩ := List.head?_eq_some_iff.1 hhead
    exact ⟨n, ts, hc, hts⟩
  · cases hs

/-- A step takes a task from the queue if it starts it, and keeps it if it is scheduled. -/
theorem tasks_queue (hm : s.Minds K code) (hq : s.world.heap.tasks? i = some ts) :
    ∃ ts', (s.step K).world.heap.tasks? i = some ts' ∧
      ts ++ (s.scheduled? i).toList = (s.started? i).toList ++ ts' := by
  by_cases hu : s.uses? = some (.queue i)
  · rcases queue_of_uses? hu with ⟨t, hc⟩ | ⟨n, hc⟩
    · refine ⟨ts ++ [t], by rw [tasks?_schedule hc, hq, Option.map_some], ?_⟩
      simp [scheduled?, started?, hc]
    · refine ⟨ts.tail, by rw [tasks?_drain hc, hq, Option.map_some], ?_⟩
      rw [started?_drain hc, hq]
      cases ts <;> simp [scheduled?, hc]
  · -- neither is anything scheduled with this queue, nor is it drained
    have hsame : (s.step K).world.heap.tasks? i = s.world.heap.tasks? i :=
      (uses_step hm).same _ (Heap.there_of_tasks? hq) fun he => hu he.symm
    have hscheduled : s.scheduled? i = none := by
      by_contra hn
      obtain ⟨t, ht⟩ := Option.ne_none_iff_exists'.1 hn
      exact hu (by simp only [uses?, exists_of_scheduled? ht])
    have hstarted : s.started? i = none := by
      by_contra hn
      obtain ⟨t, ht⟩ := Option.ne_none_iff_exists'.1 hn
      obtain ⟨n, _, hc, -⟩ := exists_of_started? ht
      exact hu (by simp only [uses?, hc])
    exact ⟨ts, hsame.trans hq, by simp [hscheduled, hstarted]⟩

/-- **Tasks start in the order in which they were scheduled.** -/
theorem Continues.tasks (h : s.Continues K code l e) (hq : s.world.heap.tasks? i = some ts) :
    ∃ ts', e.world.heap.tasks? i = some ts' ∧ ts ++ scheduled i l = started i l ++ ts' := by
  induction h generalizing ts with
  | here => exact ⟨ts, hq, by simp [scheduled, started]⟩
  | @step s l e _ hm _ ih =>
    obtain ⟨ts₁, hq₁, hstep⟩ := tasks_queue hm hq
    obtain ⟨ts', hq', hrest⟩ := ih hq₁
    refine ⟨ts', hq', ?_⟩
    have hscheduled : scheduled i (s :: l) = (s.scheduled? i).toList ++ scheduled i l := by
      cases ho : s.scheduled? i <;> simp [scheduled, ho]
    have hstarted : started i (s :: l) = (s.started? i).toList ++ started i l := by
      cases ho : s.started? i <;> simp [started, ho]
    rw [hscheduled, hstarted, ← List.append_assoc, hstep, List.append_assoc, hrest, List.append_assoc]
  | @next s h _ _ _ _ _ he _ _ ih =>
    have hu : Heap.Uses none s.world.heap h := .edits he
    have hsame : h.tasks? i = s.world.heap.tasks? i := hu.same _ (Heap.there_of_tasks? hq) nofun
    exact ih (hsame.trans hq)

/-! ## Drains -/

/-- The state of a drain that starts a task. -/
theorem frames_step_drain (K : Client F C S) (n : Nat) (base : List (Frame F C)) (w : World F C S) {t : Task F C}
    (hq : w.heap.tasks? i = some (t :: ts)) :
    (step K ⟨.run (.drain i n), base, w⟩).frames = .draining i n t :: base := by
  rw [step_drain_cons hq]
  cases t with
  | deliver gate y v => simp only [stepTask]; split <;> rfl
  | client => rfl

/-- What happens above these frames happens at greater depth. -/
theorem Ends.filter_frames_eq_nil {f : Frame F C} {base : List (Frame F C)} (h : Ends K (f :: base) s l e)
    (hb : f :: base <:+ s.frames) : l.filter (·.frames.length = base.length) = [] := by
  rw [List.filter_eq_nil_iff]
  intro x hx hlen
  have hle := (h.suffix hb x hx).length_le
  have hlength := of_decide_eq_true hlen
  rw [List.length_cons] at hle
  omega

/-- **A drain that returns leaves the queue empty and tells how many tasks it has started itself.** -/
theorem Ends.drained {n : Nat} {base : List (Frame F C)} {w w' : World F C S} {signal : Signal C}
    (h : Ends K base ⟨.run (.drain i n), base, w⟩ l ⟨.pass signal, base, w'⟩) (hm : ∀ x ∈ l, x.Minds K code)
    (hq : w.heap.tasks? i = some ts) :
    signal = .count (n + (started i (l.filter (·.frames.length = base.length))).length) ∧
      w'.heap.tasks? i = some [] := by
  -- by the length of the run, one task after the other
  induction hlen : l.length using Nat.strongRecOn generalizing l n w ts with
  | _ len ih =>
    obtain ⟨l', rfl, h'⟩ := h.next nofun
    obtain ⟨-, hml⟩ := List.forall_mem_cons.1 hm
    cases ts with
    | nil =>
      rw [step_drain_done (by simp [hq])] at h'
      obtain ⟨rfl, he⟩ := h'.unique (.answer trivial rfl)
      cases he
      simp [started, started?, hq]
    | cons t ts =>
      have hframes := frames_step_drain K n base w hq
      have hsuffix : .draining i n t :: base <:+ (State.step K ⟨.run (.drain i n), base, w⟩).frames :=
        hframes ▸ List.suffix_refl _
      obtain ⟨l₁, s₁, l₂, rfl, h₁, h₂⟩ := h'.split (List.suffix_cons _ _) hsuffix
      obtain ⟨hm₁, hm₂⟩ := List.forall_mem_append.1 hml
      have hq₁ : (State.step K ⟨.run (.drain i n), base, w⟩).world.heap.tasks? i = some ts := by
        rw [tasks?_drain rfl, hq]
        rfl
      obtain ⟨ts₁, hq₁, -⟩ := (h₁.continues hsuffix hm₁).tasks hq₁
      obtain ⟨ha₁, hf₁⟩ := h₁.answered
      obtain ⟨c₁, fs₁, w₁⟩ := s₁
      obtain rfl : fs₁ = .draining i n t :: base := hf₁
      obtain ⟨l₃, rfl, h₃⟩ := h₂.next fun _ hb => absurd (congrArg List.length hb) (Nat.succ_ne_self _)
      cases c₁ with
      | run | resume => exact ha₁.elim
      | panic m =>
        obtain ⟨-, he⟩ := h₃.unique (.answer trivial rfl)
        cases he
      | pass signal₁ =>
        obtain ⟨-, hm₃⟩ := List.forall_mem_cons.1 hm₂
        obtain ⟨hsignal, hempty⟩ := ih _ (by simp [← hlen]; omega) h₃ hm₃ hq₁ rfl
        refine ⟨?_, hempty⟩
        rw [hsignal]
        simp [started, started?, hq, h₁.filter_frames_eq_nil hsuffix]
        omega

/-- **A task that panics is gone from the queue, and only that:** the panic goes on, and what is kept is what was
behind the task and has been scheduled since, but for what other drains have started. -/
theorem Ends.panicked {n : Nat} {t : Task F C} {base fs : List (Frame F C)} {w w' : World F C S} {m : String}
    (hq : w.heap.tasks? i = some (t :: ts))
    (h : Ends K (.draining i n t :: base) (State.step K ⟨.run (.drain i n), base, w⟩) l ⟨.panic m, fs, w'⟩)
    (hm : ∀ x ∈ l, x.Minds K code) :
    State.step K ⟨.panic m, fs, w'⟩ = ⟨.panic m, base, w'⟩ ∧
      ∃ ts', w'.heap.tasks? i = some ts' ∧ ts ++ scheduled i l = started i l ++ ts' := by
  have hframes := frames_step_drain K n base w hq
  have hq₁ : (State.step K ⟨.run (.drain i n), base, w⟩).world.heap.tasks? i = some ts := by
    rw [tasks?_drain rfl, hq]
    rfl
  obtain ⟨-, hfs⟩ := h.answered
  obtain rfl : fs = .draining i n t :: base := hfs
  exact ⟨rfl, (h.continues (hframes ▸ List.suffix_refl _) hm).tasks hq₁⟩

end State

end DataBinding
