import DataBinding.Proofs.Course.Lane
import DataBinding.Proofs.Deferred.Tasks
/-!
# Values on their way through a queue

A subscription on a scheduler has a gate of its own, and an observer that hands each value to the scheduler as a task
for this gate. Nobody else makes such tasks (`State.defers_of_step`, `Passage.relay`), so what has been received from
upstream is what has been started and what the queue still keeps (`State.Relays`). While the gate is open each
task that is started delivers its value, and once the gate has been shut none does.
-/

namespace DataBinding

variable {F C S : Type} {K : Client F C S} {code : C} {i : SchedulerId}

/-! ## Who hands deliveries to a scheduler -/

/-- A delivery is handed to the scheduler. -/
def Control.Defers (i : SchedulerId) (g : Nat) (y : Observer F C) (v : Value) (c : Control F C) : Prop :=
  c = .run (.schedule i (.deliver g y v))

namespace State
variable {s : State F C S} {g : Nat} {y : Observer F C} {v : Value}

theorem not_defers_notify (o : ObjectId) (u : Value) (l : List (Handler F C)) :
    ¬ (stepNotify s o u l).control.Defers i g y v := by cases l <;> exact nofun

theorem not_defers_publish (j : SubjectId) (u : Value) (l : List (Observer F C)) :
    ¬ (stepPublish s j u l).control.Defers i g y v := by cases l <;> exact nofun

theorem not_defers_task (t : Task F C) : ¬ (stepTask s t).control.Defers i g y v := by
  cases t <;> simp only [stepTask] <;> (try split) <;> (intro h; cases h)

theorem defers_deliver {z : Observer F C} {u : Value} (h : (stepDeliver K s u z).control.Defers i g y v) :
    z = .relocate g i y ∧ u = v := by
  cases z with
  | relocate g' j next =>
    cases h
    exact ⟨rfl, rfl⟩
  | map f next =>
    cases f <;> simp only [stepDeliver, stepMap] at h <;> (try split at h) <;> cases h
  | client | outer => cases h
  | filter | write | skip | distinct | inner | slot => simp only [stepDeliver] at h; split at h <;> cases h

theorem not_defers_frame (signal : Signal C) (f : Frame F C) : ¬ (stepFrame s signal f).control.Defers i g y v := by
  cases f with
  | notifying => exact not_defers_notify _ _ _
  | publishing => exact not_defers_publish _ _ _
  | announcing => exact not_defers_notify _ _ _
  | _ => simp only [stepFrame]; (try split) <;> (intro h; cases h)

theorem defers_of_step (hm : s.Minds K code) (h : (s.step K).control.Defers i g y v) :
    s.control = .run (.deliver (.relocate g i y) v) := by
  obtain ⟨c, fs, w⟩ := s
  cases c with
  | run c =>
    cases c with
    | deliver z u =>
      obtain ⟨rfl, rfl⟩ := defers_deliver h
      rfl
    | set o p u =>
      change (stepSet _ o p u).control.Defers i g y v at h
      simp only [stepSet] at h
      split at h
      · cases h
      · exact (not_defers_notify _ _ _ h).elim
    | next j u => exact (not_defers_publish _ _ _ h).elim
    | schedule j t =>
      change (stepSchedule _ j t).control.Defers i g y v at h
      simp only [stepSchedule] at h
      split at h
      · cases h
      · exact (not_defers_task _ h).elim
    | drain j n =>
      change (stepDrain _ j n).control.Defers i g y v at h
      simp only [stepDrain] at h
      split at h
      · exact (not_defers_task _ h).elim
      · cases h
    | subscribe x z =>
      change (stepSubscribe K _ z x).control.Defers i g y v at h
      cases x <;> simp only [stepSubscribe, stepWatch, stepListen] at h <;> (try split at h) <;> cases h
    | subscribeAll ts rest => cases rest <;> cases h
    | undo t => cases t <;> cases h
    | undoAll ts panic => cases ts <;> [cases panic; skip] <;> cases h
    | write root p u =>
      change (stepWrite _ root p u).control.Defers i g y v at h
      simp only [stepWrite] at h
      split at h <;> cases h
    | dispose n => cases h
    | disposeComposite n =>
      change (stepDisposeComposite _ n).control.Defers i g y v at h
      simp only [stepDisposeComposite] at h
      split at h <;> cases h
    | add n m =>
      change (stepAdd _ n m).control.Defers i g y v at h
      simp only [stepAdd] at h
      split at h <;> cases h
  | resume c signal =>
    -- client code schedules its own tasks only
    have hmove := hm.2
    simp only [State.step] at h
    cases hk : (K.resume c signal w).2 with
    | perform command code =>
      rw [hk] at h hmove
      cases h
      exact hmove.elim
    | _ =>
      rw [hk] at h
      cases h
  | pass signal =>
    cases fs with
    | nil => cases h
    | cons f fs => exact (not_defers_frame _ _ h).elim
  | panic message =>
    cases fs with
    | nil => cases h
    | cons f fs => cases f <;> cases h

/-! ## Gates -/

/-- The subscription with this gate is being disposed of. -/
def Disposes (g : Nat) (s : State F C S) : Prop := ∃ t, s.control = .run (.undo (.relocate g t))

/-- A gate is open until its subscription is disposed of, and never again. -/
theorem gateOpen_step (hm : s.Minds K code) (hg : s.world.heap.There (.gate g)) :
    (s.step K).world.heap.gateOpen g = true ↔ s.world.heap.gateOpen g = true ∧ ¬ s.Disposes g := by
  by_cases hd : s.Disposes g
  · have hshut : (s.step K).world.heap.gateOpen g = false := by
      obtain ⟨t, ht⟩ := hd
      obtain ⟨c, fs, w⟩ := s
      cases ht
      exact (Heap.gateOpen_shutGate w.heap g g).trans (if_pos rfl)
    simp [hshut, hd]
  · have hsame : (s.step K).world.heap.gateOpen g = s.world.heap.gateOpen g := by
      refine (uses_step hm).same (.gate g) hg fun hu => hd ?_
      have hu := hu.symm
      simp only [uses?] at hu
      split at hu <;> cases hu
      exact ⟨_, ‹_›⟩
    simp [hsame, hd]

theorem Continues.gateOpen_iff {e : State F C S} {l : List (State F C S)} (h : s.Continues K code l e)
    (hg : s.world.heap.There (.gate g)) :
    e.world.heap.gateOpen g = true ↔ s.world.heap.gateOpen g = true ∧ ∀ x ∈ l, ¬ x.Disposes g := by
  induction h with
  | here => simp
  | step _ hm _ ih =>
    rw [ih ((uses_step hm).there _ hg), gateOpen_step hm hg, List.forall_mem_cons, and_assoc]
  | @next s h _ _ _ _ _ he _ _ ih =>
    have hu : Heap.Uses none s.world.heap h := .edits he
    have hsame : h.gateOpen g = s.world.heap.gateOpen g := hu.same (.gate g) hg nofun
    rw [ih (hu.there _ hg), ← hsame]
    rfl

end State

/-! ## The passage of a subscription on a scheduler -/

/-- Nobody in particular. -/
def Passage.anywhere : Passage F C where
  leaf _ := True
  given _ := False
  inside _ := False
  own := none
  enters _ _ := False

/-- All observers, of what is under way and of what is kept, use only spots that are there. -/
def State.Placed (s : State F C S) : Prop := s.Clear .anywhere fun _ => False

theorem Passage.sound_anywhere (there : Spot → Prop) : (Passage.anywhere : Passage F C).Sound there code :=
  ⟨fun _ _ => trivial, nofun, nofun, nofun, nofun, nofun, nofun⟩

theorem State.Placed.continues {s e : State F C S} {l : List (State F C S)} (hs : s.Placed)
    (h : s.Continues K code l e) : e.Placed :=
  State.Clear.continues (Passage.sound_anywhere _) hs h

/-- So it is whatever has happened, where nobody had subscribed to anything at first. -/
theorem Heap.Fresh.placed {w : World F C S} {c : Command F C} {l : List (State F C S)} {e : State F C S}
    (hw : w.heap.Fresh) (hc : c.Outside code) (h : (w.start c).Continues K code l e) : e.Placed :=
  State.Placed.continues (hw.clear (fun _ _ => trivial) hc) h

/-- Only this observer hands tasks for the gate to a scheduler. -/
def Passage.relay (g : Nat) (i : SchedulerId) (z : Observer F C) : Passage F C where
  leaf _ := True
  given y := y = .relocate g i z
  inside _ := False
  own := some (.gate g)
  enters _ _ := False

section Relay

variable {s : State F C S} {g : Nat} {y z : Observer F C} {v : Value} {there : Spot → Prop}

/-- Whoever hands tasks for the gate to a scheduler is this observer. -/
theorem Observer.Clear.relay {j : SchedulerId} (hy : (Observer.relocate g j y).Clear (.relay g i z) there) :
    j = i ∧ y = z := by
  rcases hy with hy | hy
  · cases hy
    exact ⟨rfl, rfl⟩
  · exact absurd rfl hy.1.2

/-- What is subscribed to on a scheduler has a gate of its own. -/
theorem State.Placed.relays (K : Client F C S) (code : C) {x : Stream F} (hs : s.Placed) (hc : s.control = .run (.subscribe (.relocate x i) z)) :
    (Passage.relay s.world.heap.gates.size i z).Sound (s.step K).world.heap.There code ∧
      (s.step K).Clear (.relay s.world.heap.gates.size i z) fun _ => False := by
  obtain ⟨c, fs, w⟩ := s
  cases hc
  have hthere := (Heap.Uses.newGate w.heap : Heap.Uses none _ _).there
  have hnew : w.heap.newGate.2.There (.gate w.heap.gates.size) := by simp [Heap.There, Heap.newGate]
  have he : (Passage.anywhere : Passage F C).Eases w.heap.There (.relay w.heap.gates.size i z) w.heap.newGate.2.There := by
    refine ⟨fun _ => id, fun _ => False.elim, fun p hp => ⟨hthere p hp.1, fun ho => ?_⟩, fun _ _ => False.elim⟩
    cases ho
    exact Nat.lt_irrefl _ hp.1
  have hz : z.Clear .anywhere w.heap.There := hs.going.control.resolve_right id
  refine ⟨⟨fun _ _ => trivial, ?_, ?_, ?_, fun _ => False.elim, fun _ _ => False.elim, fun _ _ => False.elim⟩,
    ⟨?_, ?_⟩, ?_⟩
  · rintro p ⟨⟩
    exact hnew
  · rintro y rfl
    exact .inr ⟨_, _, _, rfl⟩
  · rintro y z' rfl hz'
    cases hz'
    exact .inl (hz.eased he)
  · exact .inl (.inl rfl)
  · exact List.forall_mem_cons.2 ⟨trivial, fun f hf => (hs.going.frames f hf).eased he⟩
  · have hcells : w.heap.newGate.2.Clear .anywhere w.heap.There := .of_cells (h := w.heap) ⟨rfl, rfl, rfl⟩ hs.heap
    exact hcells.eased he

/-- The value that a task delivers, if it is for this gate. -/
def Task.value? (g : Nat) : Task F C → Option Value
  | .deliver gate _ v => if gate = g then some v else none
  | .client _ => none

theorem Task.exists_of_value? {t : Task F C} (h : t.value? g = some v) : ∃ y, t = .deliver g y v := by
  cases t with
  | client => cases h
  | deliver gate y u =>
    simp only [value?] at h
    split at h
    · next hg =>
      cases h
      exact ⟨y, hg ▸ rfl⟩
    · cases h

/-- The value that is about to be handed to the scheduler for the gate. -/
def State.relayed? (i : SchedulerId) (g : Nat) (s : State F C S) : Option Value := (s.scheduled? i).bind (Task.value? g)

theorem State.exists_of_relayed? (h : s.relayed? i g = some v) : ∃ y, s.control.Defers i g y v := by
  obtain ⟨t, ht, hv⟩ := Option.bind_eq_some_iff.1 h
  obtain ⟨y, rfl⟩ := Task.exists_of_value? hv
  exact ⟨y, exists_of_scheduled? ht⟩

variable [DecidableEq F] [DecidableEq C]

/-- What the observer is given it hands to the scheduler, and nobody else hands over anything for the gate. -/
theorem State.Clear.relayed?_step (hm : s.Minds K code) (hs : s.Clear (.relay g i z) fun _ => False) :
    (s.step K).relayed? i g = s.value? (.relocate g i z) := by
  cases hv : s.value? (.relocate g i z) with
  | some v =>
    have hc : s.control = .run (.deliver (.relocate g i z) v) := by
      obtain ⟨d, hd, rfl⟩ := Option.map_eq_some_iff.1 hv
      exact (exists_of_delivery? hd).1
    obtain ⟨c, fs, w⟩ := s
    cases hc
    rw [relayed?, scheduled?_self (t := .deliver g z v) rfl]
    simp [Task.value?]
  | none =>
    by_contra hn
    obtain ⟨v, hv'⟩ := Option.ne_none_iff_exists'.1 hn
    obtain ⟨y, hy⟩ := exists_of_relayed? hv'
    have hc := defers_of_step hm hy
    have hclear := hs.going.control
    rw [hc] at hclear
    obtain ⟨-, rfl⟩ := (hclear.resolve_right id).relay
    rw [value?_self hc] at hv
    cases hv

/-- Along a run, what is handed over for the gate is what the observer has received. -/
theorem State.Clear.relayed {e : State F C S} {l : List (State F C S)}
    (hq : (Passage.relay g i z).Sound s.world.heap.There code) (hs : s.Clear (.relay g i z) fun _ => False)
    (h : s.Continues K code l e) (hd : s.relayed? i g = none) (he : e.relayed? i g = none) :
    (scheduled i l).filterMap (Task.value? g) = values (.relocate g i z) l := by
  have hlog := h.transduces (.mapping id) (fun _ => ()) (State.value? (.relocate g i z)) (State.relayed? i g)
    (P := fun s => (Passage.relay g i z).Sound s.world.heap.There code ∧ s.Clear (.relay g i z) fun _ => False)
    ?_ ?_ (show ∀ x ∈ l, True from fun _ _ => trivial) ⟨hq, hs⟩
  · have hhanded : (scheduled i l).filterMap (Task.value? g) = l.filterMap (State.relayed? i g) := by
      rw [scheduled, List.filterMap_filterMap]
      rfl
    have hlast : [e].filterMap (State.relayed? i g) = [] := by simp [he]
    rw [hd, Transducer.run_mapping, List.map_id, List.filterMap_append, hlast, List.append_nil] at hlog
    exact hhanded.trans hlog
  · rintro s hm - ⟨hq, hs⟩
    have hu := State.uses_step hm
    refine ⟨⟨hq.mono hu.there, (hs.step hm hq).imp fun _ => And.left⟩, ?_, rfl⟩
    rw [hs.relayed?_step hm]
    cases s.value? (.relocate g i z) <;> rfl
  · rintro s h k c hf he hc ⟨hq, hs⟩
    have hu : Heap.Uses none s.world.heap h := .edits he
    have hnone : ∀ s : State F C S, (∀ y v, ¬ s.control.Defers i g y v) → s.relayed? i g = none := by
      intro s hs
      by_contra hn
      obtain ⟨v, hv⟩ := Option.ne_none_iff_exists'.1 hn
      obtain ⟨y, hy⟩ := State.exists_of_relayed? hv
      exact hs y v hy
    refine ⟨hnone _ fun y v hv => ?_, ⟨hq.mono hu.there, hs.start k hq.leaf he hc⟩, hnone _ fun y v hv => ?_, rfl⟩
    · have ha := ((State.finished_iff s).1 hf).1
      rw [hv] at ha
      exact ha
    · cases hv
      exact hc

end Relay

end DataBinding
