import Mathlib.Data.List.Nodup
import DataBinding.Proofs.Heap.Records
import DataBinding.Proofs.Machine.Tally
/-!
# Histories

What a step of the machine does to rosters is told by the state (`State.event?`): it registers whom
`State.registers?` names, or takes off the id that it is to undo, or leaves all rosters alone
(`State.records_step`).

Between such steps client code acts. It is free to do to the heap what it likes, but rosters and subscriptions it
deals with as it is meant to (`Heap.Deals`): it registers handlers and keeps their subscriptions, it keeps a
subscription that it has been handed, once, and all that it disposes of is in a handle or in a composite. A history is
such a course of the machine, with a log of all that happens to rosters (`State.History`).

How often an id is on a roster changes as the log says (`Heap.Records.holds`), and so does what there is to be undone
(`Heap.Deal.tally_le`, `State.tally_step`). So along a history the rosters are as the log has it, and there is one
teardown at most for each registration, wherever it is kept (`State.Orderly`, `State.History.orderly`).
-/

namespace DataBinding

variable {F C S : Type}

/-- The id that is taken off, if undoing it is no more than that. -/
def Teardown.place? : Teardown C → Option (Node × Nat)
  | .handler o id => some (.object o, id)
  | .observer i id => some (.subject i, id)
  | _ => none

namespace State

/-- The id that the step takes off. -/
def strikes? (s : State F C S) : Option (Node × Nat) :=
  match s.control with
  | .run (.undo t) => t.place?
  | _ => none

/-- What the step does to rosters. -/
def event? (K : Client F C S) (s : State F C S) : Option (RosterEvent F C) :=
  ((s.registers? K).map fun (n, y) => .enrolled n (s.world.heap.nextId n, y)).or
    (s.strikes?.map fun (n, id) => .struck n id)

end State

/-! ## Steps of the machine -/

namespace Heap

variable {h h' : Heap F C}

/-- Neither objects nor subjects have changed. -/
theorem Records.of_tables (ho : h'.objects = h.objects) (hs : h'.subjects = h.subjects) (hh : h'.handles = h.handles) :
    h.Records .none h' :=
  .none (fun n => by cases n <;> simp only [roster, handlers, ho, hs])
    (fun n => by cases n <;> simp only [nextId, nextHandler, ho, hs]) (.of_eq hh)

end Heap

namespace State

open Heap (Records)

section Steps
variable {K : Client F C S} (fs : List (Frame F C)) (w : World F C S)

theorem records_notify (s : State F C S) (o : ObjectId) (v : Value) (l : List (Handler F C)) :
    s.world.heap.Records none (stepNotify s o v l).world.heap := by
  rw [world_notify]
  exact .refl _

theorem records_set (s : State F C S) (o : ObjectId) (p : String) (v : Value) :
    s.world.heap.Records none (stepSet s o p v).world.heap := by
  simp only [stepSet]
  split
  · exact .refl _
  · rw [world_notify]
    exact .of_alike (Heap.alike_put ..)

theorem records_subscribe (x : Stream F) (y : Observer F C)
    (hp : ∀ p ∈ registers? K ⟨.run (.subscribe x y), fs, w⟩, p.1 ∈ nodes ⟨.run (.subscribe x y), fs, w⟩) :
    w.heap.Records (event? K ⟨.run (.subscribe x y), fs, w⟩)
      (stepSubscribe K ⟨.run (.subscribe x y), fs, w⟩ y x).world.heap := by
  cases x with
  | watch o p t =>
    simp only [event?, registers?, stepSubscribe, stepWatch] at hp ⊢
    split
    · next ha =>
      have ho : o < w.heap.objects.size := by simpa [ha, nodes] using hp
      exact .enrolled (w.heap.enrolls_addHandler ho t p p.isEmpty y)
    · exact .refl _
  | subject i =>
    simp only [event?, registers?, stepSubscribe, stepListen] at hp ⊢
    split
    · next ha =>
      have hi : i < w.heap.subjects.size := by simpa [ha, nodes] using hp
      exact .enrolled (w.heap.enrolls_addObserver hi y)
    · exact .refl _
  | _ => exact .of_tables rfl rfl rfl

theorem records_deliver (v : Value) (y : Observer F C) (hn : ¬ ClientActs ⟨.run (.deliver y v), fs, w⟩) :
    w.heap.Records none (stepDeliver K ⟨.run (.deliver y v), fs, w⟩ v y).world.heap := by
  cases y with
  | map f next =>
    cases f with
    | apply f => exact absurd trivial hn
    | emptyIfNull => simp only [stepDeliver, stepMap]; split <;> exact .of_tables rfl rfl rfl
    | _ => exact .refl _
  | filter f next => exact absurd trivial hn
  | write | skip | distinct | inner | slot => simp only [stepDeliver]; split <;> exact .of_tables rfl rfl rfl
  | _ => exact .of_tables rfl rfl rfl

theorem records_undo (t : Teardown C) :
    w.heap.Records (event? K ⟨.run (.undo t), fs, w⟩) (stepUndo ⟨.run (.undo t), fs, w⟩ t).world.heap := by
  cases t with
  | handler o id => exact .struck (w.heap.strikes_removeHandler o id)
  | observer i id => exact .struck (w.heap.strikes_removeObserver i id)
  | _ => exact .of_tables rfl rfl rfl

theorem records_add (c n : Nat) (s : State F C S) : s.world.heap.Records none (stepAdd s c n).world.heap := by
  have hclear := s.world.heap.alike_clearHandle n
  simp only [stepAdd]
  split
  · exact .of_alike hclear
  · exact .none hclear.roster hclear.nextId (hclear.retains.trans (.of_eq rfl))

theorem records_command (c : Command F C) (hn : ¬ ClientActs ⟨.run c, fs, w⟩)
    (hp : ∀ p ∈ registers? K ⟨.run c, fs, w⟩, p.1 ∈ nodes ⟨.run c, fs, w⟩) :
    w.heap.Records (event? K ⟨.run c, fs, w⟩) (stepCommand K ⟨.run c, fs, w⟩ c).world.heap := by
  cases c with
  | subscribe x y => exact records_subscribe fs w x y hp
  | undo t => exact records_undo fs w t
  | set o p v => exact records_set ⟨.run (.set o p v), fs, w⟩ o p v
  | write => simp only [stepCommand, stepWrite]; split <;> exact .refl _
  | next => rw [stepCommand, world_publish]; exact .refl _
  | deliver y v => exact records_deliver fs w v y hn
  | subscribeAll _ rest => cases rest <;> exact .refl _
  | undoAll members => cases members <;> exact .refl _
  | dispose n => exact .of_alike (w.heap.alike_clearHandle n)
  | disposeComposite d => simp only [stepCommand, stepDisposeComposite]; split <;> exact .of_tables rfl rfl rfl
  | add d n => exact records_add d n ⟨.run (.add d n), fs, w⟩
  | schedule i t =>
    simp only [stepCommand, stepSchedule]
    split
    · exact .of_tables rfl rfl rfl
    · rw [world_task]; exact .refl _
  | drain =>
    simp only [stepCommand, stepDrain]
    split
    · rw [world_task]; exact .of_tables rfl rfl rfl
    · exact .refl _

theorem records_frame (s : State F C S) (signal : Signal C) (f : Frame F C) :
    s.world.heap.Records none (stepFrame s signal f).world.heap := by
  cases f with
  | notifying => exact records_notify s ..
  | announcing => exact records_notify (s.under _ _ _) ..
  | publishing => rw [stepFrame, world_publish]; exact .refl _
  | switching | entering => simp only [stepFrame]; split <;> exact .of_tables rfl rfl rfl
  | _ => exact .of_tables rfl rfl rfl

/-- **A step does one thing to rosters at most**: it registers one observer, or takes one id off. -/
theorem records_step (s : State F C S) (hn : ¬ s.ClientActs) (hp : ∀ p ∈ s.registers? K, p.1 ∈ s.nodes) :
    s.world.heap.Records (s.event? K) (s.step K).world.heap := by
  obtain ⟨c, fs, w⟩ := s
  cases c with
  | run c => exact records_command fs w c hn hp
  | resume => exact absurd trivial hn
  | pass signal =>
    cases fs with
    | nil => exact .refl _
    | cons f fs => exact records_frame ⟨.pass signal, fs, w⟩ signal f
  | panic message =>
    cases fs with
    | nil => exact .refl _
    | cons f fs => cases f <;> exact .refl _

end Steps

end State

/-! ## What is up to client code -/

/-- Undoing it takes no id off a roster by itself: it leads to a composite or to client code, or to nothing. -/
def Teardown.Indirect : Teardown C → Prop
  | .nothing | .composite _ | .client _ => True
  | _ => False

namespace Heap

/-- Whatever has changed, it is neither rosters nor subscriptions. -/
structure Elsewhere (h h' : Heap F C) : Prop where
  roster : ∀ n, h'.roster n = h.roster n
  nextId : ∀ n, h'.nextId n = h.nextId n
  handles : h'.handles = h.handles
  composites : h'.composites = h.composites
  switches : h'.switches = h.switches

theorem Alike.elsewhere {h h' : Heap F C} (a : h.Alike h') (hh : h'.handles = h.handles)
    (hc : h'.composites = h.composites) : h.Elsewhere h' :=
  ⟨a.roster, a.nextId, hh, hc, a.switches⟩

/-- One thing that client code does, with the subscription that it has been handed, and what is left in its hand. -/
inductive Deal : Heap F C → Teardown C → Option (RosterEvent F C) → Heap F C → Teardown C → Prop
  /-- It changes something else. -/
  | other {h h' : Heap F C} {t : Teardown C} : h.Elsewhere h' → Deal h t none h' t
  | composite {h : Heap F C} {t : Teardown C} : Deal h t none h.newComposite.2 t
  /-- It keeps what it has been handed. -/
  | keep {h : Heap F C} {t : Teardown C} : Deal h t none (h.newHandle t).2 .nothing
  /-- It makes a subscription of its own, which is no registration. -/
  | make {h : Heap F C} {t t' : Teardown C} : t'.Indirect → Deal h t none (h.newHandle t').2 t
  /-- It registers a handler, and is handed the subscription for it. -/
  | register {h : Heap F C} {o : ObjectId} (timing : Timing) (p : String) (reports : Bool) (y : Observer F C) :
      o < h.objects.size →
      Deal h .nothing (some (.enrolled (.object o) (h.nextId (.object o), y))) (h.addHandler o timing p reports y).2
        (.handler o (h.addHandler o timing p reports y).1)

/-- What client code does in one go. -/
inductive Deals : Heap F C → Teardown C → List (RosterEvent F C) → Heap F C → Teardown C → Prop
  | done {h : Heap F C} {t : Teardown C} : Deals h t [] h t
  | deal {h h₁ h' : Heap F C} {t t₁ t' : Teardown C} {ev : Option (RosterEvent F C)} {log : List (RosterEvent F C)} :
      Deal h t ev h₁ t₁ → Deals h₁ t₁ log h' t' → Deals h t (ev.toList ++ log) h' t'

end Heap

/-- A command as client code gives it: subscriptions are named by handle or composite. -/
def Command.Fair : Command F C → Prop
  | .undo _ | .undoAll .. => False
  | .subscribeAll members _ => members = []
  | _ => True

def Move.Fair : Move F C → Prop
  | .perform command _ => command.Fair
  | _ => True

namespace State

/-- The subscription that has been handed out. -/
def hand (s : State F C S) : Teardown C :=
  match s.control with
  | .pass signal => signal.teardown
  | _ => .nothing

/-- Client code deals fairly at this state, with this log: when it is resumed, with what it is handed, and when one of
its functions is applied. -/
def Acts (K : Client F C S) (s : State F C S) (log : List (RosterEvent F C)) : Prop :=
  match s.control with
  | .resume code signal =>
    (∃ t, s.world.heap.Deals signal.teardown log (K.resume code signal s.world).1.heap t) ∧
      (K.resume code signal s.world).2.Fair
  | .run (.deliver (.map (.apply f) _) v) | .run (.deliver (.filter f _) v) =>
    ∃ t, s.world.heap.Deals .nothing log (K.apply f v s.world).2.heap t
  | _ => False

/-- The machine comes from one state to the other, and this is what has happened to rosters on the way. Whoever is
registered is registered with what there is; and when nothing is left to do, the client deals with what it has been
handed and gives another command. -/
inductive History (K : Client F C S) : State F C S → List (RosterEvent F C) → State F C S → Prop
  | here {s} : History K s [] s
  | step {s log e} : ¬ s.ClientActs → (∀ p ∈ s.registers? K, p.1 ∈ s.nodes) → History K (s.step K) log e →
      History K s ((s.event? K).toList ++ log) e
  | act {s log log' e} : s.Acts K log → History K (s.step K) log' e → History K s (log ++ log') e
  | next {s w c t log log' e} : s.finished = true → s.world.heap.Deals s.hand log w.heap t → Command.Fair c →
      History K (World.start w c) log' e → History K s (log ++ log') e

/-- A step that registers nobody. -/
theorem History.go {K : Client F C S} {s e : State F C S} {log : List (RosterEvent F C)} (hn : ¬ s.ClientActs)
    (hr : s.registers? K = none) (h : History K (s.step K) log e) : History K s ((s.event? K).toList ++ log) e :=
  .step hn (by simp [hr]) h

/-- Before anything has been made. -/
def fresh (k : S) : State F C S := ⟨.pass .done, [], .empty, k⟩

end State

/-! ## Counting registrations -/

/-- Undoing it takes this id off. -/
def Teardown.mark (n : Node) (id : Nat) (t : Teardown C) : Nat := if t.place? = some (n, id) then 1 else 0

namespace RosterEvent
variable (n : Node) (id : Nat)

def adds : RosterEvent F C → Nat
  | enrolled m e => if (m, e.1) = (n, id) then 1 else 0
  | struck .. => 0

def takes : RosterEvent F C → Nat
  | enrolled .. => 0
  | struck m j => if (m, j) = (n, id) then 1 else 0

end RosterEvent

open RosterEvent Teardown

namespace Heap

/-- How often the id is on the roster. -/
def holds (h : Heap F C) (n : Node) (id : Nat) : Nat := ((h.roster n).map Prod.fst).count id

variable {h h' : Heap F C} {log : List (RosterEvent F C)} {n : Node} {id : Nat} {ev : Option (RosterEvent F C)}

theorem mem_of_holds (hh : 1 ≤ h.holds n id) : id ∈ (h.roster n).map Prod.fst := List.count_pos_iff.1 hh

theorem Enrolls.holds {m : Node} {y : Observer F C} (a : h.Enrolls m y h') :
    h'.holds n id = h.holds n id + if (m, h.nextId m) = (n, id) then 1 else 0 := by
  unfold Heap.holds
  rw [a.roster]
  by_cases hm : n = m
  · subst hm
    simp [List.count_singleton, beq_iff_eq]
  · simp [hm, Ne.symm hm]

theorem Strikes.holds {m : Node} {j : Nat} (a : h.Strikes m j h') :
    h'.holds n id = if (m, j) = (n, id) then 0 else h.holds n id := by
  unfold Heap.holds
  rw [a.roster]
  by_cases hm : n = m
  · subst hm
    have hids : ((h.roster n).filter (·.1 ≠ j)).map Prod.fst = ((h.roster n).map Prod.fst).filter (· ≠ j) := by
      rw [List.filter_map]
      rfl
    rw [if_pos rfl, hids]
    by_cases hj : j = id
    · subst hj
      rw [if_pos rfl]
      exact List.count_eq_zero.2 fun hin => by simpa using (List.mem_filter.1 hin).2
    · rw [if_neg (by simpa using hj)]
      exact List.count_filter (by simpa using Ne.symm hj)
  · rw [if_neg hm, if_neg (by simpa using fun he : m = n => absurd he.symm hm)]

/-- What happens to the rosters is what the ids on them come to. -/
theorem Records.holds (r : h.Records ev h') (l : h.Logged log) (hs : h.Warrants ev) (n : Node) (id : Nat) :
    h'.holds n id + ev.elim 0 (takes n id) = h.holds n id + ev.elim 0 (adds n id) := by
  cases r with
  | none hr hn => simp [Heap.holds, hr]
  | enrolled a => simpa [takes, adds] using a.holds
  | @struck _ m j a =>
    have hone : h.holds m j = 1 := List.count_eq_one_of_mem (l.nodup m) (hs m j rfl)
    simp only [a.holds, Option.elim_some, takes, adds, Nat.add_zero]
    split
    · next he =>
      cases he
      rw [hone]
    · rfl

end Heap

/-! ## What client code keeps to -/

namespace Heap

variable {h h' : Heap F C} {t t' : Teardown C} {ev : Option (RosterEvent F C)} {log log' : List (RosterEvent F C)}

theorem Deal.records (d : h.Deal t ev h' t') : h.Records ev h' := by
  cases d with
  | other e => exact .none e.roster e.nextId (.of_eq e.handles)
  | composite => exact .of_alike h.alike_newComposite
  | keep => exact .of_alike (h.alike_newHandle t)
  | make => exact .of_alike (h.alike_newHandle _)
  | register timing p reports y ho => exact .enrolled (h.enrolls_addHandler ho timing p reports y)

theorem Deal.warrants (d : h.Deal t ev h' t') : h.Warrants ev := by
  cases d <;> nofun

/-- Only who registers a handler has more to undo than before. -/
theorem Deal.tally_le (d : h.Deal t ev h' t') (n : Node) (id : Nat) :
    h'.tally (mark n id) + t'.tally (mark n id) + ev.elim 0 (takes n id) ≤
      h.tally (mark n id) + t.tally (mark n id) + ev.elim 0 (adds n id) := by
  cases d with
  | other e => rw [tally_of_tables e.handles e.composites e.switches]; exact Nat.le_refl _
  | composite => rw [tally_newComposite]; exact Nat.le_refl _
  | keep => rw [tally_newHandle]; exact Nat.le_refl _
  | @make _ t' hp =>
    have hindirect : t'.tally (mark n id) = 0 := by
      cases t' with
      | nothing | composite | client => rfl
      | _ => exact hp.elim
    rw [tally_newHandle, hindirect]
    exact Nat.le_refl _
  | @register o timing p reports y ho =>
    have hheap : (h.addHandler o timing p reports y).2.tally (mark n id) = h.tally (mark n id) :=
      tally_of_tables rfl rfl rfl
    rw [hheap]
    simp [Teardown.tally, mark, place?, adds, takes, addHandler, nextId, nextHandler]

/-- Client code leaves the rosters as the log has them, and one teardown at most for each registration. -/
theorem Deals.keeps (d : h.Deals t log' h' t') (l : h.Logged log) {rest : Node → Nat → Nat}
    (hsole : ∀ n id, rest n id + (h.tally (mark n id) + t.tally (mark n id)) ≤ h.holds n id) :
    h'.Logged (log ++ log') ∧ ∀ n id, rest n id + (h'.tally (mark n id) + t'.tally (mark n id)) ≤ h'.holds n id := by
  induction d generalizing log with
  | done => exact ⟨(List.append_nil log).symm ▸ l, hsole⟩
  | deal d _ ih =>
    rw [← List.append_assoc]
    refine ih (l.records d.records d.warrants) fun n id => ?_
    have hholds := d.records.holds l d.warrants n id
    have htally := d.tally_le n id
    have hbefore := hsole n id
    omega

theorem Deals.retains (d : h.Deals t log h' t') : h.Retains h' := by
  induction d with
  | done => exact .of_eq rfl
  | deal d _ ih => exact d.records.retains.trans ih

end Heap

/-! ## Orderly states -/

namespace State

/-- The rosters are as the log has it, and all that is to be undone is registered, and to be undone once. -/
structure Orderly (log : List (RosterEvent F C)) (s : State F C S) : Prop where
  logged : s.world.heap.Logged log
  sole : ∀ n id, s.tally (mark n id) ≤ s.world.heap.holds n id

variable {K : Client F C S} {s e : State F C S} {log log' : List (RosterEvent F C)}

theorem spent_mark (K : Client F C S) (s : State F C S) (n : Node) (id : Nat) :
    s.spent (mark n id) = (s.event? K).elim 0 (takes n id) := by
  obtain ⟨ctl, fs, w⟩ := s
  cases ctl with
  | run c =>
    cases c with
    | undo t => cases t <;> simp [spent, event?, registers?, strikes?, Teardown.spent, mark, place?, takes]
    | subscribe x y => cases x <;> simp only [spent, event?, registers?, strikes?] <;> (try split) <;> rfl
    | _ => rfl
  | _ => rfl

theorem gained_mark (K : Client F C S) (s : State F C S) (n : Node) (id : Nat) :
    s.gained (mark n id) K = (s.event? K).elim 0 (adds n id) := by
  obtain ⟨ctl, fs, w⟩ := s
  cases ctl with
  | run c =>
    cases c with
    | undo t => cases t <;> rfl
    | subscribe x y =>
      cases x with
      | watch | subject =>
        simp only [gained, event?, registers?, strikes?]
        split
        · simp [Node.registration, Teardown.tally, mark, place?, adds]
        · rfl
      | _ => rfl
    | _ => rfl
  | _ => rfl

/-- What is undone is registered. -/
theorem Orderly.warrants (o : s.Orderly log) (hn : ¬ s.ClientActs) : s.world.heap.Warrants (s.event? K) := by
  intro n id he
  have htally : (s.step K).tally (mark n id) + _ ≤ _ := tally_step s hn
  rw [spent_mark K, gained_mark, he] at htally
  simp only [Option.elim_some, takes, adds, if_true] at htally
  have hsole := o.sole n id
  exact Heap.mem_of_holds (by omega)

/-- A step of the machine leaves a state as orderly as it was. -/
theorem Orderly.step (o : s.Orderly log) (hn : ¬ s.ClientActs) (hp : ∀ p ∈ s.registers? K, p.1 ∈ s.nodes) :
    (s.step K).Orderly (log ++ (s.event? K).toList) := by
  have hrecords := records_step s hn hp
  refine ⟨o.logged.records hrecords (o.warrants hn), fun n id => ?_⟩
  have hholds := hrecords.holds o.logged (o.warrants hn) n id
  have htally : (s.step K).tally (mark n id) + _ ≤ _ := tally_step s hn
  rw [spent_mark K, gained_mark] at htally
  have hsole := o.sole n id
  omega

/-- So does client code, with what it is handed. -/
theorem Orderly.deals {s' : State F C S} {t t' : Teardown C} (o : s.Orderly log)
    (d : s.world.heap.Deals t log' s'.world.heap t')
    (hs : ∀ n id, t.tally (mark n id) ≤ s.control.tally (mark n id))
    (hs' : ∀ n id, s'.tally (mark n id) ≤
      (s.frames.map (Frame.tally (mark n id))).sum + s'.world.heap.tally (mark n id)) : s'.Orderly (log ++ log') := by
  obtain ⟨l, hsole⟩ := d.keeps o.logged (fun n id => by
    have hhand := hs n id
    have hbefore := o.sole n id
    rw [tally, tallyBelow] at hbefore
    show (s.frames.map (Frame.tally (mark n id))).sum + _ ≤ _
    omega)
  exact ⟨l, fun n id => Nat.le_trans (hs' n id) (Nat.le_trans (by omega) (hsole n id))⟩

theorem Command.Fair.tally {c : Command F C} (hc : c.Fair) (weight : Teardown C → Nat) :
    c.tally weight = 0 := by
  cases c with
  | undo | undoAll => exact hc.elim
  | subscribeAll members => rw [show members = [] from hc]; rfl
  | _ => rfl

theorem tally_move (s : State F C S) {m : Move F C} (hm : m.Fair) (weight : Teardown C → Nat) :
    (stepMove s m).tally weight ≤ s.tallyBelow weight := by
  cases m with
  | perform c => exact tally_under_le s (Command.Fair.tally hm weight) rfl rfl
  | _ => exact tally_goOn_le s rfl rfl

/-- At each of its turns client code deals with what it is handed, and puts no other subscription in its place. -/
theorem Acts.deals (ha : s.Acts K log) : ∃ t t', s.world.heap.Deals t log (s.step K).world.heap t' ∧
    ∀ weight, t.tally weight ≤ s.control.tally weight ∧
      (s.step K).tally weight ≤ (s.frames.map (Frame.tally weight)).sum + (s.step K).world.heap.tally weight := by
  obtain ⟨ctl, fs, w⟩ := s
  unfold Acts at ha
  split at ha
  · next code signal hc =>
    cases hc
    obtain ⟨⟨t, d⟩, hm⟩ := ha
    have hworld : (State.step K ⟨.resume code signal, fs, w⟩).world = (K.resume code signal w).1 := by
      simp only [State.step]
      cases (K.resume code signal w).2 <;> rfl
    refine ⟨signal.teardown, t, hworld ▸ d, fun weight => ⟨by cases signal <;> exact Nat.le_refl _, ?_⟩⟩
    rw [hworld]
    exact tally_move ⟨.resume code signal, fs, (K.resume code signal w).1⟩ hm weight
  · next f next v hc =>
    cases hc
    obtain ⟨t, d⟩ := ha
    exact ⟨.nothing, t, d, fun weight => ⟨Nat.zero_le _, Nat.le_of_eq (Nat.zero_add _)⟩⟩
  · next f next v hc =>
    cases hc
    obtain ⟨t, d⟩ := ha
    refine ⟨.nothing, t, d, fun weight => ⟨Nat.zero_le _, ?_⟩⟩
    simp only [State.step, stepCommand, stepDeliver, tally]
    split <;> exact Nat.le_of_eq (Nat.zero_add _)
  · exact ha.elim

theorem Orderly.act (o : s.Orderly log) (ha : s.Acts K log') : (s.step K).Orderly (log ++ log') := by
  obtain ⟨t, t', d, htally⟩ := ha.deals
  exact o.deals d (fun n id => (htally _).1) fun n id => (htally _).2

/-- And so it does between two commands. -/
theorem Orderly.next {w : World F C S} {c : Command F C} {t : Teardown C} (o : s.Orderly log)
    (hf : s.finished = true) (d : s.world.heap.Deals s.hand log' w.heap t) (hc : c.Fair) :
    (World.start w c).Orderly (log ++ log') := by
  refine o.deals d (fun n id => ?_) fun n id => ?_
  · unfold hand
    split
    · next signal hs =>
      rw [hs]
      cases signal <;> exact Nat.le_refl _
    · exact Nat.zero_le _
  · have hframes : s.frames = [] := ((finished_iff s).1 hf).2
    rw [hframes, tally, show (World.start w c).control.tally (mark n id) = 0 from Command.Fair.tally hc _, Nat.zero_add]
    exact Nat.le_refl _

/-- **Histories are orderly.** -/
theorem History.orderly (h : History K s log' e) (o : s.Orderly log) : e.Orderly (log ++ log') := by
  induction h generalizing log with
  | here => exact (List.append_nil log).symm ▸ o
  | step hn hp _ ih => rw [← List.append_assoc]; exact ih (o.step hn hp)
  | act ha _ ih => rw [← List.append_assoc]; exact ih (o.act ha)
  | next hf d hc _ ih => rw [← List.append_assoc]; exact ih (o.next hf d hc)

theorem orderly_fresh (k : S) : (fresh k : State F C S).Orderly [] :=
  ⟨.empty, fun _ _ => Nat.zero_le _⟩

theorem History.retains (h : History K s log e) : s.world.heap.Retains e.world.heap := by
  induction h with
  | here => exact .of_eq rfl
  | step hn hp _ ih => exact (records_step _ hn hp).retains.trans ih
  | act ha _ ih =>
    obtain ⟨t, t', d, -⟩ := ha.deals
    exact d.retains.trans ih
  | next _ d _ _ ih => exact d.retains.trans ih

end State

end DataBinding
