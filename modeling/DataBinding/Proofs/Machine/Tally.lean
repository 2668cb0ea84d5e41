import Mathlib.Algebra.GroupWithZero.Nat
import DataBinding.Proofs.Heap.Rosters
import DataBinding.Proofs.Machine.Calls
/-!
# What teardowns weigh

Teardowns are kept in handles, composites and switches, by what is under way, and by what the control is about. The
machine moves them from one to another. It makes a new one where an observer is registered (`State.registers?`), and
one is used up where it is undone in a single step (`State.spent`); one that has others in it is taken apart.

Let the simple teardowns have weights. All that there are then weigh, after a step, at most what they weighed before,
less what has been used up, and with what has been registered (`State.tally_step`). Only client code can make more.
-/

namespace DataBinding

variable {F C S : Type}

/-- Undoing it takes the id off the roster. -/
def Node.registration : Node → Nat → Teardown C
  | .object o, id => .handler o id
  | .subject i, id => .observer i id
  | .stream _, _ => .nothing

/-! ## Weighing -/

section Weighing
variable (weight : Teardown C → Nat)

mutual

/-- The weight of a teardown: that of the simple ones in it. -/
def Teardown.tally : Teardown C → Nat
  | .nothing => 0
  | .relocate _ source => source.tally
  | .switch _ source => source.tally
  | .all members => tallyAll members
  | t => weight t

def tallyAll : List (Teardown C) → Nat
  | [] => 0
  | t :: rest => t.tally + tallyAll rest

end

/-- What is used up when a teardown is undone: nothing, if it is taken apart. -/
def Teardown.spent : Teardown C → Nat
  | .nothing | .relocate .. | .switch .. | .all _ => 0
  | t => weight t

def Switch.tally (x : Switch C) : Nat := (x.current.getD .nothing).tally weight

def Signal.tally : Signal C → Nat
  | .subscription t => t.tally weight
  | _ => 0

def Command.tally : Command F C → Nat
  | .undo t => t.tally weight
  | .undoAll members _ => tallyAll weight members
  | .subscribeAll members _ => tallyAll weight members
  | _ => 0

def Control.tally : Control F C → Nat
  | .run c => c.tally weight
  | .pass signal => signal.tally weight
  | .resume _ signal => signal.tally weight
  | .panic _ => 0

def Frame.tally : Frame F C → Nat
  | .subscribed _ t => t.tally weight
  | .gathering _ members _ => tallyAll weight members
  | .undoing rest _ => tallyAll weight rest
  | _ => 0

def Heap.tally (h : Heap F C) : Nat :=
  (h.handles.toList.map (Teardown.tally weight)).sum + (h.composites.toList.map (tallyAll weight ·.members)).sum +
    (h.switches.toList.map (Switch.tally weight)).sum

/-- The weight of what there is in the heap and under way, whatever the control is about. -/
def State.tallyBelow (s : State F C S) : Nat := (s.frames.map (Frame.tally weight)).sum + s.world.heap.tally weight

/-- The weight of all that there is to be undone. -/
def State.tally (s : State F C S) : Nat := s.control.tally weight + s.tallyBelow weight

/-- The weight of what the step uses up. -/
def State.spent (s : State F C S) : Nat :=
  match s.control with
  | .run (.undo t) => t.spent weight
  | _ => 0

end Weighing

/-- Who is registered in the step, and where. -/
def State.registers? (K : Client F C S) (s : State F C S) : Option (Node × Observer F C) :=
  match s.control with
  | .run (.subscribe (.watch o ..) y) => if s.alive K (.object o) then some (.object o, y) else none
  | .run (.subscribe (.subject i) y) => if s.alive K (.subject i) then some (.subject i, y) else none
  | _ => none

/-- The weight of what the step adds by registering somebody. -/
def State.gained (weight : Teardown C → Nat) (K : Client F C S) (s : State F C S) : Nat :=
  (s.registers? K).elim 0 fun (n, _) => (n.registration (s.world.heap.nextId n)).tally weight

/-! ## Operations on the heap -/

/-- Of a list of which one entry is replaced. -/
theorem sum_map_set_le {α : Type} (f : α → Nat) (l : List α) (i : Nat) (x d : α) (hd : f d = 0) :
    ((l.set i x).map f).sum + f (l[i]?.getD d) ≤ (l.map f).sum + f x := by
  induction l generalizing i with
  | nil => simp [hd]
  | cons y l ih =>
    cases i with
    | zero =>
      simp only [List.set_cons_zero, List.map_cons, List.sum_cons, List.getElem?_cons_zero, Option.getD_some]
      omega
    | succ i =>
      have := ih i
      simp only [List.set_cons_succ, List.map_cons, List.sum_cons, List.getElem?_cons_succ]
      omega

section Heap
variable {weight : Teardown C → Nat} {h h' : Heap F C}

theorem tallyAll_append (l l' : List (Teardown C)) :
    tallyAll weight (l ++ l') = tallyAll weight l + tallyAll weight l' := by
  induction l with
  | nil => simp [tallyAll]
  | cons t l ih => simp [tallyAll, ih, Nat.add_assoc]

namespace Heap

theorem tally_of_tables (hh : h'.handles = h.handles) (hc : h'.composites = h.composites)
    (hs : h'.switches = h.switches) : h'.tally weight = h.tally weight := by
  simp only [tally, hh, hc, hs]

theorem tally_clearHandle (weight : Teardown C → Nat) (h : Heap F C) (n : Nat) :
    (h.teardown n).tally weight + (h.clearHandle n).tally weight ≤ h.tally weight := by
  have hset := sum_map_set_le (Teardown.tally weight) h.handles.toList n .nothing .nothing rfl
  simp only [Teardown.tally, Nat.add_zero] at hset
  simp only [tally, clearHandle, teardown, Array.toList_setIfInBounds, ← Array.getElem?_toList]
  omega

theorem tally_setComposite (weight : Teardown C → Nat) (h : Heap F C) (c : Nat) (x : Composite C) :
    tallyAll weight (h.composite c).members + (h.setComposite c x).tally weight ≤
      h.tally weight + tallyAll weight x.members := by
  have hset := sum_map_set_le (tallyAll weight ·.members) h.composites.toList c x ⟨[], true⟩ rfl
  simp only [tally, setComposite, composite, Array.toList_setIfInBounds, ← Array.getElem?_toList]
  omega

theorem tally_setSwitch (weight : Teardown C → Nat) (h : Heap F C) (i : Nat) (x : Switch C) :
    (h.switch i).tally weight + (h.setSwitch i x).tally weight ≤ h.tally weight + x.tally weight := by
  have hset := sum_map_set_le (Switch.tally weight) h.switches.toList i x ⟨0, none, true⟩ rfl
  simp only [tally, setSwitch, switch, Array.toList_setIfInBounds, ← Array.getElem?_toList]
  omega

theorem tally_newSwitch (h : Heap F C) : h.newSwitch.2.tally weight = h.tally weight := by
  simp [tally, newSwitch, Switch.tally, Teardown.tally]

theorem tally_newComposite (h : Heap F C) : h.newComposite.2.tally weight = h.tally weight := by
  simp [tally, newComposite, tallyAll]

theorem tally_newHandle (h : Heap F C) (t : Teardown C) :
    (h.newHandle t).2.tally weight = h.tally weight + t.tally weight := by
  simp only [tally, newHandle, Array.toList_push, List.map_append, List.sum_append, List.map_cons, List.map_nil,
    List.sum_cons, List.sum_nil]
  omega

end Heap

end Heap

/-! ## Steps -/

namespace State

/-- The step is the client's: its code is resumed, or one of its functions is applied. -/
def ClientActs (s : State F C S) : Prop :=
  match s.control with
  | .resume .. | .run (.deliver (.map (.apply _) _) _) | .run (.deliver (.filter ..) _) => True
  | _ => False

section Steps
variable {weight : Teardown C → Nat} {K : Client F C S} (s : State F C S)

theorem tally_goOn (c : Control F C) (h : Heap F C) :
    (s.goOn c h).tally weight = c.tally weight + ((s.frames.map (Frame.tally weight)).sum + h.tally weight) := rfl

theorem tally_under (f : Frame F C) (c : Control F C) (h : Heap F C) :
    (s.under f c h).tally weight =
      c.tally weight + (f.tally weight + (s.frames.map (Frame.tally weight)).sum + h.tally weight) := by
  simp [tally, tallyBelow, under, World.withHeap]

/-- The control weighs nothing, and what has changed in the heap weighs what it did. -/
theorem tally_goOn_le {c : Control F C} {h : Heap F C} (hc : c.tally weight = 0)
    (hh : h.tally weight = s.world.heap.tally weight) : (s.goOn c h).tally weight ≤ s.tallyBelow weight := by
  rw [tally_goOn, hc, hh, Nat.zero_add]
  exact Nat.le_refl _

theorem tally_under_le {f : Frame F C} {c : Control F C} {h : Heap F C} (hc : c.tally weight = 0)
    (hf : f.tally weight = 0) (hh : h.tally weight = s.world.heap.tally weight) :
    (s.under f c h).tally weight ≤ s.tallyBelow weight := by
  rw [tally_under, hc, hf, hh, Nat.zero_add, Nat.zero_add]
  exact Nat.le_refl _

theorem tally_notify (o : ObjectId) (v : Value) (l : List (Handler F C)) :
    (stepNotify s o v l).tally weight ≤ s.tallyBelow weight := by
  cases l with
  | nil => exact tally_goOn_le s rfl rfl
  | cons x rest => exact tally_under_le s rfl rfl rfl

theorem tally_publish (i : SubjectId) (v : Value) (l : List (Observer F C)) :
    (stepPublish s i v l).tally weight ≤ s.tallyBelow weight := by
  cases l with
  | nil => exact tally_goOn_le s rfl rfl
  | cons y rest => exact tally_under_le s rfl rfl rfl

theorem tally_set (o : ObjectId) (p : String) (v : Value) :
    (stepSet s o p v).tally weight ≤ s.tallyBelow weight := by
  simp only [stepSet]
  split
  · exact tally_goOn_le s rfl rfl
  · refine Nat.le_trans (tally_notify (s.under _ _ _) ..) ?_
    simp only [tallyBelow, under, List.map_cons, List.sum_cons, Frame.tally, World.withHeap, Nat.zero_add]
    exact Nat.add_le_add_left (Nat.le_of_eq (Heap.tally_of_tables rfl rfl rfl)) _

theorem tally_task (t : Task F C) : (stepTask s t).tally weight ≤ s.tallyBelow weight := by
  cases t with
  | deliver => simp only [stepTask]; split <;> exact tally_goOn_le s rfl rfl
  | client c => exact tally_goOn_le s rfl rfl

theorem gained_of_registers {n : Node} {y : Observer F C} (hr : s.registers? K = some (n, y)) :
    s.gained weight K = (n.registration (s.world.heap.nextId n)).tally weight := by
  rw [gained, hr, Option.elim_some]

/-- To subscribe makes a teardown where an observer is registered at once. -/
theorem tally_subscribe {x : Stream F} {y : Observer F C} (hs : s.control = .run (.subscribe x y)) :
    (stepSubscribe K s y x).tally weight ≤ s.tallyBelow weight + s.gained weight K := by
  have htables : ∀ {h : Heap F C}, h.handles = s.world.heap.handles → h.composites = s.world.heap.composites →
      h.switches = s.world.heap.switches → h.tally weight = s.world.heap.tally weight := Heap.tally_of_tables
  have hle : ∀ {n : Nat}, n ≤ s.tallyBelow weight → n ≤ s.tallyBelow weight + s.gained weight K := fun hn =>
    Nat.le_trans hn (Nat.le_add_right _ _)
  cases x with
  | watch o p t =>
    simp only [stepSubscribe, stepWatch]
    split
    · next ha =>
      have hheap : (s.world.heap.addHandler o t p p.isEmpty y).2.tally weight = s.world.heap.tally weight :=
        htables rfl rfl rfl
      have hr : s.registers? K = some (.object o, y) := by simp [registers?, hs, ha]
      rw [tally_under, hheap, gained_of_registers s hr, tallyBelow, Nat.add_comm (Frame.tally ..)]
      simp only [Control.tally, Command.tally, Frame.tally]
      exact Nat.le_of_eq (by rw [Nat.zero_add, Nat.add_right_comm]; rfl)
    · exact hle (tally_goOn_le s rfl rfl)
  | subject i =>
    simp only [stepSubscribe, stepListen]
    split
    · next ha =>
      have hheap : (s.world.heap.addObserver i y).2.tally weight = s.world.heap.tally weight := htables rfl rfl rfl
      have hr : s.registers? K = some (.subject i, y) := by simp [registers?, hs, ha]
      rw [tally_goOn, hheap, gained_of_registers s hr, tallyBelow, Nat.add_comm]
      exact Nat.le_refl _
    · exact hle (tally_goOn_le s rfl rfl)
  | just | constant => exact hle (tally_under_le s rfl rfl rfl)
  | switch => exact hle (tally_under_le s rfl rfl (Heap.tally_newSwitch _))
  | relocate => exact hle (tally_under_le s rfl rfl (htables rfl rfl rfl))
  | _ => exact hle (tally_goOn_le s rfl (htables rfl rfl rfl))

/-- To deliver a value uses up no teardown; a switch may begin to run one. -/
theorem tally_deliver {v : Value} {y : Observer F C} (hs : s.control = .run (.deliver y v))
    (hn : ¬ s.ClientActs) : (stepDeliver K s v y).tally weight ≤ s.tallyBelow weight := by
  have htables : ∀ {h : Heap F C}, h.handles = s.world.heap.handles → h.composites = s.world.heap.composites →
      h.switches = s.world.heap.switches → h.tally weight = s.world.heap.tally weight := Heap.tally_of_tables
  cases y with
  | client c => exact tally_goOn_le s rfl rfl
  | write root p =>
    simp only [stepDeliver]
    split
    · exact tally_under_le s rfl rfl rfl
    · exact tally_goOn_le s rfl rfl
  | map f next =>
    cases f with
    | apply f => exact absurd (by simp [ClientActs, hs]) hn
    | wrap => exact tally_goOn_le s rfl rfl
    | emptyIfNull => simp only [stepDeliver, stepMap]; split <;> exact tally_goOn_le s rfl (htables rfl rfl rfl)
    | publish => exact tally_under_le s rfl rfl rfl
  | filter f next => exact absurd (by simp [ClientActs, hs]) hn
  | outer i select next =>
    have hset := s.world.heap.tally_setSwitch weight i
      { s.world.heap.switch i with generation := (s.world.heap.switch i).generation + 1, current := none }
    simp only [stepDeliver, stepSwitch, tally_under, Control.tally, Command.tally, Frame.tally, tallyBelow]
    simp only [Switch.tally, Option.getD_none, Teardown.tally] at hset
    omega
  | skip | distinct | inner | slot =>
    simp only [stepDeliver]; split <;> exact tally_goOn_le s rfl (htables rfl rfl rfl)
  | relocate => exact tally_goOn_le s rfl rfl

/-- To undo a subscription uses it up, or takes it apart. -/
theorem tally_undo (t : Teardown C) :
    (stepUndo s t).tally weight + t.spent weight ≤ t.tally weight + s.tallyBelow weight := by
  have hspent : ∀ {n m : Nat}, n ≤ s.tallyBelow weight → n + m ≤ m + s.tallyBelow weight := fun hn => by omega
  cases t with
  | switch i source =>
    have hset := s.world.heap.tally_setSwitch weight i { s.world.heap.switch i with stopped := true }
    simp only [Switch.tally] at hset
    simp only [stepUndo, tally_under, Control.tally, Command.tally, Frame.tally, Teardown.tally, Teardown.spent,
      tallyBelow]
    omega
  | relocate gate source =>
    have hgate : (s.world.heap.shutGate gate).tally weight = s.world.heap.tally weight :=
      Heap.tally_of_tables rfl rfl rfl
    rw [stepUndo, tally_goOn, hgate]
    exact Nat.le_refl _
  | all members => exact Nat.le_refl _
  | nothing | handler | observer | composite | client =>
    exact hspent (tally_goOn_le s rfl (Heap.tally_of_tables rfl rfl rfl))

theorem tally_add (c n : Nat) : (stepAdd s c n).tally weight ≤ s.tallyBelow weight := by
  have hclear := s.world.heap.tally_clearHandle weight n
  simp only [stepAdd]
  split
  · simp only [tally_goOn, Control.tally, Command.tally, tallyBelow]
    omega
  · have hset := (s.world.heap.clearHandle n).tally_setComposite weight c
      { (s.world.heap.clearHandle n).composite c with
        members := ((s.world.heap.clearHandle n).composite c).members ++ [s.world.heap.teardown n] }
    simp only [tallyAll_append, tallyAll] at hset
    simp only [tally_goOn, Control.tally, Signal.tally, tallyBelow]
    omega

theorem tally_disposeComposite (c : Nat) : (stepDisposeComposite s c).tally weight ≤ s.tallyBelow weight := by
  simp only [stepDisposeComposite]
  split
  · exact tally_goOn_le s rfl rfl
  · have hset := s.world.heap.tally_setComposite weight c ⟨[], true⟩
    simp only [tallyAll] at hset
    simp only [tally_goOn, Control.tally, Command.tally, tallyBelow]
    omega

/-- A command leaves at most what was there, less what it uses up, with what it registers. -/
theorem tally_command {c : Command F C} (hs : s.control = .run c) (hn : ¬ s.ClientActs) :
    (stepCommand K s c).tally weight + s.spent weight ≤
      c.tally weight + s.tallyBelow weight + s.gained weight K := by
  -- only an undo uses up weight, and only a subscription adds any
  have hspent : (∀ t, c ≠ .undo t) → s.spent weight = 0 := fun hc => by
    cases c <;> simp_all [spent]
  have hle : ∀ {n : Nat}, n ≤ s.tallyBelow weight →
      n + 0 ≤ c.tally weight + s.tallyBelow weight + s.gained weight K := fun hn => by omega
  cases c with
  | undo t =>
    have hundo : s.spent weight = t.spent weight := by rw [spent, hs]
    rw [hundo]
    exact Nat.le_add_right_of_le (tally_undo s t)
  | subscribe x y =>
    rw [hspent (by simp), show (Command.subscribe x y).tally weight = 0 from rfl, Nat.zero_add]
    exact tally_subscribe s hs
  | set o p v => rw [hspent (by simp)]; exact hle (tally_set s o p v)
  | write root p v =>
    rw [hspent (by simp), stepCommand, stepWrite]
    split <;> exact hle (tally_goOn_le s rfl rfl)
  | next i v => rw [hspent (by simp)]; exact hle (tally_publish s i v _)
  | deliver y v => rw [hspent (by simp)]; exact hle (tally_deliver s hs hn)
  | subscribeAll members rest =>
    rw [hspent (by simp)]
    cases rest with
    | nil =>
      simp only [stepCommand, stepSubscribeAll, tally_goOn, Control.tally, Signal.tally, Teardown.tally,
        Command.tally, tallyBelow]
      omega
    | cons x rest =>
      simp only [stepCommand, stepSubscribeAll, tally_under, Control.tally, Frame.tally, Command.tally, tallyBelow]
      omega
  | undoAll members panic =>
    rw [hspent (by simp)]
    cases members with
    | nil => cases panic <;> exact hle (tally_goOn_le s rfl rfl)
    | cons t rest =>
      simp only [stepCommand, stepUndoAll, tally_under, Control.tally, Frame.tally, Command.tally, tallyAll,
        tallyBelow]
      omega
  | dispose n =>
    have hclear := s.world.heap.tally_clearHandle weight n
    simp only [hspent (by simp), stepCommand, tally_goOn, Control.tally, Command.tally, tallyBelow]
    omega
  | disposeComposite d => rw [hspent (by simp)]; exact hle (tally_disposeComposite s d)
  | add d n => rw [hspent (by simp)]; exact hle (tally_add s d n)
  | schedule i t =>
    rw [hspent (by simp), stepCommand, stepSchedule]
    split
    · exact hle (tally_goOn_le s rfl (Heap.tally_of_tables rfl rfl rfl))
    · exact hle (tally_task s t)
  | drain i ran =>
    rw [hspent (by simp), stepCommand, stepDrain]
    split
    · refine hle (Nat.le_trans (tally_task (s.under _ _ _) _) ?_)
      simp only [tallyBelow, under, List.map_cons, List.sum_cons, Frame.tally, World.withHeap, Nat.zero_add]
      exact Nat.add_le_add_left (Nat.le_of_eq (Heap.tally_of_tables rfl rfl rfl)) _
    · exact hle (tally_goOn_le s rfl rfl)

/-- A signal comes back to a frame. -/
theorem tally_frame (signal : Signal C) (f : Frame F C) :
    (stepFrame s signal f).tally weight ≤ signal.tally weight + (f.tally weight + s.tallyBelow weight) := by
  have hteardown : signal.teardown.tally weight = signal.tally weight := by cases signal <;> rfl
  have hle : ∀ {n : Nat}, n ≤ s.tallyBelow weight →
      n ≤ signal.tally weight + (f.tally weight + s.tallyBelow weight) := fun hn => by omega
  cases f with
  | client c =>
    simp only [stepFrame, tally_goOn, Control.tally, Frame.tally, tallyBelow]
    omega
  | subscribed y t =>
    simp only [stepFrame, tally_goOn, Control.tally, Signal.tally, Frame.tally, tallyBelow]
    omega
  | notifying x rest o v => exact hle (tally_notify s o v rest)
  | publishing y rest i v => exact hle (tally_publish s i v rest)
  | announcing o p old new =>
    refine hle (Nat.le_trans (tally_notify (s.under _ _ _) ..) ?_)
    simp only [tallyBelow, under, List.map_cons, List.sum_cons, Frame.tally, World.withHeap]
    omega
  | gathering y members rest =>
    simp only [stepFrame, tally_goOn, Control.tally, Command.tally, tallyAll_append, tallyAll, hteardown,
      Frame.tally, tallyBelow]
    omega
  | relocating | opening =>
    simp only [stepFrame, tally_goOn, Control.tally, Signal.tally, Teardown.tally, hteardown, tallyBelow]
    omega
  | switching i g inner next =>
    simp only [stepFrame]
    split
    · exact hle (tally_goOn_le s rfl rfl)
    · exact hle (tally_under_le s rfl rfl rfl)
  | entering i g inner =>
    simp only [stepFrame]
    split
    · have hset := s.world.heap.tally_setSwitch weight i
        { s.world.heap.switch i with current := some signal.teardown }
      simp only [Switch.tally, Option.getD_some, hteardown] at hset
      rw [tally_goOn, tallyBelow, show (Control.pass .done : Control F C).tally weight = 0 from rfl]
      omega
    · simp only [tally_goOn, Control.tally, Command.tally, hteardown, tallyBelow]
      omega
  | closing i =>
    have hset := s.world.heap.tally_setSwitch weight i { s.world.heap.switch i with current := none }
    simp only [Switch.tally, Option.getD_none, Teardown.tally] at hset
    simp only [stepFrame, tally_goOn, Control.tally, Command.tally, tallyBelow]
    omega
  | undoing rest panic =>
    simp only [stepFrame, tally_goOn, Control.tally, Command.tally, Frame.tally, tallyBelow]
    omega
  | _ => exact hle (tally_goOn_le s rfl rfl)

/-- A panic unwinds a frame. -/
theorem tally_unwind (message : String) (f : Frame F C) :
    (unwindFrame s message f).tally weight ≤ f.tally weight + s.tallyBelow weight := by
  cases f with
  | subscribed | gathering =>
    simp only [unwindFrame, tally_under, Control.tally, Command.tally, Frame.tally, tallyBelow]
    omega
  | undoing =>
    simp only [unwindFrame, tally_goOn, Control.tally, Command.tally, Frame.tally, tallyBelow]
    omega
  | _ => exact Nat.le_add_left_of_le (tally_goOn_le s rfl rfl)

/-- **Teardowns are used up.** A step that is not the client's makes no teardown but for whom it registers, and uses
up the one that it runs. -/
theorem tally_step (hn : ¬ s.ClientActs) :
    (s.step K).tally weight + s.spent weight ≤ s.tally weight + s.gained weight K := by
  have hcons : ∀ (c : Control F C) (f : Frame F C) (fs : List (Frame F C)) (w : World F C S),
      (⟨c, f :: fs, w⟩ : State F C S).tally weight =
        c.tally weight + (f.tally weight + (⟨c, fs, w⟩ : State F C S).tallyBelow weight) := fun c f fs w => by
    simp [tally, tallyBelow, Nat.add_assoc]
  obtain ⟨c, fs, w⟩ := s
  cases c with
  | run c => exact tally_command _ rfl hn
  | resume c signal => exact absurd trivial hn
  | pass signal =>
    cases fs with
    | nil => exact Nat.le_refl _
    | cons f fs =>
      rw [hcons]
      exact tally_frame ⟨.pass signal, fs, w⟩ signal f
  | panic message =>
    cases fs with
    | nil => exact Nat.le_refl _
    | cons f fs =>
      rw [hcons, Control.tally, Nat.zero_add]
      exact tally_unwind ⟨.panic message, fs, w⟩ message f

end Steps

end State

end DataBinding
