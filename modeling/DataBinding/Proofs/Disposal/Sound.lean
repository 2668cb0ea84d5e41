import DataBinding.Proofs.Disposal.Ownership
import DataBinding.Proofs.Reentrant.Session
/-!
# Sound states

A state is sound for a scope when all its observers, tasks and teardowns are where they belong
(`Scope.Sound`). A frame that waits for a subscription tells which one it waits for: one in the scope or
not (`Scope.expects`), made after which switch (`floor`). The turns of a switch that are still under way
have different numbers, and the switch keeps nothing while the latest of them is (`Scope.Turns`).

Here are these notions, and how they carry over from heap to heap and from frames to more frames.
-/

namespace DataBinding

variable {F C S : Type}

/-! ## What is not up to the machine -/

/-- What client code does to the heap of its own accord: it sets properties without telling anybody, makes
new things, keeps subscriptions, and registers observers of its own, but not this code. -/
inductive Heap.Edit (code : C) : Heap F C → Heap F C → Prop
  | put (h : Heap F C) (o : ObjectId) (p : String) (v : Value) : Edit code h (h.put o p v)
  | object (h : Heap F C) (typeName : String) (capability : Capability) :
      Edit code h (h.newObject typeName capability).2
  | subject (h : Heap F C) : Edit code h h.newSubject.2
  | stream (h : Heap F C) (x : Stream F) : Edit code h (h.newStream x).2
  | immediate (h : Heap F C) : Edit code h (h.newScheduler .immediate).2
  | queue (h : Heap F C) : Edit code h (h.newScheduler (.queue [])).2
  | composite (h : Heap F C) : Edit code h h.newComposite.2
  | handle (h : Heap F C) (t : Teardown C) : Edit code h (h.newHandle t).2
  | register (h : Heap F C) (o : ObjectId) (t : Timing) (p : String) (reports : Bool) {other : C} :
      other ≠ code → Edit code h (h.addHandler o t p reports (.client other)).2

def Heap.Edits (code : C) : Heap F C → Heap F C → Prop := Relation.ReflTransGen (Heap.Edit code)

/-- A command that client code may give: what it subscribes or delivers to are not this code, and are no
operators. -/
def Command.Outside (code : C) : Command F C → Prop
  | .deliver y _ | .subscribe _ y => y.Foreign code
  | .subscribeAll members rest => members = [] ∧ ∀ p ∈ rest, p.2.Foreign code
  | .schedule _ (.deliver ..) => False
  | _ => True

def Move.Outside (code : C) : Move F C → Prop
  | .perform command _ => command.Outside code
  | _ => True

/-- Client code and supplied functions leave this code to one subscription. -/
structure Client.Reserves (K : Client F C S) (code : C) : Prop where
  apply : ∀ f v w, Heap.Edits code w.heap (K.apply f v w).2.heap
  resume : ∀ c signal w, Heap.Edits code w.heap (K.resume c signal w).1.heap ∧
    (K.resume c signal w).2.Outside code

/-- So it does at this state, if it has its turn there. -/
def State.Minds (K : Client F C S) (code : C) (s : State F C S) : Prop :=
  match s.control with
  | .resume c signal =>
    Heap.Edits code s.world.heap (K.resume c signal s.world).1.heap ∧ (K.resume c signal s.world).2.Outside code
  | .run (.deliver (.map (.apply f) _) v) | .run (.deliver (.filter f _) v) =>
    Heap.Edits code s.world.heap (K.apply f v s.world).2.heap
  | _ => True

theorem Client.Reserves.minds {K : Client F C S} {code : C} (hK : K.Reserves code) (s : State F C S) :
    s.Minds K code := by
  obtain ⟨c, fs, w⟩ := s
  cases c with
  | run c =>
    cases c with
    | deliver y v =>
      cases y with
      | map f next =>
        cases f with
        | apply f => exact hK.apply f v w
        | _ => trivial
      | filter f next => exact hK.apply f v w
      | _ => trivial
    | _ => trivial
  | resume c signal => exact hK.resume c signal w
  | _ => trivial

/-- What is kept in the handle of the subscription, if it has one already. -/
def Heap.kept (h : Heap F C) (hd : Option Nat) : Teardown C := hd.elim .nothing h.teardown

theorem Heap.kept_congr {h h' : Heap F C} (hh : h'.handles = h.handles) (hd : Option Nat) :
    h'.kept hd = h.kept hd := by
  have ht : h'.teardown = h.teardown := funext fun n => by simp only [Heap.teardown, hh]
  rw [Heap.kept, ht, Heap.kept]

/-! ## Turns of switches -/

namespace Frame

/-- The switch whose turn it is, and the number of the turn. -/
def turn? : Frame F C → Option (Nat × Nat)
  | .switching i g .. | .entering i g _ => some (i, g)
  | _ => none

end Frame

/-- The turns under way, the innermost first. -/
def turns (fs : List (Frame F C)) : List (Nat × Nat) := fs.filterMap Frame.turn?

/-- A subscription that the frames wait for is made when there are so many switches at least. -/
def floor : List (Frame F C) → Nat
  | .gathering .. :: fs | .relocating _ :: fs | .opening _ :: fs => floor fs
  | .entering i .. :: _ => i + 1
  | _ => 0

namespace Scope

variable (q : Scope C)

structure Turns (h : Heap F C) (fs : List (Frame F C)) : Prop where
  /-- Turns of one switch have different numbers, smaller ones further out. -/
  ordered : (turns fs).Pairwise fun a b => a.1 = b.1 → b.2 < a.2
  present : ∀ p ∈ turns fs, p.1 < h.switches.size
  latest : ∀ p ∈ turns fs, p.2 ≤ (h.switch p.1).generation ∧
    (p.2 = (h.switch p.1).generation → (h.switch p.1).current = none)
  /-- A switch in a deep scope runs while it subscribes to its latest inner stream. -/
  running : ∀ i g x, .entering i g x ∈ fs → g = (h.switch i).generation → q.deep → q.switch i →
    (h.switch i).stopped = false

/-! ## Soundness -/

/-- The frames wait for a subscription in the scope; `top` tells whether one is under way at all. -/
def expects (top : Prop) : List (Frame F C) → Prop
  | [] => top
  | .gathering .. :: fs => expects top fs
  | .relocating g :: _ => q.deep ∧ q.gate g
  | .opening i :: _ | .entering i .. :: _ => q.deep ∧ q.switch i
  | _ => False

structure SoundHeap (hd : Option Nat) (h : Heap F C) : Prop where
  entries : ∀ n, ∀ e ∈ h.roster n, e.1 < h.nextId n ∧ q.Fits h e.2
  tasks : ∀ s ts, h.tasks? s = some ts → ∀ t ∈ ts, q.FitsTask h t
  keeps : q.KeepsOwn h
  handle : q.Made h True 0 (h.kept hd)
  stored : ∀ n, hd = some n → n < h.handles.size

/-- Members to be subscribed to, for a subscription that is in the scope if `own` holds. -/
def FitsAll (h : Heap F C) (own : Prop) (rest : List (Stream F × Observer F C)) : Prop :=
  ∀ p ∈ rest, q.Fits h p.2 ∧ (q.Covers p.2 ↔ own)

/-- A frame, above frames that wait for a subscription in the scope if `own` holds. -/
def SoundFrame (h : Heap F C) (own : Prop) (n : Nat) : Frame F C → Prop
  | .subscribed _ t => q.Made h own n t
  | .notifying _ rest .. => ∀ x ∈ rest, q.Fits h x.observer
  | .publishing _ rest .. => ∀ y ∈ rest, q.Fits h y
  | .passing next _ => q.Fits h next
  | .gathering _ members rest => (∀ t ∈ members, q.Made h own n t) ∧ q.FitsAll h own rest
  | .relocating g => q.gate g ↔ own
  | .opening i => (n ≤ i ∧ i < h.switches.size) ∧ (q.switch i ↔ own)
  | .switching i g _ next => q.Fits h (.inner i g next)
  | .closing i => i < h.switches.size ∧ (h.switch i).stopped = true
  | _ => True

def SoundFrames (top : Prop) (h : Heap F C) : List (Frame F C) → Prop
  | [] => True
  | f :: fs => q.SoundFrame h (q.expects top fs) (floor fs) f ∧ SoundFrames top h fs

def SoundControl (h : Heap F C) (own : Prop) (n : Nat) : Control F C → Prop
  | .run (.deliver y _) => q.Fits h y
  | .run (.subscribe _ y) => q.Fits h y ∧ (q.Covers y ↔ own)
  | .run (.subscribeAll members rest) => (∀ t ∈ members, q.Made h own n t) ∧ q.FitsAll h own rest
  | .run (.schedule _ t) => q.FitsTask h t
  | .pass signal => q.Made h own n signal.teardown
  | _ => True

/-- A heap and the frames under way are sound. -/
structure Ground (hd : Option Nat) (top : Prop) (h : Heap F C) (fs : List (Frame F C)) : Prop where
  heap : q.SoundHeap hd h
  frames : q.SoundFrames top h fs
  turns : q.Turns h fs

structure Sound (hd : Option Nat) (top : Prop) (s : State F C S) : Prop where
  ground : q.Ground hd top s.world.heap s.frames
  control : q.SoundControl s.world.heap (q.expects top s.frames) (floor s.frames) s.control

variable {q} {hd : Option Nat} {top own : Prop} {n : Nat} {h h' : Heap F C} {fs : List (Frame F C)}
  {s : State F C S}

/-! ### Later heaps -/

section Later
variable {N : Heap.Arrivals F C} (hl : Heap.Later N h h')
include hl

theorem SoundFrame.later {f : Frame F C} (hf : q.SoundFrame h own n f) : q.SoundFrame h' own n f := by
  cases f with
  | subscribed y t => exact Made.later hl hf
  | notifying x rest o v => exact fun y hy => (hf y hy).later hl
  | publishing x rest i v => exact fun y hy => (hf y hy).later hl
  | passing next v => exact Fits.later hl hf
  | gathering y members rest =>
    exact ⟨fun t ht => (hf.1 t ht).later hl, fun p hp => ⟨(hf.2 p hp).1.later hl, (hf.2 p hp).2⟩⟩
  | opening i => exact ⟨⟨hf.1.1, Nat.lt_of_lt_of_le hf.1.2 hl.switches⟩, hf.2⟩
  | switching i g inner next => exact Fits.later hl hf
  | closing i =>
    refine ⟨Nat.lt_of_lt_of_le hf.1 hl.switches, Bool.of_not_eq_false fun hs => ?_⟩
    rcases hl.running i hs with hs | ⟨hi, -⟩
    · exact nomatch hf.2.symm.trans hs
    · exact absurd hf.1 (Nat.not_lt_of_le hi)
  | _ => exact hf

theorem SoundFrames.later (hf : q.SoundFrames top h fs) : q.SoundFrames top h' fs := by
  induction fs with
  | nil => trivial
  | cons f fs ih => exact ⟨hf.1.later hl, ih hf.2⟩

/-- What is new in the heap is sound, and the rest is as it was. -/
theorem SoundHeap.later (hs : q.SoundHeap hd h)
    (he : ∀ n, ∀ e ∈ h'.roster n, e ∈ h.roster n ∨ e.1 < h'.nextId n ∧ q.Fits h' e.2)
    (ht : h'.schedulers = h.schedulers)
    (hc : ∀ i c, (h'.switch i).current = some c → (h.switch i).current = some c)
    (hh : h'.handles = h.handles) : q.SoundHeap hd h' where
  entries n e hn := by
    rcases he n e hn with hn | hn
    · exact ⟨Nat.lt_of_lt_of_le (hs.entries n e hn).1 (hl.nextId n), (hs.entries n e hn).2.later hl⟩
    · exact hn
  tasks s ts hts t hm := (hs.tasks s ts (by rwa [Heap.tasks?, ht] at hts) t hm).later hl
  keeps := hs.keeps.later hl hc
  handle := Heap.kept_congr hh hd ▸ hs.handle.later hl
  stored n hn := hh ▸ hs.stored n hn

end Later

theorem Turns.congr (ht : q.Turns h fs) (hs : h'.switches = h.switches) : q.Turns h' fs := by
  have hi : ∀ i, h'.switch i = h.switch i := fun i => by simp only [Heap.switch, hs]
  exact ⟨ht.ordered, hs ▸ ht.present, by simpa only [hi] using ht.latest, by simpa only [hi] using ht.running⟩

theorem Turns.cons {f : Frame F C} (ht : q.Turns h fs) (hf : f.turn? = none) : q.Turns h (f :: fs) where
  ordered := by simpa [turns, hf] using ht.ordered
  present := by simpa [turns, hf] using ht.present
  latest := by simpa [turns, hf] using ht.latest
  running i g x hm := by
    rcases List.mem_cons.1 hm with rfl | hm
    · cases hf
    · exact ht.running i g x hm

theorem Turns.tail {f : Frame F C} (ht : q.Turns h (f :: fs)) : q.Turns h fs := by
  have hsub : (turns fs).Sublist (turns (f :: fs)) := (List.sublist_cons_self f fs).filterMap _
  exact ⟨ht.ordered.sublist hsub, fun p hp => ht.present p (hsub.subset hp),
    fun p hp => ht.latest p (hsub.subset hp), fun i g x hm => ht.running i g x (List.mem_cons_of_mem _ hm)⟩

namespace Ground

theorem push {f : Frame F C} (g : q.Ground hd top h fs)
    (hf : q.SoundFrame h (q.expects top fs) (floor fs) f) (ht : f.turn? = none) :
    q.Ground hd top h (f :: fs) :=
  ⟨g.heap, ⟨hf, g.frames⟩, g.turns.cons ht⟩

theorem pop {f : Frame F C} (g : q.Ground hd top h (f :: fs)) : q.Ground hd top h fs :=
  ⟨g.heap, g.frames.2, g.turns.tail⟩

theorem later {N : Heap.Arrivals F C} (g : q.Ground hd top h fs) (hl : Heap.Later N h h')
    (he : ∀ n, ∀ e ∈ h'.roster n, e ∈ h.roster n ∨ e.1 < h'.nextId n ∧ q.Fits h' e.2)
    (ht : h'.schedulers = h.schedulers) (hs : h'.switches = h.switches)
    (hh : h'.handles = h.handles) : q.Ground hd top h' fs :=
  ⟨g.heap.later hl he ht (fun i c hi => by rwa [Heap.switch, hs] at hi) hh, g.frames.later hl,
    g.turns.congr hs⟩

/-- Only cells have changed that nothing here depends on. -/
theorem alike (g : q.Ground hd top h fs) (a : h.Alike h') (ht : h'.schedulers = h.schedulers)
    (hh : h'.handles = h.handles) : q.Ground hd top h' fs :=
  g.later (.of_alike (N := .any) a)
    (fun n _ he => .inl (a.roster n ▸ he)) ht a.switches hh

theorem enrolls {m : Node} {y : Observer F C} (g : q.Ground hd top h fs) (a : h.Enrolls m y h')
    (hy : q.Fits h y) (ht : h'.schedulers = h.schedulers) (hh : h'.handles = h.handles) :
    q.Ground hd top h' fs := by
  have hl : Heap.Later .any h h' := .of_enrolls a trivial
  refine g.later hl (fun m' e he => ?_) ht a.switches hh
  obtain he | ⟨rfl, rfl⟩ := a.mem_roster he
  · exact .inl he
  · exact .inr ⟨a.lt_nextId, hy.later hl⟩

theorem strikes {m : Node} {id : Nat} (g : q.Ground hd top h fs) (a : h.Strikes m id h')
    (ht : h'.schedulers = h.schedulers) (hh : h'.handles = h.handles) : q.Ground hd top h' fs :=
  g.later (.of_strikes (N := .any) a) (fun _ _ he => .inl (a.mem_roster.1 he).1) ht a.switches hh

end Ground

end Scope

end DataBinding
