import DataBinding.Proofs.Disposal.Sound
/-!
# Operations keep the ground sound

What the machine and its client do to the heap leaves it, and the frames under way, sound
(`Scope.Ground`): each kind of operation on rosters, switches and gates, and all that client code does of
its own accord. A switch takes its turns one after the other (`Scope.Turns`).
-/

namespace DataBinding

variable {F C : Type}

namespace Heap

variable (h : Heap F C)

theorem tasks?_newScheduler (x : Scheduler F C) (s : SchedulerId) (l : List (Task F C))
    (hl : (h.newScheduler x).2.tasks? s = some l) : h.tasks? s = some l ∨ x = .queue l := by
  simp only [tasks?, newScheduler, Array.getElem?_push] at hl ⊢
  split at hl
  · next heq =>
    split at heq
    · exact .inr (Option.some.inj (heq.trans (congrArg (some ∘ Scheduler.queue) (Option.some.inj hl))))
    · rw [heq]
      exact .inl hl
  · cases hl

/-- What is there after client code has done something of its own accord: nothing that leads to the
code. -/
def Arrivals.foreign (code : C) : Arrivals F C := ⟨(·.Foreign code), fun _ => False, fun _ => False⟩

theorem Edits.later {h h' : Heap F C} {code : C} (he : Edits code h h') :
    Later (.foreign code) h h' := by
  induction he with
  | refl => exact .refl _ h
  | @tail h₁ h₂ _ he ih =>
    refine ih.trans ?_
    cases he with
    | put o p v => exact .of_alike (h₁.alike_put o p v)
    | object ty c => exact .of_alike (h₁.alike_newObject ty c)
    | subject => exact .of_alike h₁.alike_newSubject
    | stream x => exact .of_alike (h₁.alike_newStream x)
    | immediate | queue => exact .of_alike (h₁.alike_newScheduler _)
    | composite => exact .of_alike h₁.alike_newComposite
    | handle t => exact .of_alike (h₁.alike_newHandle t)
    | register o t p r ho => exact .addHandler h₁ o t p r ho

end Heap

namespace Scope

variable {q : Scope C} {hd : Option Nat} {top : Prop} {h h' : Heap F C} {fs : List (Frame F C)}

theorem covers_of_foreign {y : Observer F C} (hy : y.Foreign q.code) : ¬ q.Covers y := by
  cases y with
  | client c => exact hy
  | write => exact id
  | _ => exact hy.elim

theorem fits_of_foreign {y : Observer F C} (hy : y.Foreign q.code) : q.Fits h y := by
  cases y with
  | client | write => trivial
  | _ => exact hy.elim

/-- A subscription is made when there are more switches than the last one that waits for it. -/
theorem Turns.floor_le (ht : q.Turns h fs) : floor fs ≤ h.switches.size := by
  induction fs with
  | nil => exact Nat.zero_le _
  | cons f fs ih =>
    cases f with
    | gathering | relocating | opening => exact ih ht.tail
    | entering i g x => exact ht.present (i, g) (by simp [turns, Frame.turn?])
    | _ => exact Nat.zero_le _

/-- A switch begins its next turn. -/
theorem Turns.restart {i g : Nat} (inner : Stream F) (next : Observer F C) (ht : q.Turns h fs)
    (hi : i < h.switches.size) (hg : g = (h.switch i).generation + 1) :
    q.Turns (h.setSwitch i { h.switch i with generation := g, current := none })
      (.switching i g inner next :: fs) := by
  have hturns : turns (.switching i g inner next :: fs) = (i, g) :: turns fs := rfl
  refine ⟨?_, ?_, ?_, ?_⟩
  · rw [hturns, List.pairwise_cons]
    refine ⟨fun p hp he => ?_, ht.ordered⟩
    have hle := (ht.latest p hp).1
    simp only at he
    rw [← he] at hle
    omega
  · rw [hturns, Heap.size_setSwitch]
    exact List.forall_mem_cons.2 ⟨hi, ht.present⟩
  · rw [hturns]
    refine List.forall_mem_cons.2 ⟨by simp [Heap.switch_setSwitch, hi], fun p hp => ?_⟩
    rw [Heap.switch_setSwitch]
    split
    · next he =>
      have hle := (ht.latest p hp).1
      rw [he.1] at hle
      exact ⟨by simp only; omega, fun _ => rfl⟩
    · exact ht.latest p hp
  · intro j g' x hm hj
    have hm : .entering j g' x ∈ fs := by simpa using hm
    rw [Heap.switch_setSwitch] at hj ⊢
    split at hj
    · next he =>
      have hle := (ht.latest (j, g') (List.mem_filterMap.2 ⟨_, hm, rfl⟩)).1
      simp only at hle hj
      rw [he.1] at hle
      omega
    · next he =>
      rw [if_neg he]
      exact ht.running j g' x hm hj

/-- A turn goes on from undoing to subscribing. -/
theorem Turns.enter {i g : Nat} {inner : Stream F} {next : Observer F C}
    (ht : q.Turns h (.switching i g inner next :: fs)) (hs : (h.switch i).stopped = false) :
    q.Turns h (.entering i g inner :: fs) where
  ordered := ht.ordered
  present := ht.present
  latest := ht.latest
  running j g' x hm hg := by
    rcases List.mem_cons.1 hm with he | hm
    · cases he
      exact fun _ _ => hs
    · exact ht.running j g' x (List.mem_cons_of_mem _ hm) hg

/-- The cell of a switch is set as its latest turn asks for, if that is under way. -/
theorem Turns.set {i : Nat} {x : Switch C} (ht : q.Turns h fs)
    (hg : x.generation = (h.switch i).generation)
    (hl : ∀ p ∈ turns fs, p.1 = i → p.2 = (h.switch i).generation → x.current = none)
    (hs : ∀ g y, .entering i g y ∈ fs → g = (h.switch i).generation → q.deep → q.switch i →
      x.stopped = false) : q.Turns (h.setSwitch i x) fs where
  ordered := ht.ordered
  present := by simpa only [Heap.size_setSwitch] using ht.present
  latest p hp := by
    rw [Heap.switch_setSwitch]
    split
    · next he =>
      exact ⟨hg ▸ he.1 ▸ (ht.latest p hp).1, fun hpg => hl p hp he.1 (hpg.trans hg)⟩
    · exact ht.latest p hp
  running j g y hm hj hd hq := by
    rw [Heap.switch_setSwitch] at hj ⊢
    split at hj
    · next he =>
      obtain ⟨rfl, hi⟩ := he
      rw [if_pos ⟨rfl, hi⟩]
      exact hs g y hm (hj.trans hg) hd hq
    · next he =>
      rw [if_neg he]
      exact ht.running j g y hm hj hd hq

theorem Turns.newSwitch (ht : q.Turns h fs) : q.Turns h.newSwitch.2 fs := by
  have hne : ∀ p ∈ turns fs, h.newSwitch.2.switch p.1 = h.switch p.1 := fun p hp => by
    rw [Heap.switch_newSwitch, if_neg (Nat.ne_of_lt (ht.present p hp))]
  refine ⟨ht.ordered, fun p hp => ?_, fun p hp => ?_, fun i g x hm hi => ?_⟩
  · exact Nat.lt_of_lt_of_le (ht.present p hp) (by simp [Heap.newSwitch])
  · rw [hne p hp]
    exact ht.latest p hp
  · have he := hne (i, g) (List.mem_filterMap.2 ⟨_, hm, rfl⟩)
    simp only at he
    rw [he] at hi ⊢
    exact ht.running i g x hm hi

/-- A new registration is in the scope if its observer is. -/
theorem typed_of_enrolls {own : Prop} {n : Nat} {m : Node} {y : Observer F C} (hs : q.SoundHeap hd h)
    (a : h.Enrolls m y h') (hc : q.Covers y ↔ own) : q.Typed h' own n (.entry m (h.nextId m)) := by
  refine ⟨a.lt_nextId, fun z hz => ?_⟩
  obtain hz | ⟨-, he⟩ := a.mem_roster hz
  · exact absurd (hs.entries m _ hz).1 (Nat.lt_irrefl _)
  · obtain rfl : z = y := (Prod.mk.inj he).2
    exact ⟨hc.1, fun _ => hc.2⟩

namespace Ground

/-- Tasks and handles have changed, but what they hold belongs there. -/
theorem cells (g : q.Ground hd top h fs) (a : h.Alike h')
    (ht : ∀ s ts, h'.tasks? s = some ts → ∀ t ∈ ts, q.FitsTask h t) (hk : q.Made h True 0 (h'.kept hd))
    (hs : ∀ n, hd = some n → n < h'.handles.size) : q.Ground hd top h' fs := by
  have hl : Heap.Later .any h h' := .of_alike a
  refine ⟨⟨fun n e he => ?_, fun s ts hts t hm => (ht s ts hts t hm).later hl, ?_, hk.later hl, hs⟩,
    g.frames.later hl, g.turns.congr a.switches⟩
  · rw [a.roster] at he
    exact ⟨(a.nextId n).symm ▸ (g.heap.entries n e he).1, (g.heap.entries n e he).2.later hl⟩
  · exact g.heap.keeps.later hl fun i c hi => by rwa [Heap.switch, a.switches] at hi

theorem setTasks (g : q.Ground hd top h fs) (i : SchedulerId) {l : List (Task F C)}
    (hl : ∀ t ∈ l, q.FitsTask h t) : q.Ground hd top (h.setTasks i l) fs := by
  refine g.cells (h.alike_setTasks i l) (fun s ts hts => ?_) g.heap.handle g.heap.stored
  rw [Heap.tasks?_setTasks] at hts
  split at hts
  · cases hts
    exact hl
  · exact g.heap.tasks s ts hts

theorem clearHandle (g : q.Ground hd top h fs) (m : Nat) : q.Ground hd top (h.clearHandle m) fs := by
  refine g.cells (h.alike_clearHandle m) g.heap.tasks ?_ fun n hn => ?_
  · cases hd with
    | none => exact made_nothing
    | some n =>
      simp only [Heap.kept, Option.elim_some, Heap.teardown_clearHandle]
      split
      · exact made_nothing
      · exact g.heap.handle
  · simpa [Heap.clearHandle] using g.heap.stored n hn

theorem edit (g : q.Ground hd top h fs) (he : Heap.Edit q.code h h') : q.Ground hd top h' fs := by
  cases he with
  | put o p v => exact g.alike (h.alike_put o p v) rfl rfl
  | object ty c => exact g.alike (h.alike_newObject ty c) rfl rfl
  | subject => exact g.alike h.alike_newSubject rfl rfl
  | stream x => exact g.alike (h.alike_newStream x) rfl rfl
  | composite => exact g.alike h.alike_newComposite rfl rfl
  | immediate =>
    refine g.cells (h.alike_newScheduler _) (fun s ts hts => ?_) g.heap.handle g.heap.stored
    exact g.heap.tasks s ts ((h.tasks?_newScheduler _ s ts hts).resolve_right nofun)
  | queue =>
    refine g.cells (h.alike_newScheduler _) (fun s ts hts => ?_) g.heap.handle g.heap.stored
    rcases h.tasks?_newScheduler _ s ts hts with hts | hts
    · exact g.heap.tasks s ts hts
    · cases hts
      exact nofun
  | handle t =>
    refine g.cells (h.alike_newHandle t) g.heap.tasks ?_ fun n hn => ?_
    · cases hd with
      | none => exact made_nothing
      | some n =>
        simp only [Heap.kept, Option.elim_some, h.teardown_newHandle t (g.heap.stored n rfl)]
        exact g.heap.handle
    · exact Nat.lt_of_lt_of_le (g.heap.stored n hn) (by simp [Heap.newHandle])
  | @register o t p r other ho =>
    by_cases hsize : o < h.objects.size
    · exact g.enrolls (h.enrolls_addHandler hsize t p r _) trivial rfl rfl
    · rw [h.addHandler_of_le _ _ _ _ _ (Nat.le_of_not_lt hsize)]
      exact g

theorem edits (g : q.Ground hd top h fs) (he : Heap.Edits q.code h h') : q.Ground hd top h' fs := by
  induction he with
  | refl => exact g
  | tail _ he ih => exact ih.edit he

/-- A switch is stopped, or gives up or takes on what it keeps. -/
theorem setSwitch {i : Nat} {x : Switch C} (g : q.Ground hd top h fs) (ht : q.Turns (h.setSwitch i x) fs)
    (hs : (h.switch i).stopped = true → x.stopped = true)
    (hx : ∀ c, x.current = some c → q.Made h (q.deep ∧ q.switch i) (i + 1) c) :
    q.Ground hd top (h.setSwitch i x) fs := by
  have hl : Heap.Later .any h (h.setSwitch i x) := .setSwitch _ h i hs
  refine ⟨⟨fun n e he => ⟨(g.heap.entries n e he).1, (g.heap.entries n e he).2.later hl⟩,
    fun s ts hts t hm => (g.heap.tasks s ts hts t hm).later hl, fun j c hj => ?_, g.heap.handle.later hl,
    g.heap.stored⟩, g.frames.later hl, ht⟩
  rw [Heap.switch_setSwitch] at hj
  split at hj
  · next he => exact he.1 ▸ (hx c hj).later hl
  · exact (g.heap.keeps j c hj).later hl

theorem newSwitch (g : q.Ground hd top h fs) : q.Ground hd top h.newSwitch.2 fs := by
  have hl : Heap.Later .any h h.newSwitch.2 := .newSwitch h trivial
  refine ⟨g.heap.later hl (fun _ _ he => .inl he) rfl (fun i c hi => ?_) rfl, g.frames.later hl,
    g.turns.newSwitch⟩
  rw [Heap.switch_newSwitch] at hi
  split at hi
  · cases hi
  · exact hi

theorem newGate (g : q.Ground hd top h fs) : q.Ground hd top h.newGate.2 fs :=
  g.later (.newGate h (N := .any) trivial) (fun _ _ he => .inl he) rfl rfl rfl

theorem shutGate (g : q.Ground hd top h fs) (i : Nat) : q.Ground hd top (h.shutGate i) fs :=
  g.later (.shutGate .any h i) (fun _ _ he => .inl he) rfl rfl rfl

end Ground

end Scope

end DataBinding
