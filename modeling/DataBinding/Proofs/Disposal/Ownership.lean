import DataBinding.Proofs.Chain.Basic
import DataBinding.Proofs.Heap.Rosters
/-!
# What a subscription owns

A teardown is made of parts: ids on rosters, switches and gates (`Teardown.parts`). What is undone with
them are the parts themselves and, through each switch, the parts of the inner subscription it keeps
(`Heap.Owned`).

A scope tells which observers lead to one code, and which switches and gates. Their registrations, as
long as they are there, and these switches and gates, as long as they run, are live (`Scope.Live`). A
list of parts accounts for a heap if whatever is live is owned by it (`Scope.Accounted`); each operation
of the machine comes with the parts that account for the heap it leaves.
-/

namespace DataBinding

variable {F C : Type}

/-! ## Parts -/

/-- Something that can be undone. -/
inductive Part where
  /-- An id on a roster. -/
  | entry (node : Node) (id : Nat)
  | switch (i : Nat)
  | gate (g : Nat)
  /-- What a composite or the client undoes. -/
  | other
deriving DecidableEq

namespace Teardown

mutual

/-- What a teardown undoes of its own accord. -/
def parts : Teardown C → List Part
  | nothing => []
  | handler o id => [.entry (.object o) id]
  | observer s id => [.entry (.subject s) id]
  | relocate g source => .gate g :: source.parts
  | switch i source => .switch i :: source.parts
  | all members => partsAll members
  | composite _ => [.other]
  | client _ => [.other]

def partsAll : List (Teardown C) → List Part
  | [] => []
  | t :: rest => t.parts ++ partsAll rest

end

theorem partsAll_eq (l : List (Teardown C)) : partsAll l = l.flatMap parts := by
  induction l with
  | nil => rfl
  | cons t rest ih => simp [partsAll, ih]

@[simp] theorem parts_nothing : (nothing : Teardown C).parts = [] := by simp [parts]

@[simp] theorem parts_handler (o : ObjectId) (id : Nat) :
    (handler o id : Teardown C).parts = [.entry (.object o) id] := by simp [parts]

@[simp] theorem parts_observer (s : SubjectId) (id : Nat) :
    (observer s id : Teardown C).parts = [.entry (.subject s) id] := by simp [parts]

@[simp] theorem parts_relocate (g : Nat) (t : Teardown C) :
    (relocate g t).parts = .gate g :: t.parts := by simp [parts]

@[simp] theorem parts_switch (i : Nat) (t : Teardown C) :
    (switch i t).parts = .switch i :: t.parts := by simp [parts]

@[simp] theorem parts_all (l : List (Teardown C)) : (all l).parts = l.flatMap parts := by
  simp [parts, partsAll_eq]

@[simp] theorem parts_composite (c : Nat) : (composite c : Teardown C).parts = [.other] := by
  simp [parts]

@[simp] theorem parts_client (code : C) : (client code).parts = [.other] := by simp [parts]

end Teardown

namespace Heap

/-- The parts there are to undo with these: they themselves, and what their switches keep. -/
inductive Owned (h : Heap F C) (ps : List Part) : Part → Prop
  | here {p} : p ∈ ps → Owned h ps p
  | current {i c p} : Owned h ps (.switch i) → (h.switch i).current = some c → p ∈ c.parts →
      Owned h ps p

namespace Owned
variable {h h' : Heap F C} {ps ps' : List Part} {p : Part}

theorem mono (hp : h.Owned ps p) (hs : ∀ p ∈ ps, p ∈ ps') : h.Owned ps' p := by
  induction hp with
  | here hp => exact .here (hs _ hp)
  | current _ hc hp ih => exact .current ih hc hp

theorem not_nil (hp : h.Owned [] p) : False := by
  induction hp with
  | here hp => cases hp
  | current _ _ _ ih => exact ih

theorem append (hp : h.Owned (ps ++ ps') p) : h.Owned ps p ∨ h.Owned ps' p := by
  induction hp with
  | here hp => exact (List.mem_append.1 hp).imp .here .here
  | current _ hc hp ih => exact ih.imp (.current · hc hp) (.current · hc hp)

/-- Nothing is kept by what is no switch, or by a switch without an inner subscription. -/
theorem tail {a : Part} (hp : h.Owned (a :: ps) p) (ha : ∀ i, a = .switch i → (h.switch i).current = none) :
    p = a ∨ h.Owned ps p := by
  induction hp with
  | here hp => exact (List.mem_cons.1 hp).imp id .here
  | current _ hc hp ih =>
    rcases ih with rfl | ih
    · exact nomatch (ha _ rfl).symm.trans hc
    · exact .inr (.current ih hc hp)

theorem congr (hp : h.Owned ps p)
    (hc : ∀ i c, (h.switch i).current = some c → (h'.switch i).current = some c) : h'.Owned ps p := by
  induction hp with
  | here hp => exact .here hp
  | current _ hi hp ih => exact .current ih (hc _ _ hi) hp

/-- What a switch kept is owned beside it once it has been taken out. -/
theorem taken {i : Nat} {x : Switch C} (hp : h.Owned ps p) :
    (h.setSwitch i x).Owned (((h.switch i).current.getD .nothing).parts ++ ps) p := by
  induction hp with
  | here hp => exact .here (List.mem_append_right _ hp)
  | @current j c p _ hc hp ih =>
    by_cases hj : j = i
    · subst hj
      exact .here (List.mem_append_left _ (by simpa [hc] using hp))
    · exact .current ih (by rwa [switch_setSwitch_of_ne _ _ _ _ hj]) hp

end Owned

end Heap

/-! ## Scopes -/

/-- The observers that lead to a code, with the switches and the gates that do. In a deep scope values may
come to the code through switches and gates; otherwise they may not, and the switches and gates are those
that the code is next behind. -/
structure Scope (C : Type) where
  code : C
  deep : Prop
  switch : Nat → Prop
  gate : Nat → Prop

namespace Scope

section Definitions
variable (q : Scope C)

/-- The observer leads to the code. -/
def Covers : Observer F C → Prop
  | .client code => code = q.code
  | .write .. => False
  | .map _ next | .filter _ next | .skip _ next | .distinct _ next | .slot _ _ next => Covers next
  | .outer _ _ next | .inner _ _ next | .relocate _ _ next => q.deep ∧ Covers next

variable (h : Heap F C)

/-- The switches of an observer exist, and its switches and gates are in the scope as what they pass values
on to is. -/
def Fits : Observer F C → Prop
  | .client _ | .write .. => True
  | .map _ next | .filter _ next | .skip _ next | .distinct _ next | .slot _ _ next => Fits next
  | .outer i _ next | .inner i _ next =>
    i < h.switches.size ∧ (q.switch i ↔ q.Covers next) ∧ Fits next
  | .relocate g _ next => (q.gate g ↔ q.Covers next) ∧ Fits next

/-- A task delivers as a gate hands it over. -/
def FitsTask : Task F C → Prop
  | .deliver g y _ => (q.gate g ↔ q.Covers y) ∧ q.Fits h y
  | .client _ => True

/-- The part is there, or runs, for the code. -/
def Live : Part → Prop
  | .entry n id => ∃ y, (id, y) ∈ h.roster n ∧ q.Covers y
  | .switch i => q.switch i ∧ (h.switch i).stopped = false
  | .gate g => q.gate g ∧ h.gateOpen g = true
  | .other => False

/-- The part belongs to a subscription that is in the scope if `own` holds, and was made when there were
`n` switches or more. -/
def Typed (own : Prop) (n : Nat) : Part → Prop
  | .entry m id => id < h.nextId m ∧
      ∀ y, (id, y) ∈ h.roster m → (q.Covers y → own) ∧ (q.deep → own → q.Covers y)
  | .switch i => (n ≤ i ∧ i < h.switches.size) ∧ (q.switch i → own) ∧ (q.deep → own → q.switch i)
  | .gate g => (q.gate g → own) ∧ (q.deep → own → q.gate g)
  | .other => False

def Made (own : Prop) (n : Nat) (t : Teardown C) : Prop := ∀ p ∈ t.parts, q.Typed h own n p

/-- What a switch keeps was made for it, after it. -/
def KeepsOwn : Prop :=
  ∀ i c, (h.switch i).current = some c → q.Made h (q.deep ∧ q.switch i) (i + 1) c

/-- Whatever is live is owned by these. -/
def Accounted (ps : List Part) : Prop := ∀ p, q.Live h p → h.Owned ps p

end Definitions

variable {q : Scope C} {h h' : Heap F C} {own own' : Prop} {n n' : Nat} {p : Part} {ps ps' : List Part}

theorem covers_iff (hq : q.deep) (y : Observer F C) : q.Covers y ↔ y.code? = some q.code := by
  induction y with
  | client code => simp [Covers, Observer.code?]
  | write => simp [Covers, Observer.code?]
  | map _ _ ih | filter _ _ ih | skip _ _ ih | distinct _ _ ih | slot _ _ _ ih => exact ih
  | outer _ _ _ ih | inner _ _ _ ih | relocate _ _ _ ih =>
    simpa [Covers, Observer.code?, hq] using ih

/-! ### Later heaps -/

section Later
variable {N : Heap.Arrivals F C} (hl : Heap.Later N h h')
include hl

theorem Fits.later {y : Observer F C} (hy : q.Fits h y) : q.Fits h' y := by
  induction y with
  | client | write => trivial
  | map _ _ ih | filter _ _ ih | skip _ _ ih | distinct _ _ ih | slot _ _ _ ih => exact ih hy
  | outer _ _ _ ih | inner _ _ _ ih =>
    exact ⟨Nat.lt_of_lt_of_le hy.1 hl.switches, hy.2.1, ih hy.2.2⟩
  | relocate _ _ _ ih => exact ⟨hy.1, ih hy.2⟩

theorem FitsTask.later {t : Task F C} (ht : q.FitsTask h t) : q.FitsTask h' t := by
  cases t with
  | deliver g y v => exact ⟨ht.1, ht.2.later hl⟩
  | client => trivial

theorem Typed.later (hp : q.Typed h own n p) : q.Typed h' own n p := by
  cases p with
  | entry m id =>
    exact ⟨Nat.lt_of_lt_of_le hp.1 (hl.nextId m), fun y hy => hp.2 y (hl.old hy hp.1)⟩
  | switch i => exact ⟨⟨hp.1.1, Nat.lt_of_lt_of_le hp.1.2 hl.switches⟩, hp.2⟩
  | _ => exact hp

theorem Made.later {t : Teardown C} (ht : q.Made h own n t) : q.Made h' own n t :=
  fun p hp => (ht p hp).later hl

theorem KeepsOwn.later (hk : q.KeepsOwn h)
    (hc : ∀ i c, (h'.switch i).current = some c → (h.switch i).current = some c) : q.KeepsOwn h' :=
  fun i c hi => (hk i c (hc i c hi)).later hl

end Later

theorem KeepsOwn.setSwitch {i : Nat} {x : Switch C} (hk : q.KeepsOwn h)
    (hs : (h.switch i).stopped = true → x.stopped = true)
    (hx : ∀ c, x.current = some c → (h.switch i).current = some c) : q.KeepsOwn (h.setSwitch i x) :=
  hk.later (.setSwitch .none h i hs) fun j c hj => by
    rw [Heap.switch_setSwitch] at hj
    split at hj
    · next he => exact he.1 ▸ hx c hj
    · exact hj

theorem Fits.alike {y : Observer F C} (hy : q.Fits h y) (a : h.Alike h') : q.Fits h' y :=
  hy.later (.of_alike (N := .any) a)

/-! ### Types of parts -/

theorem made_nothing : q.Made h own n .nothing := fun p hp => by simp at hp

theorem made_handler {o : ObjectId} {id : Nat} (hp : q.Typed h own n (.entry (.object o) id)) :
    q.Made h own n (.handler o id) := by
  simpa [Made] using hp

theorem made_observer {s : SubjectId} {id : Nat} (hp : q.Typed h own n (.entry (.subject s) id)) :
    q.Made h own n (.observer s id) := by
  simpa [Made] using hp

theorem made_all {l : List (Teardown C)} (hl : ∀ t ∈ l, q.Made h own n t) :
    q.Made h own n (.all l) := by
  intro p hp
  rw [Teardown.parts_all, List.mem_flatMap] at hp
  obtain ⟨t, ht, hp⟩ := hp
  exact hl t ht p hp

theorem Typed.imp (hp : q.Typed h own n p) (hi : own → own') (hb : q.deep → own' → own)
    (hn : n' ≤ n) : q.Typed h own' n' p := by
  cases p with
  | entry m id =>
    exact ⟨hp.1, fun y hy => ⟨fun hc => hi ((hp.2 y hy).1 hc), fun hd ho => (hp.2 y hy).2 hd (hb hd ho)⟩⟩
  | switch i => exact ⟨⟨Nat.le_trans hn hp.1.1, hp.1.2⟩, fun hs => hi (hp.2.1 hs), fun hd ho => hp.2.2 hd (hb hd ho)⟩
  | gate g => exact ⟨fun hs => hi (hp.1 hs), fun hd ho => hp.2 hd (hb hd ho)⟩
  | other => exact hp

/-- A subscription that serves what is behind a switch or a gate belongs where that does. -/
theorem Made.outer {P : Prop} {t : Teardown C} (ht : q.Made h (q.deep ∧ P) n t) (hP : P ↔ own) :
    q.Made h own n t :=
  fun p hp => (ht p hp).imp (fun ho => hP.1 ho.2) (fun hd ho => ⟨hd, hP.2 ho⟩) (Nat.le_refl _)

/-- What is owned belongs where its owners do. -/
theorem Typed.owned (hk : q.KeepsOwn h) (hps : ∀ p ∈ ps, q.Typed h own n p) (hp : h.Owned ps p) :
    q.Typed h own n p := by
  induction hp with
  | here hp => exact hps _ hp
  | current _ hc hp ih =>
    exact (hk _ _ hc _ hp).imp (fun ho => ih.2.1 ho.2) (fun hd ho => ⟨hd, ih.2.2 hd ho⟩)
      (Nat.le_succ_of_le ih.1.1)

theorem Typed.not_live (hp : q.Typed h own n p) (ho : ¬ own) : ¬ q.Live h p := by
  cases p with
  | entry m id =>
    rintro ⟨y, hy, hc⟩
    exact ho ((hp.2 y hy).1 hc)
  | switch i => exact fun hs => ho (hp.2.1 hs.1)
  | gate g => exact fun hs => ho (hp.1 hs.1)
  | other => exact id

/-! ### Accounting -/

namespace Accounted

theorem mono (ha : q.Accounted h ps) (hs : ∀ p ∈ ps, p ∈ ps') : q.Accounted h ps' :=
  fun p hp => (ha p hp).mono hs

/-- If nothing is owned, nobody registered leads to the code of a deep scope. -/
theorem unregistered (ha : q.Accounted h []) (hq : q.deep) {m : Node} {e : Nat × Observer F C}
    (he : e ∈ h.roster m) : e.2.code? ≠ some q.code := fun hc =>
  (ha (.entry m e.1) ⟨e.2, he, (covers_iff hq e.2).2 hc⟩).not_nil

/-- Subscriptions that are not in the scope own nothing live. -/
theorem drop (ha : q.Accounted h (ps ++ ps')) (hk : q.KeepsOwn h)
    (hps : ∀ p ∈ ps, q.Typed h own n p) (ho : ¬ own) : q.Accounted h ps' := fun p hp =>
  (ha p hp).append.resolve_left fun hp' => (Typed.owned hk hps hp').not_live ho hp

/-- Less is live, and switches keep what they kept. -/
theorem less (ha : q.Accounted h ps) (hl : ∀ p, q.Live h' p → q.Live h p)
    (hc : ∀ i c, (h.switch i).current = some c → (h'.switch i).current = some c) :
    q.Accounted h' ps :=
  fun p hp => (ha p (hl p hp)).congr hc

theorem alike (ha : q.Accounted h ps) (hh : h.Alike h') : q.Accounted h' ps := by
  have hs : ∀ i, h'.switch i = h.switch i := fun i => by simp only [Heap.switch, hh.switches]
  refine ha.less (fun p hp => ?_) fun i c hi => (hs i).symm ▸ hi
  cases p with
  | entry m id => simpa only [Live, hh.roster] using hp
  | switch i => simpa only [Live, hs] using hp
  | gate g => simpa only [Live, Heap.gateOpen, hh.gates] using hp
  | other => exact hp

/-- A part without which nothing else is lost is no longer live. -/
theorem tail {a : Part} (ha : q.Accounted h (a :: ps)) (hl : ∀ p, q.Live h' p → q.Live h p ∧ p ≠ a)
    (hn : ∀ i, a ≠ .switch i)
    (hc : ∀ i c, (h.switch i).current = some c → (h'.switch i).current = some c) :
    q.Accounted h' ps := fun p hp =>
  (((ha p (hl p hp).1).tail fun i hi => absurd hi (hn i)).resolve_left (hl p hp).2).congr hc

theorem strikes {m : Node} {id : Nat} (ha : q.Accounted h (.entry m id :: ps)) (hh : h.Strikes m id h') :
    q.Accounted h' ps := by
  have hs : ∀ i, h'.switch i = h.switch i := fun i => by simp only [Heap.switch, hh.switches]
  refine ha.tail (fun p hp => ?_) (fun i he => by cases he) fun i c hi => (hs i).symm ▸ hi
  cases p with
  | entry m' id' =>
    obtain ⟨y, hy, hc⟩ := hp
    obtain ⟨hold, hne⟩ := hh.mem_roster.1 hy
    refine ⟨⟨y, hold, hc⟩, fun he => ?_⟩
    obtain ⟨hm, hid⟩ := Part.entry.inj he
    exact hne hm hid
  | switch i => exact ⟨by simpa only [Live, hs] using hp, fun he => by cases he⟩
  | gate g => exact ⟨by simpa only [Live, Heap.gateOpen, hh.gates] using hp, fun he => by cases he⟩
  | other => exact hp.elim

theorem shutGate {g : Nat} (ha : q.Accounted h (.gate g :: ps)) : q.Accounted (h.shutGate g) ps := by
  refine ha.tail (fun p hp => ?_) (fun i => nofun) fun i c hi => hi
  cases p with
  | gate g' =>
    obtain ⟨hg, hopen⟩ := hp
    rw [Heap.gateOpen_shutGate] at hopen
    split at hopen
    · cases hopen
    · next hne => exact ⟨⟨hg, hopen⟩, by simpa using hne⟩
  | entry m id => exact ⟨hp, nofun⟩
  | switch i => exact ⟨hp, nofun⟩
  | other => exact hp.elim

/-- A switch no longer runs, if it did. -/
theorem live_setSwitch {i : Nat} {x : Switch C} (hx : (h.switch i).stopped = true → x.stopped = true) :
    ∀ p, q.Live (h.setSwitch i x) p → q.Live h p := by
  intro p hp
  cases p with
  | switch j =>
    obtain ⟨hj, hs⟩ := hp
    rw [Heap.switch_setSwitch] at hs
    split at hs
    · next he =>
      rw [he.1] at hj ⊢
      exact ⟨hj, by cases hi : (h.switch i).stopped <;> simp_all⟩
    · exact ⟨hj, hs⟩
  | _ => exact hp

theorem stop {i : Nat} {x : Switch C} (ha : q.Accounted h ps) (hx : x.stopped = true)
    (hc : x.current = (h.switch i).current) : q.Accounted (h.setSwitch i x) ps := by
  refine ha.less (live_setSwitch fun _ => hx) fun j c hj => ?_
  rw [Heap.switch_setSwitch]
  split
  · next he => rw [hc, ← he.1, hj]
  · exact hj

/-- A switch gives up what it kept. -/
theorem take {i : Nat} {x : Switch C} (ha : q.Accounted h ps)
    (hx : (h.switch i).stopped = true → x.stopped = true) :
    q.Accounted (h.setSwitch i x) (((h.switch i).current.getD .nothing).parts ++ ps) :=
  fun p hp => (ha p (live_setSwitch hx p hp)).taken

/-- A stopped switch that keeps nothing need not be owned. -/
theorem forget {i : Nat} (ha : q.Accounted h (.switch i :: ps)) (hs : (h.switch i).stopped = true)
    (hc : (h.switch i).current = none) : q.Accounted h ps := fun p hp => by
  refine ((ha p hp).tail fun j hj => ?_).resolve_left ?_
  · cases hj
    exact hc
  · rintro rfl
    exact nomatch hs.symm.trans hp.2

/-- Nor need a stopped switch that keeps nothing live. -/
theorem close {i : Nat} (ha : q.Accounted h (.switch i :: ps)) (hs : (h.switch i).stopped = true)
    (hk : q.KeepsOwn h) (hq : ¬ (q.deep ∧ q.switch i)) : q.Accounted h ps := fun p hp => by
  have hkept : ∀ p, h.Owned [.switch i] p → p = .switch i ∨ ∃ m, q.Typed h False m p := by
    intro p hp
    induction hp with
    | here hp => exact .inl (List.mem_singleton.1 hp)
    | @current j c p _ hc hp ih =>
      rcases ih with he | ⟨m, hm⟩
      · cases he
        exact .inr ⟨_, (hk i c hc p hp).imp hq (fun _ => False.elim) (Nat.le_refl _)⟩
      · exact .inr ⟨_, (hk j c hc p hp).imp (fun ho => hm.2.1 ho.2) (fun _ => False.elim)
          (Nat.le_refl _)⟩
  have hown : h.Owned ([.switch i] ++ ps) p := ha p hp
  refine hown.append.resolve_left fun ho => ?_
  rcases hkept p ho with rfl | ⟨m, hm⟩
  · exact nomatch hs.symm.trans hp.2
  · exact hm.not_live id hp

/-- A switch that runs keeps a subscription that was made for it. -/
theorem enter {i : Nat} {x : Switch C} {t : Teardown C} (ha : q.Accounted h (t.parts ++ ps))
    (hi : i < h.switches.size) (hx : x.current = some t) (hs : x.stopped = (h.switch i).stopped)
    (hnone : (h.switch i).current = none) (hk : q.KeepsOwn h)
    (ht : q.Made h (q.deep ∧ q.switch i) (i + 1) t)
    (hrun : q.deep → q.switch i → (h.switch i).stopped = false) :
    q.Accounted (h.setSwitch i x) ps := by
  have hset : (h.setSwitch i x).switch i = x := by rw [Heap.switch_setSwitch, if_pos ⟨rfl, hi⟩]
  have hkeep : ∀ j c, (h.switch j).current = some c → ((h.setSwitch i x).switch j).current = some c := by
    intro j c hj
    by_cases he : j = i
    · rw [he, hnone] at hj
      cases hj
    · rwa [Heap.switch_setSwitch_of_ne _ _ _ _ he]
  intro p hlive
  have hp := live_setSwitch (fun h' => hs.trans h') p hlive
  rcases (ha p hp).append with ho | ho
  · -- a live part of `t` puts the switch in the scope, and then the switch itself is owned below
    have hown : q.deep ∧ q.switch i :=
      Classical.byContradiction fun hno => (Typed.owned hk ht ho).not_live hno hp
    have hswitch : h.Owned ps (.switch i) := by
      refine (ha (.switch i) ⟨hown.2, hrun hown.1 hown.2⟩).append.resolve_left fun hi' => ?_
      exact absurd (Typed.owned hk ht hi').1.1 (Nat.not_succ_le_self i)
    clear hlive hp
    induction ho with
    | here hp => exact .current (hswitch.congr hkeep) (by rw [hset, hx]) hp
    | current _ hc hp ih => exact .current ih (hkeep _ _ hc) hp
  · exact ho.congr hkeep

theorem enrolls {m : Node} {y : Observer F C} (ha : q.Accounted h ps) (hh : h.Enrolls m y h') :
    q.Accounted h' (.entry m (h.nextId m) :: ps) := by
  have hs : ∀ i, h'.switch i = h.switch i := fun i => by simp only [Heap.switch, hh.switches]
  have hold : ∀ p, q.Live h p → h'.Owned (.entry m (h.nextId m) :: ps) p := fun p hp =>
    ((ha p hp).congr fun i c hi => (hs i).symm ▸ hi).mono fun _ => List.mem_cons_of_mem _
  intro p hp
  cases p with
  | entry m' id =>
    obtain ⟨z, hz, hc⟩ := hp
    obtain hz | ⟨rfl, he⟩ := hh.mem_roster hz
    · exact hold _ ⟨z, hz, hc⟩
    · obtain ⟨rfl, -⟩ := Prod.mk.inj he
      exact .here List.mem_cons_self
  | switch i => exact hold _ (by simpa only [Live, hs] using hp)
  | gate g => exact hold _ (by simpa only [Live, Heap.gateOpen, hh.gates] using hp)
  | other => exact hp.elim

/-- An observer that is not in the scope need not be owned. -/
theorem enrolls_other {m : Node} {y : Observer F C} (ha : q.Accounted h ps) (hh : h.Enrolls m y h')
    (hy : ¬ q.Covers y) : q.Accounted h' ps := by
  have hs : ∀ i, h'.switch i = h.switch i := fun i => by simp only [Heap.switch, hh.switches]
  refine ha.less (fun p hp => ?_) fun i c hi => (hs i).symm ▸ hi
  cases p with
  | entry m' id =>
    obtain ⟨z, hz, hc⟩ := hp
    obtain hz | ⟨-, he⟩ := hh.mem_roster hz
    · exact ⟨z, hz, hc⟩
    · obtain ⟨-, rfl⟩ := Prod.mk.inj he
      exact absurd hc hy
  | switch i => simpa only [Live, hs] using hp
  | gate g => simpa only [Live, Heap.gateOpen, hh.gates] using hp
  | other => exact hp

theorem newSwitch (ha : q.Accounted h ps) :
    q.Accounted h.newSwitch.2 (.switch h.switches.size :: ps) := by
  have hkeep : ∀ j c, (h.switch j).current = some c → (h.newSwitch.2.switch j).current = some c := by
    intro j c hj
    rwa [Heap.switch_newSwitch, if_neg (Nat.ne_of_lt (h.lt_size_of_current hj))]
  intro p hp
  by_cases he : p = .switch h.switches.size
  · exact .here (he ▸ List.mem_cons_self)
  · refine ((ha p ?_).congr hkeep).mono fun _ => List.mem_cons_of_mem _
    cases p with
    | switch i =>
      obtain ⟨hi, hs⟩ := hp
      rw [Heap.switch_newSwitch, if_neg (by simpa using he)] at hs
      exact ⟨hi, hs⟩
    | _ => exact hp

theorem newGate (ha : q.Accounted h ps) : q.Accounted h.newGate.2 (.gate h.gates.size :: ps) := by
  have hkeep : ∀ j c, (h.switch j).current = some c → (h.newGate.2.switch j).current = some c :=
    fun j c hj => hj
  intro p hp
  by_cases he : p = .gate h.gates.size
  · exact .here (he ▸ List.mem_cons_self)
  · refine ((ha p ?_).congr hkeep).mono fun _ => List.mem_cons_of_mem _
    cases p with
    | gate g =>
      obtain ⟨hg, hopen⟩ := hp
      rw [Heap.gateOpen_newGate, if_neg (by simpa using he)] at hopen
      exact ⟨hg, hopen⟩
    | _ => exact hp

end Accounted

end Scope

end DataBinding
