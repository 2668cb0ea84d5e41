import Mathlib.Data.List.Pairwise
import DataBinding.Proofs.Disposal.Accounts
import DataBinding.Proofs.Disposal.Arrivals
/-!
# Runs with one subscription

Commands are run one after the other, and between them client code does things of its own accord
(`World.Runs`). At some point a subscription is made for a code and kept in a handle (`World.Takes`).
Along all this the heap only goes forward (`Forward`), so that each number of a switch or a gate is given
once, and a trace tells which of them lead to the code (`Scope.ofTrace`).

What steps keep, runs keep: `World.Runs.sound`, `World.Runs.accounted`.
-/

namespace DataBinding

variable {F C S : Type} {K : Client F C S} {code : C}

/-! ## Runs -/

/-- Others run commands, each to its end, through these states; between them client code edits the heap. -/
inductive World.Runs (K : Client F C S) (code : C) :
    World F C S → List (State F C S) → World F C S → Prop
  | nil {w} : Runs K code w [] w
  | edit {w h k l w'} : Heap.Edits code w.heap h → Runs K code ⟨h, k⟩ l w' → Runs K code w l w'
  | command {w c l e l' w'} : c.Outside code → State.Ends K [] (w.start c) l e →
      Runs K code e.world l' w' → Runs K code w (l ++ l') w'

/-- A subscription is made that delivers to the code, and is kept in a handle: to a stream, through these
states, or directly to the changes of a property. -/
inductive World.Takes (K : Client F C S) (code : C) :
    World F C S → List (State F C S) → World F C S → Nat → Prop
  | stream {w x l t w'} :
      State.Ends K [] (w.start (.subscribe x (.client code))) l ⟨.pass (.subscription t), [], w'⟩ →
      Takes K code w l (w'.withHeap (w'.heap.newHandle t).2) w'.heap.handles.size
  | handler {w : World F C S} {o t p} : o < w.heap.objects.size →
      Takes K code w [] (w.withHeap ((w.heap.addHandler o t p false (.client code)).2.newHandle
        (.handler o (w.heap.nextHandler o))).2) w.heap.handles.size

/-- Nothing has been subscribed to yet. -/
structure Heap.Fresh (h : Heap F C) : Prop where
  rosters : ∀ n, h.roster n = []
  tasks : ∀ s ts, h.tasks? s = some ts → ts = []
  switches : h.switches = #[]
  gates : h.gates = #[]

/-! ## What a trace tells -/

namespace State

variable (s : State F C S)

/-- The switch or gate that is about to be made, and the observer it is made for. -/
def made? : Option (Part × Observer F C) :=
  match s.control with
  | .run (.subscribe (.switch ..) y) => some (.switch s.world.heap.switches.size, y)
  | .run (.subscribe (.relocate ..) y) => some (.gate s.world.heap.gates.size, y)
  | _ => none

/-- What is watched or undone exists. -/
def grounded : Bool :=
  match s.control with
  | .run (.subscribe (.watch o ..) _) => o < s.world.heap.objects.size
  | .run (.subscribe (.subject i) _) => i < s.world.heap.subjects.size
  | .run (.undo (.switch i _)) => i < s.world.heap.switches.size
  | _ => true

/-- The switch or gate that is about to slip: a switch is stopped while it subscribes to its latest inner
stream, or a panic leaves behind what is being subscribed to or undone. -/
def slips? : Option Part :=
  match s.control, s.frames with
  | .run (.undo (.switch i _)), fs =>
    if fs.any fun f => match f with
      | .entering j g _ => j == i && g == (s.world.heap.switch i).generation
      | _ => false
    then some (.switch i) else none
  | .panic _, .relocating g :: _ => some (.gate g)
  | .panic _, .opening i :: _ | .panic _, .closing i :: _ => some (.switch i)
  | _, _ => none

end State

/-- The heap goes forward through these states. -/
structure Forward (K : Client F C S) (h : Heap F C) (l : List (State F C S)) (h' : Heap F C) : Prop where
  start : ∀ s ∈ l, Heap.Later .any h s.world.heap
  upto : ∀ s ∈ l, Heap.Later .any (s.step K).world.heap h'
  all : Heap.Later .any h h'
  pairwise : l.Pairwise fun s s' => Heap.Later .any (s.step K).world.heap s'.world.heap

namespace Forward
variable {h h' h'' : Heap F C} {l l' : List (State F C S)} {s : State F C S}

theorem nil (hl : Heap.Later .any h h') : Forward K h [] h' := ⟨nofun, nofun, hl, .nil⟩

theorem append (a : Forward K h l h') (b : Forward K h' l' h'') : Forward K h (l ++ l') h'' where
  start s hs := (List.mem_append.1 hs).elim (a.start s) fun hs => a.all.trans (b.start s hs)
  upto s hs := (List.mem_append.1 hs).elim (fun hs => (a.upto s hs).trans b.all) (b.upto s)
  all := a.all.trans b.all
  pairwise := List.pairwise_append.2
    ⟨a.pairwise, b.pairwise, fun s hs s' hs' => (a.upto s hs).trans (b.start s' hs')⟩

theorem later_step (hK : K.Reserves code) (s : State F C S) :
    Heap.Later .any s.world.heap (s.step K).world.heap :=
  (State.later_step (hK.minds s)).mono (fun _ _ => trivial) (fun _ _ => trivial) fun _ _ => trivial

theorem ends (hK : K.Reserves code) {base : List (Frame F C)} {e : State F C S}
    (he : State.Ends K base s l e) : Forward K s.world.heap l e.world.heap := by
  induction he with
  | answer => exact nil (.refl _ _)
  | @step s l e _ _ ih =>
    have hs := later_step hK s
    refine ⟨fun x hx => ?_, fun x hx => ?_, hs.trans ih.all, List.pairwise_cons.2 ⟨ih.start, ih.pairwise⟩⟩
    · rcases List.mem_cons.1 hx with rfl | hx
      · exact .refl _ _
      · exact hs.trans (ih.start x hx)
    · rcases List.mem_cons.1 hx with rfl | hx
      · exact ih.all
      · exact ih.upto x hx

theorem edits (he : Heap.Edits code h h') : Heap.Later .any h h' :=
  he.later.mono (fun _ _ => trivial) (fun _ _ => trivial) fun _ _ => trivial

theorem runs (hK : K.Reserves code) {w w' : World F C S} (hr : w.Runs K code l w') :
    Forward K w.heap l w'.heap := by
  induction hr with
  | nil => exact nil (.refl _ _)
  | edit he _ ih => exact append (nil (edits he)) ih
  | command _ he _ ih => exact (ends hK he).append ih

theorem takes (hK : K.Reserves code) {w w' : World F C S} {n : Nat} (ht : w.Takes K code l w' n) :
    Forward K w.heap l w'.heap := by
  cases ht with
  | @stream x l t w' he =>
    have hl := (ends hK he).append (nil (.of_alike (w'.heap.alike_newHandle t)))
    rwa [List.append_nil] at hl
  | handler ho =>
    exact nil ((Heap.Later.addHandler _ _ _ _ _ trivial).trans (.of_alike (Heap.alike_newHandle ..)))

end Forward

/-! ### Numbers are given once -/

/-- The switch or gate exists. -/
def Heap.Has (h : Heap F C) : Part → Prop
  | .switch i => i < h.switches.size
  | .gate g => g < h.gates.size
  | _ => True

theorem Heap.Later.has {N : Heap.Arrivals F C} {h h' : Heap F C} (hl : Heap.Later N h h') {p : Part}
    (hp : h.Has p) : h'.Has p := by
  cases p with
  | switch i => exact Nat.lt_of_lt_of_le hp hl.switches
  | gate g => exact Nat.lt_of_lt_of_le hp hl.gates
  | _ => trivial

theorem State.has_of_made {s : State F C S} {p : Part} {y : Observer F C} (hs : s.made? = some (p, y)) :
    ¬ s.world.heap.Has p ∧ (s.step K).world.heap.Has p := by
  obtain ⟨c, fs, w⟩ := s
  simp only [made?] at hs
  split at hs
  · cases hs
    simp [Heap.Has, step, stepCommand, stepSubscribe, under, World.withHeap, Heap.newSwitch]
  · cases hs
    simp [Heap.Has, step, stepCommand, stepSubscribe, under, World.withHeap, Heap.newGate]
  · cases hs

theorem Forward.eq_of_made {h h' : Heap F C} {l : List (State F C S)} (f : Forward K h l h')
    {s s' : State F C S} (hs : s ∈ l) (hs' : s' ∈ l) {p : Part} {y y' : Observer F C}
    (hm : s.made? = some (p, y)) (hm' : s'.made? = some (p, y')) : y = y' := by
  let R (a b : State F C S) : Prop := ∀ p y y', a.made? = some (p, y) → b.made? = some (p, y') → y = y'
  have hsymm : Std.Symm R := ⟨fun a b hab p y y' hb ha => (hab p y' y ha hb).symm⟩
  have hself : ∀ a ∈ l, R a a := fun a _ p y y' ha ha' => by
    cases ha.symm.trans ha'
    rfl
  have hpair : l.Pairwise R := f.pairwise.imp fun hab p y y' ha hb =>
    absurd (hab.has (State.has_of_made ha).2) (State.has_of_made (K := K) hb).1
  exact hpair.forall_of_forall hself hs hs' p y y' hm hm'

namespace Scope

/-- The scope of a code in a trace: the switches and gates made in it for observers that lead to the code. -/
def ofTrace (code : C) (deep : Prop) (l : List (State F C S)) : Scope C where
  code := code
  deep := deep
  switch i := ∃ s ∈ l, ∃ y, s.made? = some (.switch i, y) ∧
    (⟨code, deep, fun _ => False, fun _ => False⟩ : Scope C).Covers y
  gate g := ∃ s ∈ l, ∃ y, s.made? = some (.gate g, y) ∧
    (⟨code, deep, fun _ => False, fun _ => False⟩ : Scope C).Covers y

variable {deep : Prop} {h h' : Heap F C} {l : List (State F C S)} {s : State F C S}

/-- Which observers lead to the code does not depend on the switches and gates that do. -/
theorem covers_ofTrace {y : Observer F C} : (ofTrace code deep l).Covers y ↔
    (⟨code, deep, fun _ => False, fun _ => False⟩ : Scope C).Covers y := by
  induction y with
  | client | write => exact Iff.rfl
  | map _ _ ih | filter _ _ ih | skip _ _ ih | distinct _ _ ih | slot _ _ _ ih => exact ih
  | outer _ _ _ ih | inner _ _ _ ih | relocate _ _ _ ih => exact and_congr Iff.rfl ih

theorem regular_ofTrace (f : Forward K h l h') (hs : s ∈ l) (hg : s.grounded = true)
    (hstop : ∀ i, s.slips? = some (.switch i) → deep → ¬ (ofTrace code deep l).switch i) :
    (ofTrace code deep l).Regular s := by
  have hmade : ∀ p y, s.made? = some (p, y) →
      ((∃ s' ∈ l, ∃ z, s'.made? = some (p, z) ∧
        (⟨code, deep, fun _ => False, fun _ => False⟩ : Scope C).Covers z) ↔
        (ofTrace code deep l).Covers y) := by
    intro p y hm
    rw [covers_ofTrace]
    refine ⟨fun ⟨s', hs', z, hz, hc⟩ => ?_, fun hc => ⟨s, hs, y, hm, hc⟩⟩
    exact f.eq_of_made hs' hs hz hm ▸ hc
  refine ⟨fun x select y hc => ?_, fun x scheduler y hc => ?_, fun o p t y hc => ?_, fun i y hc => ?_,
    fun i source hc => ?_, fun i source g x hc hm he hd => ?_⟩
  · exact hmade (.switch _) y (by simp [State.made?, hc])
  · exact hmade (.gate _) y (by simp [State.made?, hc])
  · simpa [State.grounded, hc] using hg
  · simpa [State.grounded, hc] using hg
  · simpa [State.grounded, hc] using hg
  · refine hstop i ?_ hd
    simp only [State.slips?, hc]
    rw [if_pos]
    exact List.any_eq_true.2 ⟨_, hm, by simp [he]⟩

/-! ## What runs keep -/

variable {q : Scope C} {hd : Option Nat} {top : Prop} {w w' : World F C S} {n : Nat}

theorem Turns.nil : q.Turns h ([] : List (Frame F C)) := ⟨.nil, nofun, nofun, nofun⟩

theorem SoundHeap.ground (hs : q.SoundHeap hd h) (top : Prop) : q.Ground hd top h [] :=
  ⟨hs, trivial, .nil⟩

theorem Sound.ends (hK : K.Reserves q.code) (hr : ∀ x ∈ l, q.Regular x) (hs : q.Sound hd top s)
    {base : List (Frame F C)} {e : State F C S} (he : State.Ends K base s l e) :
    q.Sound hd top e ∧ ∀ x ∈ l, q.Sound hd top x := by
  induction he with
  | answer => exact ⟨hs, nofun⟩
  | step _ _ ih =>
    obtain ⟨hx, hr⟩ := List.forall_mem_cons.1 hr
    obtain ⟨he, hl⟩ := ih hr (hs.step hK hx)
    exact ⟨he, List.forall_mem_cons.2 ⟨hs, hl⟩⟩

theorem Accounts.ends (hK : K.Reserves q.code) (hr : ∀ x ∈ l, q.Regular x)
    (hc : ∀ x ∈ l, q.Careful hd x) (hs : q.Sound hd top s) (ha : q.Accounts hd s)
    {base : List (Frame F C)} {e : State F C S} (he : State.Ends K base s l e) : q.Accounts hd e := by
  induction he with
  | answer => exact ha
  | step _ _ ih =>
    obtain ⟨hx, hr⟩ := List.forall_mem_cons.1 hr
    obtain ⟨hcx, hc⟩ := List.forall_mem_cons.1 hc
    exact ih hr hc (hs.step hK hx) (ha.step hK hx hcx hs)

theorem Sound.start (hs : q.SoundHeap hd w.heap) {c : Command F C} (hc : c.Outside q.code) :
    q.Sound hd False (w.start c) :=
  ⟨hs.ground False, soundControl_of_outside hc id⟩

theorem Accounts.start (ha : q.Accounted w.heap (w.heap.kept hd).parts) (c : Command F C) :
    q.Accounts hd (w.start c) := ha.mono fun _ hp => List.mem_append_right _ hp

/-- When a command has come to its end, the handle owns all that is live, but for the answer. -/
theorem Accounts.rest {e : State F C S} (hs : q.Sound hd False e) (ha : q.Accounts hd e)
    (hc : e.control.IsAnswer) (hf : e.frames = []) :
    q.Accounted e.world.heap (e.world.heap.kept hd).parts := by
  obtain ⟨c, fs, w⟩ := e
  cases hf
  cases c with
  | pass signal => exact Accounted.drop ha hs.ground.heap.keeps hs.control id
  | panic => exact ha
  | _ => exact hc.elim

theorem sound_runs (hK : K.Reserves q.code) (hr : ∀ x ∈ l, q.Regular x)
    (hs : q.SoundHeap hd w.heap) (hw : w.Runs K q.code l w') :
    q.SoundHeap hd w'.heap ∧ ∀ x ∈ l, q.Sound hd False x := by
  induction hw with
  | nil => exact ⟨hs, nofun⟩
  | edit he _ ih => exact ih hr ((hs.ground False).edits he).heap
  | command hc he _ ih =>
    obtain ⟨hr, hr'⟩ := List.forall_mem_append.1 hr
    obtain ⟨hend, hl⟩ := Sound.ends hK hr (.start hs hc) he
    obtain ⟨hs', hl'⟩ := ih hr' hend.ground.heap
    exact ⟨hs', List.forall_mem_append.2 ⟨hl, hl'⟩⟩

theorem accounted_runs (hK : K.Reserves q.code) (hr : ∀ x ∈ l, q.Regular x)
    (hc : ∀ x ∈ l, q.Careful hd x) (hs : q.SoundHeap hd w.heap)
    (ha : q.Accounted w.heap (w.heap.kept hd).parts) (hw : w.Runs K q.code l w') :
    q.Accounted w'.heap (w'.heap.kept hd).parts := by
  induction hw with
  | nil => exact ha
  | @edit w h k l w' he _ ih =>
    have hg := (hs.ground False).edits he
    have ha' := Accounts.edits (s := ⟨.panic "", [], w⟩) ha he hs
    exact ih hr hc hg.heap ha'
  | command ho he _ ih =>
    obtain ⟨hr, hr'⟩ := List.forall_mem_append.1 hr
    obtain ⟨hc, hc'⟩ := List.forall_mem_append.1 hc
    have hstart := Sound.start hs ho
    have hend := (hstart.ends hK hr he).1
    have haend := (Accounts.start ha _).ends hK hr hc hstart he
    exact ih hr' hc' hend.ground.heap (haend.rest hend he.answered.1 he.answered.2)

/-! ## The subscription -/

theorem sound_fresh (hf : h.Fresh) : q.SoundHeap none h where
  entries n e he := by simp [hf.rosters n] at he
  tasks i ts hts t ht := by simp [hf.tasks i ts hts] at ht
  keeps i c hc := absurd (h.lt_size_of_current hc) (by simp [hf.switches])
  handle := made_nothing
  stored := nofun

theorem accounted_fresh (hf : h.Fresh) (ps : List Part) : q.Accounted h ps := by
  intro p hp
  cases p with
  | entry m id =>
    obtain ⟨y, hy, -⟩ := hp
    simp [hf.rosters m] at hy
  | switch i => exact absurd (h.lt_size_of_not_stopped hp.2) (by simp [hf.switches])
  | gate g => simp [Live, Heap.gateOpen, hf.gates] at hp
  | other => exact hp.elim

/-- A subscription of the scope is put into a handle. -/
theorem SoundHeap.store {t : Teardown C} (hs : q.SoundHeap none h) (ht : q.Made h True 0 t) :
    q.SoundHeap (some h.handles.size) (h.newHandle t).2 := by
  have hl : Heap.Later .any h (h.newHandle t).2 := .of_alike (h.alike_newHandle t)
  have hk : (h.newHandle t).2.kept (some h.handles.size) = t := by
    simp [Heap.kept, Heap.teardown, Heap.newHandle]
  refine ⟨fun n e he => ⟨(hs.entries n e he).1, (hs.entries n e he).2.later hl⟩,
    fun s ts hts u hu => (hs.tasks s ts hts u hu).later hl, hs.keeps.later hl fun _ _ => id, ?_,
    fun n hn => ?_⟩
  · rw [hk]
    exact ht.later hl
  · cases hn
    simp [Heap.newHandle]

theorem Accounted.store {t : Teardown C} (ha : q.Accounted h t.parts) :
    q.Accounted (h.newHandle t).2 ((h.newHandle t).2.kept (some h.handles.size)).parts := by
  have hk : (h.newHandle t).2.kept (some h.handles.size) = t := by
    simp [Heap.kept, Heap.teardown, Heap.newHandle]
  rw [hk]
  exact ha.alike (h.alike_newHandle t)

/-- Making the subscription keeps the heap sound; what it leaves live is owned by the new handle, if no
panic loses any of it. -/
theorem sound_takes (hK : K.Reserves q.code) (hr : ∀ x ∈ l, q.Regular x) (hs : q.SoundHeap none w.heap)
    (ht : w.Takes K q.code l w' n) :
    q.SoundHeap (some n) w'.heap ∧
      ((∀ x ∈ l, q.Careful none x) → q.Accounted w.heap [] →
        q.Accounted w'.heap (w'.heap.kept (some n)).parts) := by
  cases ht with
  | @stream x l t w' he =>
    have hstart : q.Sound none True (w.start (.subscribe x (.client q.code))) :=
      ⟨hs.ground True, trivial, iff_of_true rfl trivial⟩
    have hend := (hstart.ends hK hr he).1
    refine ⟨hend.ground.heap.store hend.control, fun hc ha => .store ?_⟩
    have ha : q.Accounts none (w.start (.subscribe x (.client q.code))) := ha
    refine (ha.ends hK hr hc hstart he).mono fun p hp => ?_
    rcases List.mem_append.1 hp with hp | hp
    · exact hp
    · simp [Heap.holdings, Heap.kept] at hp
  | @handler o t p ho =>
    have a := w.heap.enrolls_addHandler ho t p false (.client q.code : Observer F C)
    have g : q.Ground none False (w.heap.addHandler o t p false (.client q.code)).2 [] :=
      (hs.ground False).enrolls a trivial rfl rfl
    refine ⟨g.heap.store (made_handler (typed_of_enrolls hs a (iff_of_true rfl trivial))),
      fun _ ha => .store ?_⟩
    rw [Teardown.parts_handler]
    exact ha.enrolls a

end Scope

end DataBinding
