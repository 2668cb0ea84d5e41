import DataBinding.Proofs.Machine.Sessions
import DataBinding.Proofs.Tagged.Publication
/-!
# Sessions with and without tags

Two worlds, one of which is the other without its tags (`World.Shadow`), undergo the same commands with the same
outcomes (`World.Shadow.undergoes`), and stay such worlds when somebody begins to observe the changes
(`World.Shadow.joined`).
-/

namespace DataBinding

variable {F C S : Type} {K : Client F C S}

/-! ## Sessions -/

/-- These commands come to their ends from both worlds or from neither, and if they do, to ends that agree;
what the second world goes through is as described. -/
structure World.Matches (K : Client F C S) (w : World F C S) (commands : List (Command F C))
    (w' : World F C S) (commands' : List (Command F C)) (Q : List (State F C S) → Prop) : Prop where
  forth : ∀ l es, w.Undergoes K commands l es →
    ∃ l' es', w'.Undergoes K commands' l' es' ∧ List.Forall₂ State.Agrees es es' ∧ Q l'
  back : ∀ l' es', w'.Undergoes K commands' l' es' → ∃ l es, w.Undergoes K commands l es

/-- What is done while a binding is live: a property is set, a queue is drained, or the binding is disposed. -/
inductive Errand where
  | set (s : Assignment)
  | drain (scheduler : SchedulerId)
  | dispose

/-- The binding is disposed by this handle. -/
def Errand.command (handle : Nat) : Errand → Command F C
  | .set s => s.command
  | .drain scheduler => .drain scheduler 0
  | .dispose => .dispose handle

/-! ## Worlds without tags -/

variable {g : Tagging} {Like : S → S → Prop} {codes : List C}

/-- The first world is the second one without its tags, and names no subject that the tags bring. -/
structure World.Shadow (g : Tagging) (Like : S → S → Prop) (codes : List C) (w w' : World F C S) : Prop where
  bare : w'.heap.bare g = w.heap
  client : Like w.client w'.client
  below : w.heap.Within (.below g.subject)
  publishes : w'.heap.Publishes g codes

theorem Shadow.world {s t : State F C S} (h : Shadow K g Like codes s t) :
    World.Shadow g Like codes s.world t.world :=
  ⟨congrArg (fun s => s.world.heap) h.bare, h.client, h.below.rests.heap, h.publishes⟩

theorem Shadow.agrees {s t : State F C S} (h : Shadow K g Like codes s t) (ht : t.control.IsAnswer) :
    State.Agrees s t := by
  refine ⟨?_, fun o p => ?_⟩
  · rw [← h.bare]
    obtain ⟨c, fs, w⟩ := t
    cases c with
    | pass | panic => rfl
    | _ => exact ht.elim
  · rw [← h.world.bare, Heap.get_bare]

namespace World.Shadow

variable {w w' : World F C S} (h : World.Shadow g Like codes w w')
include h

theorem start {c c' : Command F C} (hbare : c'.bare g = c) (hc : c.Within (.below g.subject)) :
    DataBinding.Shadow K g Like codes (w.start c) (w'.start c') := by
  refine ⟨?_, h.client, ⟨hc, List.forall_mem_nil _, h.below⟩, h.publishes⟩
  simp only [State.bare, World.start, h.bare, Control.bare, hbare, List.map_nil]

theorem keeping {t : Teardown C} (ht : t.Within (· < g.subject)) :
    World.Shadow g Like codes (w.keeping t) (w'.keeping t) := by
  refine ⟨?_, h.client, h.below.newHandle ht, h.publishes.of_subjects rfl⟩
  simp only [World.keeping, World.withHeap, ← h.bare]
  rfl

theorem handles : w'.heap.handles = w.heap.handles := by
  rw [← h.bare]
  rfl

omit h in
/-- A session without the tags and one with them come to the same ends. -/
theorem undergoes [DecidableEq C] (hK : K.Blind g Like) (hc : K.Confined (.below g.subject))
    (hl : ∀ c ∈ codes, K.Listens Like c) (hn : codes.Nodup) {commands : List (Command F C)}
    {l es : List (State F C S)} (hu : w.Undergoes K commands l es) :
    (∀ c ∈ commands, c.bare g = c ∧ c.Within (.below g.subject) ∧ c.Within g.reserved) → ∀ w', World.Shadow g Like codes w w' →
      ∃ l' es', w'.Undergoes K commands l' es' ∧ List.Forall₂ State.Agrees es es' ∧
        Faithful g codes (State.handed? g) l' ∧
        (g.Reserves K → w'.heap.Within g.reserved → Faithful g codes (State.written? g) l') := by
  induction hu with
  | nil => exact fun _ w' _ => ⟨[], [], .nil, .nil, .nil, fun _ _ => .nil⟩
  | cons he _ ih =>
    intro hcommands w' h
    obtain ⟨⟨hbare, hbelow, hreserved⟩, hrest⟩ := List.forall_mem_cons.1 hcommands
    obtain ⟨l₁, e', hends, he', hf, hw⟩ := (h.start hbare hbelow).ends hK hc hl hn he
    obtain ⟨l₂, es', hu', hes, hf', hw'⟩ := ih hrest e'.world he'.world
    refine ⟨_, _, .cons hends hu', .cons (he'.agrees hends.isAnswer) hes, hf.append hf', fun hg hheap => ?_⟩
    obtain ⟨hend, hf₁⟩ := hw hg ⟨hreserved, List.forall_mem_nil _, hheap⟩
    exact hf₁.append (hw' hg hend.rests.heap)

omit h in
theorem undergoes_bare [DecidableEq C] (hK : K.Blind g Like) (hc : K.Confined (.below g.subject))
    (hl : ∀ c ∈ codes, K.Listens Like c) (hn : codes.Nodup) {commands : List (Command F C)}
    {l es : List (State F C S)} (hu : w'.Undergoes K commands l es) :
    (∀ c ∈ commands, c.bare g = c ∧ c.Within (.below g.subject) ∧ c.Within g.reserved) → ∀ w, World.Shadow g Like codes w w' →
      ∃ l' es', w.Undergoes K commands l' es' := by
  induction hu with
  | nil => exact fun _ w _ => ⟨[], [], .nil⟩
  | cons he _ ih =>
    intro hcommands w h
    obtain ⟨⟨hbare, hbelow, -⟩, hrest⟩ := List.forall_mem_cons.1 hcommands
    obtain ⟨l₁, e', hends, he'⟩ := Shadow.ends_bare hK hc hl hn he (h.start hbare hbelow)
    obtain ⟨l₂, es', hu'⟩ := ih hrest e'.world he'.world
    exact ⟨_, _, .cons hends hu'⟩

theorem matches_errands [DecidableEq C] (hK : K.Blind g Like) (hc : K.Confined (.below g.subject))
    (hl : ∀ c ∈ codes, K.Listens Like c) (hn : codes.Nodup) (handle : Nat) (errands : List Errand) :
    w.Matches K (errands.map (·.command handle)) w' (errands.map (·.command handle)) fun l =>
      Faithful g codes (State.handed? g) l ∧
        (g.Reserves K → w'.heap.Within g.reserved → Faithful g codes (State.written? g) l) := by
  have hcommands : ∀ c ∈ errands.map (Errand.command (F := F) (C := C) handle),
      c.bare g = c ∧ c.Within (.below g.subject) ∧ c.Within g.reserved := by
    refine List.forall_mem_map.2 fun e _ => ?_
    cases e <;> exact ⟨rfl, trivial, trivial⟩
  exact ⟨fun l es hu => undergoes hK hc hl hn hu hcommands w' h,
    fun l es hu => undergoes_bare hK hc hl hn hu hcommands w h⟩

end World.Shadow

/-! ## Those who begin to observe the changes -/

theorem Heap.bare_addObserver (h : Heap F C) (y : Observer F C) :
    (h.addObserver g.subject y).2.bare g = h.bare g := by
  have hs : ∀ f : Subject F C → Subject F C,
      (h.subjects.modify g.subject f).extract 0 g.subject = h.subjects.extract 0 g.subject := fun f => by
    refine Array.ext_getElem? fun k => ?_
    simp only [Array.getElem?_extract, Array.getElem?_modify, Array.size_modify, Nat.zero_add, Nat.sub_zero]
    split
    · next hk =>
      have hne : g.subject ≠ k := Nat.ne_of_gt (Nat.lt_of_lt_of_le hk (Nat.min_le_left _ _))
      rw [if_neg hne]
    · rfl
  simp only [Heap.addObserver, Heap.bare, hs]

/-- A subscription to a subject registers the observer, or does nothing. -/
theorem World.ends_listen {w : World F C S} {j : SubjectId} {y : Observer F C} {l : List (State F C S)}
    {e : State F C S} (h : State.Ends K [] (w.start (.subscribe (.subject j) y)) l e) :
    e.world = w ∨ e.world = w.withHeap (w.heap.addObserver j y).2 := by
  obtain ⟨l', -, h⟩ := h.next fun hc => hc.elim
  have hstep : (w.start (.subscribe (.subject j) y)).step K =
      stepListen K (w.start (.subscribe (.subject j) y)) j y := rfl
  rw [hstep] at h
  unfold stepListen at h
  split at h
  · have hend := (h.unique (.answer trivial rfl)).2
    subst hend
    exact .inr rfl
  · have hend := (h.unique (.answer trivial rfl)).2
    subst hend
    exact .inl rfl

/-- Those who observe the changes from now on leave the rest alone. -/
structure World.Joins (g : Tagging) (w w' : World F C S) : Prop where
  client : w'.client = w.client
  bare : w'.heap.bare g = w.heap.bare g
  size : w'.heap.subjects.size = w.heap.subjects.size
  within : w.heap.Within g.reserved → w'.heap.Within g.reserved

theorem World.joins_of_traces {w w' : World F C S} {joining : List C} {l : List (State F C S)}
    (h : w.Traces K (joining.map fun c => .subscribe (.subject g.subject) (.client c)) l w') :
    w.Joins g w' := by
  induction joining generalizing w l with
  | nil =>
    cases h
    exact ⟨rfl, rfl, rfl, id⟩
  | cons c rest ih =>
    cases h with
    | cons he hrest =>
      obtain ⟨hclient, hbare, hsize, hwithin⟩ := ih hrest
      have hjoined := World.ends_listen he
      simp only at hjoined
      obtain rfl | rfl := hjoined
      · exact ⟨hclient, hbare, hsize, hwithin⟩
      · exact ⟨hclient, hbare.trans (Heap.bare_addObserver ..), hsize.trans Array.size_modify,
          fun hw => hwithin (hw.addObserver _ trivial)⟩

/-- Those who observe the changes from now on are no part of the world without the tags. -/
theorem World.Shadow.joined {w w' w'' : World F C S} (h : World.Shadow g Like [] w w') (hj : w'.Joins g w'')
    (ho : w''.heap.observers g.subject = codes.map .client) : World.Shadow g Like codes w w'' :=
  ⟨hj.bare.trans h.bare, hj.client ▸ h.client, h.below, hj.size.trans h.publishes.last, ho⟩

end DataBinding
