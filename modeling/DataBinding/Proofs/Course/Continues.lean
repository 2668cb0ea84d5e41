import DataBinding.Proofs.Course.Passage
import DataBinding.Proofs.Disposal.Runs
/-!
# However it goes on

From any state the machine goes on step by step, and when it is done client code edits the heap and gives the next
command (`State.Continues`). A run may start in the midst of other things and stop anywhere.

What is put out along a run is what a transducer makes of what is put in, if each step is one of its steps or none
(`State.Continues.transduces`). In a passage nothing happens at the steps at which no given observer has its turn
(`State.Clear.quiet`).
-/

namespace DataBinding

variable {F C S : Type} {K : Client F C S} {code : C}

/-- The machine goes through these states and is then in this one; nobody else subscribes this code. -/
inductive State.Continues (K : Client F C S) (code : C) : State F C S → List (State F C S) → State F C S → Prop
  | here {s} : Continues K code s [] s
  | step {s l e} : s.finished = false → s.Minds K code → Continues K code (s.step K) l e →
      Continues K code s (s :: l) e
  | next {s h k c l e} : s.finished = true → Heap.Edits code s.world.heap h → c.Outside code →
      Continues K code (World.start ⟨h, k⟩ c) l e → Continues K code s l e

/-- Reads inputs one after the other, and puts out something or nothing for each. -/
structure Transducer (A I O : Type) where
  next : A → I → A
  emit : A → I → Option O

/-- What is put out for a list of inputs. -/
def Transducer.run {A I O : Type} (t : Transducer A I O) : A → List I → List O
  | _, [] => []
  | a, i :: rest => (t.emit a i).toList ++ t.run (t.next a i) rest

/-- Puts out what a function makes of each input. -/
def Transducer.mapping {I O : Type} (f : I → O) : Transducer Unit I O where
  next _ _ := ()
  emit _ i := some (f i)

theorem Transducer.run_mapping {I O : Type} (f : I → O) (l : List I) : (mapping f).run () l = l.map f := by
  induction l with
  | nil => rfl
  | cons i l ih => simp [run, mapping, ← ih]

namespace State

/-- A call that comes to an end. -/
theorem Ends.continues {base : List (Frame F C)} {s e : State F C S} {l : List (State F C S)} (h : Ends K base s l e)
    (hb : base <:+ s.frames) (hm : ∀ x ∈ l, x.Minds K code) : s.Continues K code l e := by
  induction h with
  | answer => exact .here
  | @step s l e hn _ ih =>
    obtain ⟨hms, hml⟩ := List.forall_mem_cons.1 hm
    refine .step ?_ hms (ih (suffix_step K s hb hn) hml)
    rw [Bool.eq_false_iff]
    intro hf
    obtain ⟨ha, hnil⟩ := (finished_iff s).1 hf
    have hbase : base = [] := List.suffix_nil.1 (hnil ▸ hb)
    exact hn ha (hnil.trans hbase.symm)

namespace Continues

variable {s s' e : State F C S} {l l' : List (State F C S)}

theorem trans (h : s.Continues K code l s') (h' : s'.Continues K code l' e) :
    s.Continues K code (l ++ l') e := by
  induction h with
  | here => exact h'
  | step hs hm _ ih => exact .step hs hm (ih h')
  | next hs he hc _ ih => exact .next hs he hc (ih h')

/-- A run from a command begins with it. -/
theorem of_run {c : Command F C} (hs : s.control = .run c) (h : s.Continues K code l e) :
    l = [] ∧ e = s ∨ ∃ l', l = s :: l' ∧ (s.step K).Continues K code l' e := by
  cases h with
  | here => exact .inl ⟨rfl, rfl⟩
  | step _ _ h => exact .inr ⟨_, rfl, h⟩
  | next hf =>
    have ha := ((State.finished_iff s).1 hf).1
    rw [hs] at ha
    exact ha.elim

/-- What every step keeps, and every new command. -/
theorem keeps {P : State F C S → Prop} (hstep : ∀ s, s.Minds K code → P s → P (s.step K))
    (hnext : ∀ s h k c, s.finished = true → Heap.Edits code s.world.heap h → c.Outside code → P s →
      P (World.start ⟨h, k⟩ c))
    (h : s.Continues K code l e) (hs : P s) : (∀ x ∈ l, P x) ∧ P e := by
  induction h with
  | here => exact ⟨nofun, hs⟩
  | step _ hm _ ih => exact ⟨List.forall_mem_cons.2 ⟨hs, (ih (hstep _ hm hs)).1⟩, (ih (hstep _ hm hs)).2⟩
  | next hf he hc _ ih => exact ih (hnext _ _ _ _ hf he hc hs)

/-- A run is a run of a transducer if each step is one of its steps, or puts in and out nothing. -/
theorem transduces {A I O : Type} (t : Transducer A I O) (σ : Heap F C → A) (inp : State F C S → Option I)
    (out : State F C S → Option O) {Ok P : State F C S → Prop}
    (hstep : ∀ s, s.Minds K code → Ok s → P s → P (s.step K) ∧
      out (s.step K) = (inp s).bind (t.emit (σ s.world.heap)) ∧
      σ (s.step K).world.heap = (inp s).elim (σ s.world.heap) (t.next (σ s.world.heap)))
    (hnext : ∀ s h k c, s.finished = true → Heap.Edits code s.world.heap h → c.Outside code → P s →
      out s = none ∧ P (World.start ⟨h, k⟩ c) ∧ out (World.start ⟨h, k⟩ c) = none ∧ σ h = σ s.world.heap)
    (h : s.Continues K code l e) (hok : ∀ x ∈ l, Ok x) (hs : P s) :
    (l ++ [e]).filterMap out = (out s).toList ++ t.run (σ s.world.heap) (l.filterMap inp) := by
  induction h with
  | @here s => cases ho : out s <;> simp [ho, Transducer.run]
  | @step s l e _ hm _ ih =>
    obtain ⟨hoks, hokl⟩ := List.forall_mem_cons.1 hok
    obtain ⟨hp, hout, hσ⟩ := hstep s hm hoks hs
    have hrest := ih hokl hp
    have hlog : (s :: l ++ [e]).filterMap out = (out s).toList ++ (l ++ [e]).filterMap out := by
      cases ho : out s <;> simp [ho]
    rw [hlog, hrest, hout, hσ]
    cases hi : inp s <;> simp [hi, Transducer.run]
  | @next s h k c l e hf he hc _ ih =>
    obtain ⟨ho, hp, hout, hσ⟩ := hnext s h k c hf he hc hs
    rw [ih hok hp, hout, ho]
    simp [World.start, hσ]

end Continues

end State

/-- Commands one after the other, whatever each of them comes to. -/
theorem World.Undergoes.continues (hK : K.Reserves code) {w : World F C S} {c : Command F C}
    {commands : List (Command F C)} (hc : ∀ c ∈ commands, c.Outside code) {l es : List (State F C S)}
    (h : w.Undergoes K (c :: commands) l es) :
    (w.start c).Continues K code l (es.getLastD (w.start c)) := by
  induction commands generalizing w c l es with
  | nil =>
    cases h with
    | cons he hrest =>
      cases hrest
      rw [List.append_nil]
      exact he.continues (List.suffix_refl _) fun x _ => hK.minds x
  | cons d rest ih =>
    cases h with
    | @cons _ _ l e _ l' es he hrest =>
      obtain ⟨hd, hcs⟩ := List.forall_mem_cons.1 hc
      have hgo := ih hcs hrest
      have hlast : (e :: es).getLastD (w.start c) = es.getLastD (e.world.start d) := by
        cases hrest
        rfl
      rw [hlast]
      refine (he.continues (List.suffix_refl _) fun x _ => hK.minds x).trans (.next ?_ .refl hd hgo)
      exact (State.finished_iff e).2 ⟨he.answered.1, he.answered.2⟩

/-! ## Passages -/

variable {q : Passage F C}

/-- Client code edits the heap. -/
theorem Heap.Clear.edits {h h' : Heap F C} {there : Spot → Prop} (hl : ∀ c, c ≠ code → q.leaf c)
    (he : Heap.Edits code h h') (hh : h.Clear q there) : h'.Clear q there where
  entries n e hm := by
    rcases he.later.entries n e hm with hm | ⟨-, hy⟩
    · exact hh.entries n e hm
    · exact Observer.clear_of_foreign hl hy
  tasks i l hi t ht := by
    have hu : Heap.Uses none h h' := .edits he
    by_cases hq : h.There (.queue i)
    · have hs : h'.tasks? i = h.tasks? i := hu.same _ hq nofun
      exact hh.tasks i l (hs ▸ hi) t ht
    · rw [hu.fresh i l hq hi] at ht
      cases ht

theorem State.Clear.imp {s : State F C S} {P P' : Observer F C → Prop} (hP : ∀ z, P z → P' z) (hs : s.Clear q P) :
    s.Clear q P' := ⟨hs.going.imp hP, hs.heap⟩

theorem State.Clear.start {s : State F C S} {P P' : Observer F C → Prop} {h : Heap F C} (k : S) {c : Command F C}
    (hl : ∀ c, c ≠ code → q.leaf c) (he : Heap.Edits code s.world.heap h) (hc : c.Outside code)
    (hs : s.Clear q P) : (World.start (⟨h, k⟩ : World F C S) c).Clear q P' :=
  have hu : Heap.Uses none s.world.heap h := .edits he
  ⟨⟨Command.clear_of_outside hl hc, nofun⟩, (hs.heap.edits hl he).eased (Passage.eases_of_le hu.there)⟩

/-- All along a run, what is clear of a passage still is. -/
theorem State.Clear.along {s e : State F C S} {l : List (State F C S)} (hq : q.Sound s.world.heap.There code)
    (hs : s.Clear q q.inside) (h : s.Continues K code l e) : ∀ x ∈ l ++ [e], x.Clear q q.inside := by
  have hall := h.keeps (P := fun s => q.Sound s.world.heap.There code ∧ s.Clear q q.inside) ?_ ?_ ⟨hq, hs⟩
  · exact List.forall_mem_append.2 ⟨fun x hx => (hall.1 x hx).2, List.forall_mem_singleton.2 hall.2.2⟩
  · rintro s hm ⟨hq, hs⟩
    exact ⟨hq.mono (uses_step hm).there, (hs.step hm hq).imp fun _ => And.left⟩
  · rintro s h k c _ he hc ⟨hq, hs⟩
    have hu : Heap.Uses none s.world.heap h := .edits he
    exact ⟨hq.mono hu.there, hs.start k hq.leaf he hc⟩

/-- Wherever a run is, what is clear of a passage still is. -/
theorem State.Clear.continues {s e : State F C S} {l : List (State F C S)} (hq : q.Sound s.world.heap.There code)
    (hs : s.Clear q q.inside) (h : s.Continues K code l e) : e.Clear q q.inside :=
  hs.along hq h e (List.mem_append_right _ List.mem_cons_self)

/-- The spot is a cell that only delivering to its operator changes. -/
def Spot.IsCell : Spot → Prop
  | .counter _ | .memory _ | .join _ => True
  | .gate _ | .queue _ => False

theorem State.spot?_of_uses? {s : State F C S} {p : Spot} (hp : p.IsCell) (hs : s.uses? = some p) :
    ∃ y v, s.control = .run (.deliver y v) ∧ y.spot? = some p := by
  simp only [uses?] at hs
  split at hs <;> cases hs
  · next hc => exact ⟨_, _, hc, rfl⟩
  · next hc => exact ⟨_, _, hc, rfl⟩
  · next hc => exact ⟨_, _, hc, rfl⟩
  all_goals exact hp.elim

/-- The spot of a clear observer that is not given is not the passage's own. -/
theorem Observer.Clear.own_ne {there : Spot → Prop} {y : Observer F C} (hy : y.Clear q there) (hg : ¬ q.given y)
    {p : Spot} (hp : y.spot? = some p) : q.own ≠ some p := by
  cases y with
  | skip i next | distinct i next | relocate i s next | slot i k next =>
    cases hp
    exact (hy.resolve_left hg).1.2
  | _ => cases hp

/-- Only the given observers, which keep nothing for later, lead on to this one; the passage's own spot is a cell
of theirs. -/
structure Passage.Narrows (q : Passage F C) (z : Observer F C) : Prop where
  prompt : ∀ y, q.given y → y.Prompt
  hidden : ∀ there, ¬ z.Clear q there
  before : ∀ y, q.inside y → y.next? ≠ some z
  spared : ∀ y p, q.inside y → y.spot? = some p → q.own ≠ some p
  cell : ∀ p, q.own = some p → p.IsCell

/-- Where no given observer has its turn, nothing is delivered to the observer after them, and the passage's own
cell stays as it is. -/
theorem State.Clear.quiet {s : State F C S} {z : Observer F C} (hm : s.Minds K code)
    (hq : q.Sound s.world.heap.There code) (hn : q.Narrows z) (hs : s.Clear q q.inside)
    (hg : ∀ y v, s.control = .run (.deliver y v) → ¬ q.given y) :
    (∀ v, (s.step K).control ≠ .run (.deliver z v)) ∧ ∀ p, q.own = some p → s.world.heap.Same (s.step K).world.heap p := by
  constructor
  · intro v hv
    have hc := (hs.step hm hq).going.control
    rw [hv] at hc
    rcases hc with hc | ⟨-, ⟨y, v', hy, hgi, hz⟩ | ⟨g, i, hr⟩⟩
    · exact hn.hidden _ hc
    · exact hgi.elim (hg y v' hy) fun hi => hn.before y hi hz
    · exact hn.prompt _ hr
  · intro p hp
    refine (State.uses_step hm).same p (hq.own p hp) fun hu => ?_
    obtain ⟨y, v, hy, hspot⟩ := State.spot?_of_uses? (hn.cell p hp) hu.symm
    have hc := hs.going.control
    rw [hy] at hc
    rcases hc with hc | hi
    · exact hc.own_ne (hg y v hy) hspot hp
    · exact hn.spared y p hi hspot hp

end DataBinding
