import DataBinding.Proofs.Course.Continues
/-!
# Subscriptions of one code

Where nobody leads to a code yet (`State.Unheard`), a subscription for it begins: it gives observers upstream that
lead straight to the code (`Observer.Lane`). Whoever leads there from then on does so by way of these
(`Passage.into`, `State.Unheard.into`).

What an observer receives along a run is read off the states (`State.delivery?`), each value together with the
streams that there are at that time.
-/

namespace DataBinding

variable {F C S : Type} {K : Client F C S} {code : C}

deriving instance DecidableEq for Mapping, Selection, Observer

/-! ## What is delivered -/

/-- A value, and the streams that there are when it is delivered. -/
abbrev Delivery (F : Type) := Value × Array (Stream F)

section Deliveries
variable [DecidableEq F] [DecidableEq C]

/-- What the observer is about to be given. -/
def State.delivery? (y : Observer F C) (s : State F C S) : Option (Delivery F) :=
  match s.control with
  | .run (.deliver y' v) => if y' = y then some (v, s.world.heap.streams) else none
  | _ => none

/-- What the observer is given along the way, in this order. -/
def deliveries (y : Observer F C) (l : List (State F C S)) : List (Delivery F) := l.filterMap (State.delivery? y)

theorem State.delivery?_self {s : State F C S} {y : Observer F C} {v : Value} (hs : s.control = .run (.deliver y v)) :
    s.delivery? y = some (v, s.world.heap.streams) := by
  simp only [delivery?, hs, if_true]

theorem State.delivery?_eq_none {s : State F C S} {y : Observer F C}
    (hs : ∀ v, s.control ≠ .run (.deliver y v)) : s.delivery? y = none := by
  unfold delivery?
  split
  · next y' v hc => exact if_neg fun (he : y' = y) => hs v (he ▸ hc)
  · rfl

theorem State.exists_of_delivery? {s : State F C S} {y : Observer F C} {d : Delivery F} (hs : s.delivery? y = some d) :
    s.control = .run (.deliver y d.1) ∧ s.world.heap.streams = d.2 := by
  unfold delivery? at hs
  split at hs
  · next y' v hc =>
    split at hs
    · next he =>
      cases hs
      exact ⟨he ▸ hc, rfl⟩
    · cases hs
  · cases hs

theorem deliveries_append_of_not {l : List (State F C S)} {e : State F C S} {y : Observer F C} (he : ¬ e.Delivers) :
    deliveries y (l ++ [e]) = deliveries y l := by
  have hn : e.delivery? y = none := State.delivery?_eq_none fun v hc => he ⟨y, v, hc⟩
  simp [deliveries, hn]

/-- The value that the observer is about to be given. -/
def State.value? (y : Observer F C) (s : State F C S) : Option Value := (s.delivery? y).map Prod.fst

/-- The values that the observer is given along the way. -/
def values (y : Observer F C) (l : List (State F C S)) : List Value := l.filterMap (State.value? y)

theorem State.value?_self {s : State F C S} {y : Observer F C} {v : Value} (hs : s.control = .run (.deliver y v)) :
    s.value? y = some v := by
  rw [value?, delivery?_self hs]
  rfl

theorem State.value?_eq_none {s : State F C S} {y : Observer F C} (hs : ∀ v, s.control ≠ .run (.deliver y v)) :
    s.value? y = none := by
  rw [value?, delivery?_eq_none hs]
  rfl

theorem values_append {l l' : List (State F C S)} {y : Observer F C} :
    values y (l ++ l') = values y l ++ values y l' := List.filterMap_append

end Deliveries

/-! ## Observers that lead straight to the code -/

namespace Observer

/-- The observer leads to the code, its operators pass values on at once or not at all, and their spots are there. -/
def Lane (code : C) (there : Spot → Prop) : Observer F C → Prop
  | .client c => c = code
  | .map f next => (∀ i side, f ≠ .publish i side) ∧ next.Lane code there
  | .filter _ next | .inner _ _ next => next.Lane code there
  | .skip i next => there (.counter i) ∧ next.Lane code there
  | .distinct i next => there (.memory i) ∧ next.Lane code there
  | .slot i _ next => there (.join i) ∧ next.Lane code there
  | .write .. | .outer .. | .relocate .. => False

/-- How many operators there are before the end. -/
def length : Observer F C → Nat
  | .client _ | .write .. => 0
  | .map _ next | .filter _ next | .skip _ next | .distinct _ next | .outer _ _ next | .inner _ _ next
  | .relocate _ _ next | .slot _ _ next => next.length + 1

/-- What the observer `z` leads on to, itself included. -/
inductive Tail (z : Observer F C) : Observer F C → Prop
  | refl : Tail z z
  | next {y y'} : Tail z y → y.next? = some y' → Tail z y'

variable {there there' : Spot → Prop} {y y' z : Observer F C} {p : Spot}

theorem length_of_next? (h : y.next? = some y') : y.length = y'.length + 1 := by
  cases y <;> cases h <;> rfl

theorem Tail.length_le (h : z.Tail y) : y.length ≤ z.length := by
  induction h with
  | refl => exact Nat.le_refl _
  | next _ hn ih =>
    have := length_of_next? hn
    omega

namespace Lane

theorem mono (hle : ∀ p, there p → there' p) (h : y.Lane code there) : y.Lane code there' := by
  induction y with
  | client => exact h
  | map f next ih => exact h.imp_right ih
  | filter f next ih | inner i g next ih => exact ih h
  | skip i next ih | distinct i next ih | slot i k next ih => exact h.imp (hle _) ih
  | write | outer | relocate => exact h.elim

theorem next (h : y.Lane code there) (hn : y.next? = some y') : y'.Lane code there := by
  cases y with
  | client | write => cases hn
  | filter f next | inner i g next =>
    cases hn
    exact h
  | map f next | skip i next | distinct i next | slot i k next =>
    cases hn
    exact h.2
  | outer | relocate => exact h.elim

theorem prompt (h : y.Lane code there) : y.Prompt := by
  cases y with
  | map f next =>
    cases f with
    | publish i side => exact absurd rfl (h.1 i side)
    | _ => trivial
  | outer | relocate => exact h.elim
  | _ => trivial

theorem spot (h : y.Lane code there) (hp : y.spot? = some p) : there p := by
  cases y with
  | skip i next | distinct i next | slot i k next =>
    cases hp
    exact h.1
  | relocate => exact h.elim
  | _ => cases hp

theorem tail (h : z.Lane code there) (ht : z.Tail y) : y.Lane code there := by
  induction ht with
  | refl => exact h
  | next _ hn ih => exact ih.next hn

end Lane

end Observer

/-! ## The passage of a subscription -/

/-- Where nobody has subscribed to anything yet, all is clear. -/
theorem Heap.Fresh.empty_clear {q : Passage F C} {there : Spot → Prop} {h : Heap F C} (hh : h.Fresh) :
    h.Clear q there where
  entries n e he := by
    rw [hh.rosters n] at he
    cases he
  tasks i l hi t ht := by
    rw [hh.tasks i l hi] at ht
    cases ht

theorem Heap.Fresh.clear {q : Passage F C} {P : Observer F C → Prop} {w : World F C S} {c : Command F C}
    (hl : ∀ c, c ≠ code → q.leaf c) (hw : w.heap.Fresh) (hc : c.Outside code) : (w.start c).Clear q P :=
  ⟨⟨Command.clear_of_outside hl hc, nofun⟩, hw.empty_clear⟩

/-- The passage that leads to an observer of the code, by way of these. -/
def Passage.into (code : C) (z : Observer F C) (given : Observer F C → Prop) (own : Option Spot)
    (enters : Stream F → Observer F C → Prop) : Passage F C where
  leaf c := c ≠ code
  given := given
  inside := z.Tail
  own := own
  enters := enters

/-- Nobody leads to the code. -/
def Passage.vacant (code : C) : Passage F C where
  leaf c := c ≠ code
  given _ := False
  inside _ := False
  own := none
  enters _ _ := False

theorem Passage.sound_vacant (there : Spot → Prop) : (Passage.vacant code : Passage F C).Sound there code :=
  ⟨fun _ => id, nofun, nofun, nofun, nofun, nofun, nofun⟩

/-- Nobody leads to the code, of what is under way and what is registered. -/
structure State.Unheard (code : C) (s : State F C S) : Prop where
  frames : ∀ f ∈ s.frames, f.Clear (.vacant code) s.world.heap.There
  heap : s.world.heap.Clear (.vacant code) s.world.heap.There

theorem Passage.narrows_into {z : Observer F C} {given : Observer F C → Prop} {own : Option Spot}
    {enters : Stream F → Observer F C → Prop} {there : Spot → Prop} (hz : z.Lane code there)
    (hg : ∀ y, given y → y.Prompt ∧ y.next? = some z) (ho : ∀ p, own = some p → p.IsCell ∧ ¬ there p) :
    (Passage.into code z given own enters).Narrows z where
  prompt y hy := (hg y hy).1
  hidden there' := by
    -- no tail of the observer is given, and the code at its end is not one that others lead to
    have hnot : ∀ y, z.Tail y → ¬ given y := by
      intro y hy hgy
      have hlt := Observer.length_of_next? (hg y hgy).2
      have hle := hy.length_le
      omega
    have hclear : ∀ y, z.Tail y → ¬ y.Clear (.into code z given own enters) there' := by
      intro y
      induction y with
      | client c => exact fun hy hc => hc.elim (hnot _ hy) fun hl => hl (hz.tail hy)
      | write | outer | relocate => exact fun hy => (hz.tail hy).elim
      | map f next ih | filter f next ih | inner i g next ih =>
        exact fun hy hc => hc.elim (hnot _ hy) (ih (hy.next rfl))
      | skip i next ih | distinct i next ih | slot i k next ih =>
        exact fun hy hc => hc.elim (hnot _ hy) fun h => ih (hy.next rfl) h.2
    exact hclear z .refl
  before y hy hn := by
    have hlt := Observer.length_of_next? hn
    have hle := Observer.Tail.length_le hy
    omega
  spared y p hy hp ho' := (ho p ho').2 ((hz.tail hy).spot hp)
  cell p hp := (ho p hp).1

theorem Passage.sound_into {z : Observer F C} {given : Observer F C → Prop} {own : Option Spot}
    {enters : Stream F → Observer F C → Prop} {there there' : Spot → Prop} (hz : z.Lane code there)
    (hg : ∀ y, given y → y.Prompt ∧ y.next? = some z) (ho : ∀ p, own = some p → there' p)
    (he : ∀ x y, enters x y → ∃ x' f, x = .map x' f ∧ given (.map f y)) :
    (Passage.into code z given own enters).Sound there' code where
  leaf _ hc := hc
  own := ho
  given y hy := .inl (hg y hy).1
  onward _ _ hy hz' := .inr (Option.some.inj ((hg _ hy).2.symm.trans hz') ▸ .refl)
  prompt _ hy := (hz.tail hy).prompt
  inside _ _ hy hn := hy.next hn
  enters := he

/-- Cells are no observers. -/
theorem Heap.Clear.of_cells {q : Passage F C} {there : Spot → Prop} {h h' : Heap F C} (hc : h.OnlyCells h')
    (hh : h.Clear q there) : h'.Clear q there where
  entries n e hm := by
    have hr : h'.roster n = h.roster n := by
      cases n <;> simp only [Heap.roster, Heap.handlers, hc.objects, hc.subjects]
    exact hh.entries n e (hr ▸ hm)
  tasks i l hl := by
    have hq : h'.tasks? i = h.tasks? i := by simp only [Heap.tasks?, hc.schedulers]
    exact hh.tasks i l (hq ▸ hl)

/-- Where nobody has subscribed to anything yet, nobody leads to the code, and so it stays until someone subscribes
for it. -/
theorem Heap.Fresh.unheard {w : World F C S} {c : Command F C} {l : List (State F C S)} {e : State F C S}
    (hw : w.heap.Fresh) (hc : c.Outside code) (h : (w.start c).Continues K code l e) : e.Unheard code :=
  have he := State.Clear.continues (Passage.sound_vacant _) (hw.clear (fun _ => id) hc) h
  ⟨he.going.frames, he.heap⟩

namespace State.Unheard

variable {s : State F C S} (hu : s.Unheard code)
include hu

/-- A passage with a new spot of its own begins. -/
theorem into {z : Observer F C} {given : Observer F C → Prop} {own : Option Spot}
    {enters : Stream F → Observer F C → Prop} (ho : ∀ p, own = some p → ¬ s.world.heap.There p) {c : Command F C}
    {h : Heap F C} (hcells : s.world.heap.OnlyCells h) (hthere : ∀ p, s.world.heap.There p → h.There p)
    (hc : c.Clear (.into code z given own enters) h.There z.Tail) :
    State.Clear (.into code z given own enters) (Passage.into code z given own enters).inside
      (⟨.run c, s.frames, h, s.world.client⟩ : State F C S) := by
  have he : (Passage.vacant code : Passage F C).Eases s.world.heap.There (.into code z given own enters) h.There :=
    ⟨fun _ => id, fun _ => False.elim, fun p hp => ⟨hthere p hp.1, fun h => ho p h hp.1⟩, fun _ _ => False.elim⟩
  exact ⟨⟨hc, fun f hf => (hu.frames f hf).eased he⟩, (Heap.Clear.of_cells hcells hu.heap).eased he⟩

/-- A step that only makes a cell leaves it so. -/
theorem of_cells {c : Control F C} {h : Heap F C} (hcells : s.world.heap.OnlyCells h)
    (hthere : ∀ p, s.world.heap.There p → h.There p) :
    (⟨c, s.frames, h, s.world.client⟩ : State F C S).Unheard code := by
  have he : (Passage.vacant code : Passage F C).Eases s.world.heap.There (.vacant code) h.There :=
    Passage.eases_of_le hthere
  exact ⟨fun f hf => (hu.frames f hf).eased he, (Heap.Clear.of_cells hcells hu.heap).eased he⟩

end State.Unheard

/-! ## What comes through -/

theorem State.not_delivers_of_finished {s : State F C S} (hs : s.finished = true) : ¬ s.Delivers := by
  rintro ⟨y, v, hc⟩
  have ha := ((finished_iff s).1 hs).1
  rw [hc] at ha
  exact ha

/-- What comes through a passage is what a transducer makes of what the given observers receive, if it does so at
each of their turns. -/
theorem State.Clear.transduces {A I O : Type} (t : Transducer A I O) (σ : Heap F C → A)
    (inp : State F C S → Option I) (out : State F C S → Option O) {Ok : State F C S → Prop} {q : Passage F C}
    {z : Observer F C} {s e : State F C S} {l : List (State F C S)} (hn : q.Narrows z)
    (hσ : ∀ h h' : Heap F C, (∀ p, q.own = some p → h.Same h' p) → σ h' = σ h)
    (hout : ∀ s, (∀ v, s.control ≠ .run (.deliver z v)) → out s = none)
    (hinp : ∀ s, inp s = none → ∀ y v, s.control = .run (.deliver y v) → ¬ q.given y)
    (hturn : ∀ s i, inp s = some i → Ok s → (∀ p, q.own = some p → s.world.heap.There p) →
      out (s.step K) = t.emit (σ s.world.heap) i ∧ σ (s.step K).world.heap = t.next (σ s.world.heap) i)
    (hq : q.Sound s.world.heap.There code) (hs : s.Clear q q.inside) (h : s.Continues K code l e)
    (hok : ∀ x ∈ l, Ok x) :
    (l ++ [e]).filterMap out = (out s).toList ++ t.run (σ s.world.heap) (l.filterMap inp) := by
  refine h.transduces t σ inp out (P := fun s => q.Sound s.world.heap.There code ∧ s.Clear q q.inside) ?_ ?_ hok ⟨hq, hs⟩
  · rintro s hm hoks ⟨hq, hs⟩
    have hu := State.uses_step hm
    refine ⟨⟨hq.mono hu.there, (hs.step hm hq).imp fun _ => And.left⟩, ?_⟩
    cases hi : inp s with
    | some i => exact hturn s i hi hoks hq.own
    | none =>
      obtain ⟨hnone, hsame⟩ := hs.quiet hm hq hn (hinp s hi)
      exact ⟨hout _ hnone, hσ _ _ hsame⟩
  · rintro s h k c hf he hc ⟨hq, hs⟩
    have hu : Heap.Uses none s.world.heap h := .edits he
    have hstart : ∀ P, (World.start (⟨h, k⟩ : World F C S) c).Clear q P := fun P => hs.start k hq.leaf he hc
    refine ⟨hout _ fun v hv => not_delivers_of_finished hf ⟨z, v, hv⟩, ⟨hq.mono hu.there, hstart _⟩,
      hout _ fun v hv => ?_, hσ _ _ fun p hp => hu.same p (hq.own p hp) nofun⟩
    have hcontrol := (hstart fun _ => False).going.control
    rw [hv] at hcontrol
    exact hn.hidden _ (hcontrol.resolve_right id)

/-- The same from the time that the code subscribes: these are given upstream from then on. -/
theorem State.Unheard.transduces {A I O : Type} (t : Transducer A I O) (σ : Heap F C → A)
    (inp : State F C S → Option I) (out : State F C S → Option O) {Ok : State F C S → Prop} {z : Observer F C}
    {given : Observer F C → Prop} {own : Option Spot} {enters : Stream F → Observer F C → Prop} {s e : State F C S}
    {c : Command F C} {h : Heap F C} {l : List (State F C S)} (hu : s.Unheard code)
    (hz : z.Lane code s.world.heap.There) (hcells : s.world.heap.OnlyCells h)
    (hthere : ∀ p, s.world.heap.There p → h.There p) (hg : ∀ y, given y → y.Prompt ∧ y.next? = some z)
    (hown : ∀ p, own = some p → p.IsCell ∧ ¬ s.world.heap.There p ∧ h.There p)
    (henters : ∀ x y, enters x y → ∃ x' f, x = .map x' f ∧ given (.map f y))
    (hc : c.Clear (.into code z given own enters) h.There z.Tail)
    (hσ : ∀ h h' : Heap F C, (∀ p, own = some p → h.Same h' p) → σ h' = σ h)
    (hout : ∀ s, (∀ v, s.control ≠ .run (.deliver z v)) → out s = none)
    (hinp : ∀ s, inp s = none → ∀ y v, s.control = .run (.deliver y v) → ¬ given y)
    (hturn : ∀ s i, inp s = some i → Ok s → (∀ p, own = some p → s.world.heap.There p) →
      out (s.step K) = t.emit (σ s.world.heap) i ∧ σ (s.step K).world.heap = t.next (σ s.world.heap) i)
    (hrun : State.Continues K code ⟨.run c, s.frames, h, s.world.client⟩ l e) (hok : ∀ x ∈ l, Ok x) :
    (l ++ [e]).filterMap out =
      (out ⟨.run c, s.frames, h, s.world.client⟩).toList ++ t.run (σ h) (l.filterMap inp) :=
  (hu.into (fun p hp => (hown p hp).2.1) hcells hthere hc).transduces t σ inp out
    (Passage.narrows_into hz hg fun p hp => ⟨(hown p hp).1, (hown p hp).2.1⟩) hσ hout hinp hturn
    (Passage.sound_into hz hg (fun p hp => (hown p hp).2.2) henters) hrun hok

end DataBinding
