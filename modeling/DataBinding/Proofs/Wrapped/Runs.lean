import DataBinding.Proofs.Wrapped.Steps
/-!
# Runs that wrap and runs that do not

Where the second run wraps, it has some more to do before both have noted a value (`Wrapping.proceeds_ends`). So
wherever both runs are at the same thing and something is left to do, both go on (`Wrapping.Linked.proceeds`), and the
second run comes to an end where the first one does (`Wrapping.Linked.ends`).
-/

namespace DataBinding

variable {F C S : Type} {g : Wrapping F C S} {before : List Value}

open State

theorem Control.Wraps.isAnswer {c c' : Control F C} (hc : c.Wraps g c') (ha : c.IsAnswer) : c'.IsAnswer := by
  cases hc with
  | pass signal => trivial
  | run | resume => exact ha

namespace Wrapping

/-- Both runs go on, by a step at least. -/
def Proceeds (g : Wrapping F C S) (before : List Value) (s s' : State F C S) : Prop :=
  ∃ l t l' t', Leads g.client [] s (s :: l) t ∧ Leads g.client [] s' (s' :: l') t' ∧ g.Linked before t t'

/-- What only the second run holds anyway is alive wherever the first run gets. -/
def Attends (g : Wrapping F C S) (s : State F C S) : Prop :=
  ∀ l st, Leads g.client [] s l st → ∀ n ∈ g.extras, st.alive g.client n = true

theorem Attends.leads {s st : State F C S} {l : List (State F C S)} (ha : g.Attends s)
    (hl : Leads g.client [] s l st) : g.Attends st := fun _ st' hl' => ha _ st' (hl.trans hl')

namespace Proceeds

variable {s s' : State F C S}

theorem one (hs : s.control.IsAnswer → s.frames ≠ []) (hs' : s'.control.IsAnswer → s'.frames ≠ [])
    (h : g.Linked before (s.step g.client) (s'.step g.client)) : g.Proceeds before s s' :=
  ⟨[], _, [], _, .step hs .here, .step hs' .here, h⟩

theorem leads {t t' : State F C S} {l l' : List (State F C S)} (hl : Leads g.client [] s (s :: l) t)
    (hl' : Leads g.client [] s' (s' :: l') t') (h : g.Proceeds before t t') : g.Proceeds before s s' := by
  obtain ⟨m, u, m', u', hm, hm', hu⟩ := h
  exact ⟨l ++ t :: m, u, l' ++ t' :: m', u', hl.trans hm, hl'.trans hm', hu⟩

/-- The second run makes a step of its own. -/
theorem after (hs' : ¬ s'.control.IsAnswer) (h : g.Proceeds before s (s'.step g.client)) :
    g.Proceeds before s s' := by
  obtain ⟨m, u, m', u', hm, hm', hu⟩ := h
  exact ⟨m, u, _, u', hm, .go hs' hm', hu⟩

end Proceeds

section Noting

variable {fs fs' : List (Frame F C)} {w w' : World F C S} (hg : g.Sound) (hf : List.Forall₂ (Frame.Wraps g) fs fs')
  (hj : g.Joint before w w')
include hg hf hj

/-- The second run picks from the wrapped value, and both note theirs. -/
theorem proceeds_noting {v u : Value} (hu : g.Image v u) : g.Proceeds before
    ⟨.run (.deliver (.client g.code) v), fs, w⟩ ⟨.run (.deliver g.finished u), fs', w'⟩ := by
  obtain ⟨w₁, w₁', hr, hr', hj₁⟩ := hj.note hg ⟨u, hu, rfl⟩
  obtain ⟨l, hl, -⟩ : ∃ l, Leads g.client [] _ (_ :: l) _ ∧ _ := leads_returns fs hr
  obtain ⟨l', hl', -⟩ : ∃ l', Leads g.client [] _ (_ :: l') _ ∧ _ := leads_returns fs' hr'
  have hlinked : g.Linked before ⟨.pass .done, fs, w₁⟩ ⟨.pass .done, fs', w₁'⟩ := ⟨.pass _, hf, hj₁⟩
  have hfirst := Leads.go (s := ⟨.run (.deliver (.client g.code) v), fs, w⟩) id hl
  have hnoting := Leads.go (s := ⟨.run (.deliver (.client g.code) (g.pick u)), fs', w'⟩) id hl'
  cases hs : g.selector with
  | none =>
    have hfin : g.finished = .client g.code := by simp only [finished, hs]
    rw [hg.whole hs] at hnoting
    rw [hfin]
    exact ⟨_, _, _, _, hfirst, hnoting, hlinked⟩
  | some f =>
    have hfin : g.finished = .map (.apply f) (.client g.code) := by simp only [finished, hs]
    have hpick : State.step g.client ⟨.run (.deliver (.map (.apply f) (.client g.code)) u), fs', w'⟩ =
        ⟨.run (.deliver (.client g.code) (g.pick u)), fs', w'⟩ := by
      simp only [step, stepCommand, stepDeliver, stepMap, hg.picked f hs]
    rw [hfin]
    exact ⟨_, _, _, _, hfirst, .go id (hpick ▸ hnoting), hlinked⟩

/-- A slot of the join is filled in both runs, and either both joins are full then, or none is. -/
theorem proceeds_filling {j k : Nat} {p : Option String} (hjoin : g.join = some j) (hk : g.names[k]? = some p)
    (v : Value) : g.Proceeds before ⟨.run (.deliver (.slot j k (.client g.code)) v), fs, w⟩
      ⟨.run (.deliver (.slot j k g.finished) (.change g.root p v)), fs', w'⟩ := by
  have hw := hj.heap
  have hfill := hj.withHeap (hw.fill hjoin hk v)
  have hslots : (w'.heap.join j).set k (some (.change g.root p v)) = g.wrapped ((w.heap.join j).set k (some v)) := by
    rw [hw.joins.wrapped j hjoin, wrapped_set hk]
  have hmap := g.mapM_wrapped (l := (w.heap.join j).set k (some v)) (by rw [List.length_set, hw.joins.length j hjoin])
  rw [← hslots] at hmap
  cases hm : ((w.heap.join j).set k (some v)).mapM id with
  | none =>
    rw [hm] at hmap
    refine .one nofun nofun ?_
    rw [step_slot_wanting hm, step_slot_wanting hmap]
    exact ⟨.pass _, hf, hfill⟩
  | some vs =>
    rw [hm] at hmap
    have hvs : vs.length = g.names.length := by
      rw [length_of_mapM hm, List.length_set, hw.joins.length j hjoin]
    exact .leads (.one id (step_slot_full hm)) (.one id (step_slot_full hmap))
      (proceeds_noting hg hf hfill (.several hjoin hvs))

end Noting

section Proceeding

variable {fs fs' : List (Frame F C)} {w w' : World F C S}

/-- Both runs subscribe to the same stream. -/
theorem proceeds_same {x : Stream F} {y y' : Observer F C} (hy : y.Wraps g y')
    (hl : g.Linked before ⟨.run (.subscribe x y), fs, w⟩ ⟨.run (.subscribe x y'), fs', w'⟩)
    (ha : ∀ n ∈ g.extras, (⟨.run (.subscribe x y), fs, w⟩ : State F C S).alive g.client n = true) :
    g.Proceeds before ⟨.run (.subscribe x y), fs, w⟩ ⟨.run (.subscribe x y'), fs', w'⟩ :=
  .one nofun nofun (linked_subscribe hl.frames hl.joint (hl.alive ha) x hy)

/-- The second run may first come to the wrapping of a source. -/
theorem proceeds_subscribe {x x' : Stream F} {y y' : Observer F C} (he : Request.Wraps g (x, y) (x', y'))
    (hl : g.Linked before ⟨.run (.subscribe x y), fs, w⟩ ⟨.run (.subscribe x' y'), fs', w'⟩)
    (ha : ∀ n ∈ g.extras, (⟨.run (.subscribe x y), fs, w⟩ : State F C S).alive g.client n = true) :
    g.Proceeds before ⟨.run (.subscribe x y), fs, w⟩ ⟨.run (.subscribe x' y'), fs', w'⟩ := by
  cases he with
  | same hy => exact proceeds_same hy hl ha
  | @mapped _ f _ _ hy =>
    have hl' : g.Linked before ⟨.run (.subscribe x y), fs, w⟩ ⟨.run (.subscribe x (.map f y')), fs', w'⟩ :=
      ⟨.run (.subscribe (.same (.ends hy))), hl.frames, hl.joint⟩
    exact .after id (proceeds_same (.ends hy) hl' ha)

variable (hg : g.Sound)
include hg

/-- The second run wraps what is delivered before it goes on as the first one does. -/
theorem proceeds_ends {x y : Observer F C} (he : g.Ends x y) {v : Value}
    (hl : g.Linked before ⟨.run (.deliver x v), fs, w⟩ ⟨.run (.deliver y v), fs', w'⟩)
    (ha : ∀ n ∈ g.extras, (⟨.run (.deliver x v), fs, w⟩ : State F C S).alive g.client n = true) :
    g.Proceeds before ⟨.run (.deliver x v), fs, w⟩ ⟨.run (.deliver y v), fs', w'⟩ := by
  have hroot := (hl.alive ha (.object g.root)).trans (ha _ List.mem_cons_self)
  cases he with
  | @one p hjoin hnames =>
    refine .after id ?_
    rw [step_wrap hroot]
    exact proceeds_noting hg hl.frames hl.joint (.one v hjoin hnames)
  | slot hjoin hk =>
    refine .after id ?_
    rw [step_wrap hroot]
    exact proceeds_filling hg hl.frames hl.joint hjoin hk v

theorem proceeds_command {c c' : Command F C} (hc : c.Wraps g c')
    (hl : g.Linked before ⟨.run c, fs, w⟩ ⟨.run c', fs', w'⟩)
    (ha : ∀ n ∈ g.extras, (⟨.run c, fs, w⟩ : State F C S).alive g.client n = true) :
    g.Proceeds before ⟨.run c, fs, w⟩ ⟨.run c', fs', w'⟩ := by
  have hf := hl.frames
  have hj := hl.joint
  cases hc with
  | set o p v => exact .one nofun nofun (linked_set hf hj o p v)
  | write root path v => exact .one nofun nofun (linked_write hf hj root path v)
  | next j v => exact .one nofun nofun (linked_publish hf hj j v (hj.heap.observers j))
  | deliver v hx =>
    rcases linked_deliver hf hj (hl.alive ha) hg hx v with he | hstep
    · exact proceeds_ends hg he hl ha
    · exact .one nofun nofun hstep
  | subscribe he => exact proceeds_subscribe he hl ha
  | subscribeAll ms hrest => exact .one nofun nofun (linked_subscribeAll hf hj ms hrest)
  | undo t => exact .one nofun nofun (linked_undo hf hj t)
  | undoAll ms => exact .one nofun nofun (linked_undoAll hf hj ms)
  | disposeComposite i => exact .one nofun nofun (linked_disposeComposite hf hj i)
  | schedule i ht => exact .one nofun nofun (linked_schedule hf hj i ht)

/-- As long as something is left to do, both runs go on. -/
theorem Linked.proceeds {s s' : State F C S} (hl : g.Linked before s s') (hs : s.control.IsAnswer → s.frames ≠ [])
    (ha : ∀ n ∈ g.extras, s.alive g.client n = true) : g.Proceeds before s s' := by
  obtain ⟨c, fs, w⟩ := s
  obtain ⟨c', fs', w'⟩ := s'
  have hj : g.Joint before w w' := hl.joint
  have hc : c.Wraps g c' := hl.control
  cases hc with
  | run hc => exact proceeds_command hg hc hl ha
  | pass signal =>
    have hf : List.Forall₂ (Frame.Wraps g) fs fs' := hl.frames
    cases hf with
    | nil => exact absurd rfl (hs trivial)
    | @cons f f' rest rest' hfirst hrest =>
      have hstep : g.Linked before (stepFrame ⟨.pass signal, rest, w⟩ signal f)
          (stepFrame ⟨.pass signal, rest', w'⟩ signal f') := linked_frame hrest hj signal hfirst
      exact .one (fun _ => nofun) (fun _ => nofun) hstep
  | resume hsignal =>
    obtain ⟨w₁, w₁', hr, hr', hj₁⟩ := hj.resume hg hsignal
    obtain ⟨l, hl₁, -⟩ : ∃ l, Leads g.client [] _ (_ :: l) _ ∧ _ := leads_returns fs hr
    obtain ⟨l', hl₁', -⟩ : ∃ l', Leads g.client [] _ (_ :: l') _ ∧ _ := leads_returns fs' hr'
    exact ⟨_, _, _, _, hl₁, hl₁', .pass _, hl.frames, hj₁⟩

/-- Where the first run comes to an end, so does the second one. -/
theorem Linked.ends {s s' e : State F C S} {l : List (State F C S)} (hl : g.Linked before s s') (ha : g.Attends s)
    (he : State.Ends g.client [] s l e) : ∃ l' e', State.Ends g.client [] s' l' e' ∧ g.Linked before e e' := by
  -- on how many steps the first run has left to make
  induction hn : l.length using Nat.strongRecOn generalizing s s' l with
  | ind n ih =>
    cases he with
    | answer hc hf =>
      have hfs := hl.frames
      rw [hf] at hfs
      exact ⟨[], s', .answer (hl.control.isAnswer hc) (List.forall₂_nil_left_iff.1 hfs), hl⟩
    | step hs he =>
      obtain ⟨m, t, m', t', hm, hm', ht⟩ := hl.proceeds hg hs (ha _ _ .here)
      obtain ⟨l₁, heq, he₁⟩ := hm.rest (.step hs he)
      have hlt : l₁.length < n := by
        rw [← hn, heq, List.length_append, List.length_cons]
        omega
      obtain ⟨l', e', he', hlast⟩ := ih l₁.length hlt ht (ha.leads hm) he₁ rfl
      exact ⟨_, e', hm'.ends he', hlast⟩

end Proceeding

end Wrapping

end DataBinding
