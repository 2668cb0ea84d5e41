import DataBinding.Proofs.Beside.Asides
/-!
# What both runs are at

The two runs are linked where they are at the same thing, with the same under way (`Setting.Linked`). In between,
the second run may still have others to tell before it comes to whom both runs tell next (`Setting.Onward`).
-/

namespace DataBinding

variable {F C S : Type}

section Definitions
variable (q : Setting F C S) (ρ : Ties)

/-- The same command in both runs. -/
inductive Command.Alike : Command F C → Command F C → Prop
  | set {o p v v'} : o < q.objects → q.alike ρ v v' → Alike (.set o p v) (.set o p v')
  | next {j v v'} : q.alike ρ v v' → Alike (.next j v) (.next j v')
  | deliver {x y v v'} : x.Alike q ρ y → q.alike ρ v v' → Alike (.deliver x v) (.deliver y v')
  | subscribe {x x' y y'} : x.Alike q (ρ .stream).pair x' → y.Alike q ρ y' →
      Alike (.subscribe x y) (.subscribe x' y')
  | subscribeAll {ms ms' rest rest'} : List.Forall₂ (Teardown.Alike ρ) ms ms' →
      List.Forall₂ (Request.Alike q ρ) rest rest' → Alike (.subscribeAll ms rest) (.subscribeAll ms' rest')
  | undo {t u} : t.Alike ρ u → Alike (.undo t) (.undo u)
  | undoAll {ms ms'} : List.Forall₂ (Teardown.Alike ρ) ms ms' → Alike (.undoAll ms none) (.undoAll ms' none)
  | dispose {i j} : (ρ .handle).pair i j → Alike (.dispose i) (.dispose j)
  | schedule {s t u} : t.Alike q ρ u → Alike (.schedule s t) (.schedule s u)
  /-- More may have been run in the second run. -/
  | drain (s n m) : Alike (.drain s n) (.drain s m)

inductive Control.Alike : Control F C → Control F C → Prop
  | run {c c'} : c.Alike q ρ c' → Alike (.run c) (.run c')
  | pass {s s'} : s.Alike ρ s' → Alike (.pass s) (.pass s')

/-- The same is under way in both runs. -/
inductive Frame.Alike : Frame F C → Frame F C → Prop
  | subscribed {x y t u} : t.Alike ρ u → Alike (.subscribed x t) (.subscribed y u)
  | notifying {x y l l' o v v'} : o < q.objects → q.alike ρ v v' →
      Sifted (Handler.Alike q ρ o) (Handler.Alien q ρ o) l l' → Alike (.notifying x l o v) (.notifying y l' o v')
  | publishing {x y l l' j v v'} : q.alike ρ v v' → Sifted (Observer.Alike q ρ) (Observer.Alien q ρ) l l' →
      Alike (.publishing x l j v) (.publishing y l' j v')
  | announcing {o p old old' new new'} : o < q.objects → q.alike ρ old old' → q.alike ρ new new' →
      Alike (.announcing o p old new) (.announcing o p old' new')
  | changed {o old old' new new'} : Alike (.changed o old new) (.changed o old' new')
  | gathering {x y ms ms' rest rest'} : List.Forall₂ (Teardown.Alike ρ) ms ms' →
      List.Forall₂ (Request.Alike q ρ) rest rest' → Alike (.gathering x ms rest) (.gathering y ms' rest')
  | relocating {i j} : (ρ .gate).pair i j → Alike (.relocating i) (.relocating j)
  | opening {i j} : (ρ .switch).pair i j → Alike (.opening i) (.opening j)
  | switching {i j g x x' y y'} : (ρ .switch).pair i j → x.Alike q (ρ .stream).pair x' → y.Alike q ρ y' →
      Alike (.switching i g x y) (.switching j g x' y')
  | entering {i j g x x'} : (ρ .switch).pair i j → Alike (.entering i g x) (.entering j g x')
  | closing {i j} : (ρ .switch).pair i j → Alike (.closing i) (.closing j)
  | undoing {ms ms'} : List.Forall₂ (Teardown.Alike ρ) ms ms' → Alike (.undoing ms none) (.undoing ms' none)
  | draining {s n m t u} : Alike (.draining s n t) (.draining s m u)

/-- Both runs are at the same thing. -/
structure Setting.Linked (s s' : State F C S) : Prop where
  control : s.control.Alike q ρ s'.control
  frames : List.Forall₂ (Frame.Alike q ρ) s.frames s'.frames
  joint : q.Joint ρ s.world s'.world

/-- Both runs are at the same thing, or about to tell of the same, the second one others as well. -/
inductive Setting.Onward : State F C S → State F C S → Prop
  | linked {s s'} : q.Linked ρ s s' → Onward s s'
  | telling {c c' fs fs' w w' o v v' l l'} : List.Forall₂ (Frame.Alike q ρ) fs fs' → q.Joint ρ w w' →
      o < q.objects → q.alike ρ v v' → Sifted (Handler.Alike q ρ o) (Handler.Alien q ρ o) l l' →
      Onward (stepNotify ⟨c, fs, w⟩ o v l) (stepNotify ⟨c', fs', w'⟩ o v' l')
  | giving {c c' fs fs' w w' j v v' l l'} : List.Forall₂ (Frame.Alike q ρ) fs fs' → q.Joint ρ w w' →
      q.alike ρ v v' → Sifted (Observer.Alike q ρ) (Observer.Alien q ρ) l l' →
      Onward (stepPublish ⟨c, fs, w⟩ j v l) (stepPublish ⟨c', fs', w'⟩ j v' l')

/-- Both runs go on, the second one by a step at least. -/
def Setting.Proceeds (s s' : State F C S) : Prop :=
  ∃ ρ' l l' t t', ρ ≤ ρ' ∧ State.Leads q.client [] s l t ∧ State.Leads q.client [] s' (s' :: l') t' ∧
    q.Onward ρ' t t'

end Definitions

variable {q : Setting F C S} {ρ ρ' : Ties}

theorem Frame.Alike.mono (hρ : ρ ≤ ρ') {f f' : Frame F C} (h : f.Alike q ρ f') : f.Alike q ρ' f' := by
  cases h with
  | subscribed ht => exact .subscribed (ht.mono hρ)
  | notifying ho hv hl =>
    exact .notifying ho (q.alike_mono hρ hv) (hl.mono (fun _ _ => Handler.Alike.mono hρ) fun _ => Handler.Alien.mono hρ)
  | publishing hv hl =>
    exact .publishing (q.alike_mono hρ hv) (hl.mono (fun _ _ => Observer.Alike.mono hρ) fun _ => Observer.Alien.mono hρ)
  | announcing ho hold hnew => exact .announcing ho (q.alike_mono hρ hold) (q.alike_mono hρ hnew)
  | changed => exact .changed
  | gathering hms hrest =>
    exact .gathering (hms.imp fun _ _ => Teardown.Alike.mono hρ) (hrest.imp fun _ _ => Request.Alike.mono hρ)
  | relocating hi => exact .relocating (hρ.pair hi)
  | opening hi => exact .opening (hρ.pair hi)
  | switching hi hx hy => exact .switching (hρ.pair hi) (hx.mono fun _ _ => hρ.pair) (hy.mono hρ)
  | entering hi => exact .entering (hρ.pair hi)
  | closing hi => exact .closing (hρ.pair hi)
  | undoing hms => exact .undoing (hms.imp fun _ _ => Teardown.Alike.mono hρ)
  | draining => exact .draining

namespace Setting

open State

variable {w w' w₂ w₂' : World F C S} {fs fs' : List (Frame F C)} {c c' : Control F C} {command command' : Command F C}
  {f f' : Frame F C} {signal signal' : Signal C}

/-! ## Going on -/

section Go
variable (hf : List.Forall₂ (Frame.Alike q ρ) fs fs') (hρ : ρ ≤ ρ')
include hf hρ

/-- Commands go on under the same frames. -/
theorem proceeds_go (he : State.step q.client ⟨.run command, fs, w⟩ = ⟨c, fs, w₂⟩)
    (he' : State.step q.client ⟨.run command', fs', w'⟩ = ⟨c', fs', w₂'⟩) (hj : q.Joint ρ' w₂ w₂')
    (hc : c.Alike q ρ' c') : q.Proceeds ρ ⟨.run command, fs, w⟩ ⟨.run command', fs', w'⟩ :=
  ⟨ρ', _, _, _, _, hρ, .one id he, .one id he', .linked ⟨hc, hf.imp fun _ _ => Frame.Alike.mono hρ, hj⟩⟩

/-- Commands go on under one frame more. -/
theorem proceeds_under (he : State.step q.client ⟨.run command, fs, w⟩ = ⟨c, f :: fs, w₂⟩)
    (he' : State.step q.client ⟨.run command', fs', w'⟩ = ⟨c', f' :: fs', w₂'⟩) (hj : q.Joint ρ' w₂ w₂')
    (hc : c.Alike q ρ' c') (hfirst : f.Alike q ρ' f') :
    q.Proceeds ρ ⟨.run command, fs, w⟩ ⟨.run command', fs', w'⟩ :=
  ⟨ρ', _, _, _, _, hρ, .one id he, .one id he',
    .linked ⟨hc, .cons hfirst (hf.imp fun _ _ => Frame.Alike.mono hρ), hj⟩⟩

omit hf in
/-- Frames go on with signals. -/
theorem proceeds_back_onward {t t' : State F C S} (he : stepFrame ⟨.pass signal, fs, w⟩ signal f = t)
    (he' : stepFrame ⟨.pass signal', fs', w'⟩ signal' f' = t') (ho : q.Onward ρ' t t') :
    q.Proceeds ρ ⟨.pass signal, f :: fs, w⟩ ⟨.pass signal', f' :: fs', w'⟩ := by
  have hstep : State.step q.client ⟨.pass signal, f :: fs, w⟩ = t := he
  have hstep' : State.step q.client ⟨.pass signal', f' :: fs', w'⟩ = t' := he'
  exact ⟨ρ', [_], [], t, t', hρ, .step (fun _ => List.cons_ne_nil _ _) (hstep ▸ .here),
    .step (fun _ => List.cons_ne_nil _ _) (hstep' ▸ .here), ho⟩

/-- Frames go on under the others. -/
theorem proceeds_back (he : stepFrame ⟨.pass signal, fs, w⟩ signal f = ⟨c, fs, w₂⟩)
    (he' : stepFrame ⟨.pass signal', fs', w'⟩ signal' f' = ⟨c', fs', w₂'⟩) (hj : q.Joint ρ' w₂ w₂')
    (hc : c.Alike q ρ' c') : q.Proceeds ρ ⟨.pass signal, f :: fs, w⟩ ⟨.pass signal', f' :: fs', w'⟩ :=
  proceeds_back_onward hρ he he' (.linked ⟨hc, hf.imp fun _ _ => Frame.Alike.mono hρ, hj⟩)

end Go

end Setting

end DataBinding
