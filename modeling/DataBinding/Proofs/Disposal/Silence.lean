import DataBinding.Proofs.Disposal.Owing
import DataBinding.Proofs.Disposal.Released
import DataBinding.Proofs.Machine.Panics
/-!
# Silence after disposal

Once a subscription has been disposed of, its code is given no more values, but for those it is owed by the
deliveries under way; whatever begins later is silent (`World.Subscribed.silenced`). That something may
still be owed is shown by two subscriptions to one property, of which the first disposes of the second
(`World.told_after_disposal`).
-/

namespace DataBinding

variable {F C S : Type} {K : Client F C S} {code : C} {n : Nat}
  {past lived before rest later l : List (State F C S)} {w w' : World F C S} {s e : State F C S}
  {base : List (Frame F C)}

theorem World.Runs.append {w₁ w₂ : World F C S} {l' : List (State F C S)} (h : w.Runs K code l w₁)
    (h' : w₁.Runs K code l' w₂) : w.Runs K code (l ++ l') w₂ := by
  induction h with
  | nil => exact h'
  | edit he _ ih => exact .edit he (ih h')
  | command hc he _ ih =>
    rw [List.append_assoc]
    exact .command hc he (ih h')

namespace Scope

variable {q : Scope C} {hd : Option Nat} {ps : List Part}

/-! ## Runs -/

section Runs
variable (hK : K.Reserves q.code) (hq : ¬ q.deep)
include hK hq

/-- Along a run nothing of the subscription comes back. -/
theorem accounted_ends (hr : ∀ x ∈ l, q.Regular x) (hs : q.Sound hd False s)
    (ha : q.Accounted s.world.heap ps) (he : State.Ends K base s l e) : q.Accounted e.world.heap ps := by
  induction he with
  | answer => exact ha
  | step _ _ ih =>
    obtain ⟨hx, hr⟩ := List.forall_mem_cons.1 hr
    exact ih hr (hs.step hK hx) (accounted_step hK hx hq hs ha)

theorem accounted_leads (hr : ∀ x ∈ l, q.Regular x) (hs : q.Sound hd False s)
    (ha : q.Accounted s.world.heap ps) (hl : State.Leads K base s l e) :
    q.Sound hd False e ∧ q.Accounted e.world.heap ps :=
  hl.keeps (P := fun x => q.Sound hd False x ∧ q.Accounted x.world.heap ps)
    (fun x hx ⟨hs, ha⟩ => ⟨hs.step hK (hr x hx), accounted_step hK (hr x hx) hq hs ha⟩) ⟨hs, ha⟩

theorem accounted_of_runs (hr : ∀ x ∈ l, q.Regular x) (hs : q.SoundHeap hd w.heap)
    (ha : q.Accounted w.heap ps) (hw : w.Runs K q.code l w') : q.Accounted w'.heap ps := by
  induction hw with
  | nil => exact ha
  | edit he _ ih => exact ih hr ((hs.ground False).edits he).heap (ha.edits he)
  | command hc he _ ih =>
    obtain ⟨hr, hr'⟩ := List.forall_mem_append.1 hr
    exact ih hr' ((Sound.start hs hc).ends hK hr he).1.ground.heap
      (accounted_ends hK hq hr (.start hs hc) ha he)

variable [DecidableEq C]

/-- The values that the code is given were owed to it. -/
theorem owed_ends (hr : ∀ x ∈ l, q.Regular x) (hs : q.Sound hd False s)
    (ha : q.Accounted s.world.heap []) (he : State.Ends K base s l e) :
    l.countP (·.tells q.code) + e.owed q.code ≤ s.owed q.code := by
  induction he with
  | answer => exact Nat.le_of_eq (Nat.zero_add _)
  | @step s l e _ _ ih =>
    obtain ⟨hx, hr⟩ := List.forall_mem_cons.1 hr
    have hpay := owed_step hq ha hK hs
    have hrest := ih hr (hs.step hK hx) (accounted_step hK hx hq hs ha)
    have htells : (s.tells q.code).toNat = if s.tells q.code = true then 1 else 0 := by
      cases s.tells q.code <;> rfl
    rw [List.countP_cons, ← htells]
    omega

/-- A call that begins with nothing owed is silent. -/
theorem silent_ends (hr : ∀ x ∈ l, q.Regular x) (hs : q.Sound hd False s)
    (ha : q.Accounted s.world.heap []) (hc : s.control.owed q.code = 0)
    (he : State.Ends K s.frames s l e) : ∀ x ∈ l, x.tells q.code = false := by
  have hpaid := owed_ends hK hq hr hs ha he
  have hframes : framesOwed q.code s.frames ≤ e.owed q.code := by
    rw [← he.answered.2]
    exact Nat.le_add_left _ _
  have hcount : l.countP (·.tells q.code) = 0 := by
    have howed : s.owed q.code = framesOwed q.code s.frames := by
      rw [State.owed, hc, Nat.zero_add]
    omega
  exact fun x hx => Bool.eq_false_iff.2 (List.countP_eq_zero.1 hcount x hx)

theorem silent_runs (hr : ∀ x ∈ l, q.Regular x) (hs : q.SoundHeap hd w.heap)
    (ha : q.Accounted w.heap []) (hw : w.Runs K q.code l w') : ∀ x ∈ l, x.tells q.code = false := by
  induction hw with
  | nil => nofun
  | edit he _ ih => exact ih hr ((hs.ground False).edits he).heap (ha.edits he)
  | @command w c l e l' w' hc he _ ih =>
    obtain ⟨hr, hr'⟩ := List.forall_mem_append.1 hr
    have hstart : q.Sound hd False (w.start c) := .start hs hc
    exact List.forall_mem_append.2 ⟨silent_ends hK hq hr hstart ha (owed_of_outside hc) he,
      ih hr' (hstart.ends hK hr he).1.ground.heap (accounted_ends hK hq hr hstart ha he)⟩

end Runs

end Scope

/-! ## Disposal on the way -/

/-- A change or a push begins. -/
def State.Announces (s : State F C S) : Prop :=
  (∃ o p v, s.control = .run (.set o p v)) ∨ ∃ i v, s.control = .run (.next i v)

theorem State.Announces.owed_eq_zero [DecidableEq C] (h : s.Announces) : s.control.owed code = 0 := by
  rcases h with ⟨o, p, v, hc⟩ | ⟨i, v, hc⟩ <;> rw [hc] <;> rfl

theorem State.Undoes.not_announces (h : s.Undoes) : ¬ s.Announces := by
  rintro (⟨o, p, v, hc⟩ | ⟨i, v, hc⟩) <;> simp [State.Undoes, hc] at h

theorem State.Undoes.tells_eq_false [DecidableEq C] (h : s.Undoes) : s.tells code = false := by
  rcases h.2 with ⟨t, hc⟩ | ⟨l, p, hc⟩ | hc <;> simp [State.tells, hc]

/-- In the life of a subscription, through the states `before` and in the course of a command, it comes to
this state, where the subscription is disposed of. The command then goes through the states `rest`, and
commands after it through the states `later`. -/
structure World.Disposes (K : Client F C S) (code : C) (n : Nat) (w : World F C S)
    (before : List (State F C S)) (s : State F C S) (rest later : List (State F C S)) : Prop where
  control : s.control = .run (.dispose n)
  /-- The handle still holds what it was given, so nobody has disposed of it before. -/
  held : s.world.heap.teardown n = w.heap.teardown n
  run : ∃ w₁ c e w' l₁ l₂, w.Runs K code l₁ w₁ ∧ c.Outside code ∧
    State.Ends K [] (w₁.start c) (l₂ ++ s :: rest) e ∧ e.world.Runs K code later w' ∧ before = l₁ ++ l₂

namespace Scope

variable [DecidableEq C] {q : Scope C}

/-- What begins after a disposal is silent, and the rest of what is under way gives the code no more values
than it is owed. -/
theorem silent_of_disposes (hK : K.Reserves q.code) (hq : ¬ q.deep) (hs : q.SoundHeap (some n) w.heap)
    (ha : q.Accounted w.heap (w.heap.teardown n).parts) (hd : w.Disposes K q.code n before s rest later)
    (hr : ∀ x ∈ before ++ s :: rest ++ later, q.Regular x) :
    rest.countP (·.tells q.code) ≤ s.owed q.code ∧
      (∀ x ∈ rest, x.Announces → ∀ l e, State.Ends K x.frames x l e →
        ∀ y ∈ l, y.tells q.code = false) ∧
      ∀ x ∈ later, x.tells q.code = false := by
  obtain ⟨w₁, c, e, w', l₁, l₂, h₁, hout, hend, hlater, rfl⟩ := hd.run
  obtain ⟨hrnow, hrlater⟩ := List.forall_mem_append.1 hr
  obtain ⟨hrbefore, hrs⟩ := List.forall_mem_append.1 hrnow
  obtain ⟨hr₁, hr₂⟩ := List.forall_mem_append.1 hrbefore
  have hs₁ := (sound_runs hK hr₁ hs h₁).1
  have ha₁ := accounted_of_runs hK hq hr₁ hs ha h₁
  obtain ⟨hlead, hrest⟩ := hend.cut
  obtain ⟨hss, has⟩ := accounted_leads hK hq hr₂ (.start hs₁ hout) ha₁ hlead
  -- the subscription is undone in one go
  obtain ⟨lu, h', hlu, hu, hun⟩ := leads_dispose (K := K) (List.nil_suffix) hss.ground.heap hd.control
  obtain ⟨rest', hrest', hend'⟩ := hlu.rest hrest
  obtain rfl : rest = lu ++ rest' := by simpa using hrest'
  obtain ⟨hrlu, hrrest⟩ := List.forall_mem_append.1 (List.forall_mem_cons.1 hrs).2
  have hgone : q.Accounted h' [] := by
    refine hun.accounted [] ?_
    rw [List.append_nil, hd.held]
    exact has.alike (s.world.heap.alike_clearHandle n)
  have hsu := (accounted_leads hK hq (List.forall_mem_cons.2 ⟨(List.forall_mem_cons.1 hrs).1, hrlu⟩) hss has
    hlu).1
  -- from here on nothing of it is registered, so what is owed can only get less
  refine ⟨?_, fun x hx hann l el hel => ?_, ?_⟩
  · have hpaid := owed_ends hK hq hrrest hsu hgone hend'
    have hquiet : lu.countP (·.tells q.code) = 0 :=
      List.countP_eq_zero.2 fun x hx => Bool.eq_false_iff.1 (hu x hx).tells_eq_false
    have howed : (⟨.pass .done, s.frames, h', s.world.client⟩ : State F C S).owed q.code =
        s.owed q.code := by
      simp [State.owed, hd.control, Control.owed]
    rw [List.countP_append, hquiet, ← howed]
    omega
  · rcases List.mem_append.1 hx with hx | hx
    · exact absurd hann (hu x hx).not_announces
    · obtain ⟨la, lb, rfl⟩ := List.append_of_mem hx
      obtain ⟨hra, hrb⟩ := List.forall_mem_append.1 hrrest
      obtain ⟨hleadx, hendx⟩ := hend'.cut
      obtain ⟨hsx, hax⟩ := accounted_leads hK hq hra hsu hgone hleadx
      obtain ⟨l', e', lc, hl', he', -⟩ := hendx.split List.nil_suffix (List.suffix_refl x.frames)
      obtain ⟨rfl, -⟩ := he'.unique hel
      rw [hl'] at hrb
      exact silent_ends hK hq (List.forall_mem_append.1 hrb).1 hsx hax hann.owed_eq_zero hel
  · exact silent_runs hK hq hrlater (hsu.ends hK hrrest hend').1.ground.heap
      (accounted_ends hK hq hrrest hsu hgone hend') hlater

end Scope

namespace World.Subscribed

open Scope

/-- Where values come to the code through no switch and no scheduler, what a subscription has registered is
owned by its handle, whatever happens while it is made. -/
theorem accounted_direct {q : Scope C} (h : w.Subscribed K q.code n past) (hq : ¬ q.deep)
    (hr : ∀ s ∈ past, q.Regular s) : q.Accounted w.heap (w.heap.teardown n).parts := by
  refine h.accounted hr fun s hs => ⟨fun _ _ _ => nofun, fun m f fs hc hf hl => ?_⟩
  obtain ⟨w₀, w₁, l₀, l₁, hfresh, h₀, h₁, rfl⟩ := h.made
  obtain ⟨hr₀, -⟩ := List.forall_mem_append.1 hr
  rcases List.mem_append.1 hs with hs | hs
  · -- nobody is subscribing for the code yet
    have hf' := ((sound_runs h.reserves hr₀ (sound_fresh hfresh) h₀).2 s hs).ground.frames
    rw [hf] at hf'
    have hno := not_expects hq fs
    cases f with
    | relocating g => exact hno (hf'.1.1 hl)
    | opening i => exact hno (hf'.1.2.1 hl)
    | closing i => exact hq hl.1
    | _ => exact hl
  · cases h₁ with
    | stream he => exact State.ne_panic_of_ends he s hs m hc
    | handler => cases hs

/-- **Silence after disposal.** -/
theorem silenced [DecidableEq C] (h : w.Subscribed K code n past)
    (hd : w.Disposes K code n before s rest later)
    (hg : ∀ x ∈ past ++ (before ++ s :: rest ++ later), x.grounded = true) :
    rest.countP (·.tells code) ≤ s.owed code ∧
      (∀ x ∈ rest, x.Announces → ∀ l e, State.Ends K x.frames x l e →
        ∀ y ∈ l, y.tells code = false) ∧
      ∀ x ∈ later, x.tells code = false := by
  obtain ⟨w₁, c, e, w', l₁, l₂, h₁, hout, hend, hlater, hbefore⟩ := hd.run
  have hrun : w.Runs K code (before ++ s :: rest ++ later) w' := by
    have := h₁.append (.command hout hend hlater)
    simpa [hbefore] using this
  obtain ⟨hpast, hlife⟩ := List.forall_mem_append.1 (h.regular False hrun hg False.elim)
  exact silent_of_disposes (q := ofTrace code False _) h.reserves id (h.soundHeap hpast)
    (h.accounted_direct id hpast) hd hlife

end World.Subscribed

/-! ## One who disposes of the next -/

/-- Of a client that holds these things: code `true` disposes of the first handle whenever it is told
something, and code `false` notes each value it is given. -/
def Client.ender (held : List Node) : Client Empty Bool (List Value) where
  apply := nofun
  resume
    | true, .value _, w => (w, .perform (.dispose 0) true)
    | false, .value v, w => (⟨w.heap, w.client ++ [v]⟩, .finish)
    | _, _, w => (w, .finish)
  functionRefs := nofun
  codeRefs _ := []
  refs _ := held

theorem Client.reserves_ender (held : List Node) : (ender held).Reserves false where
  apply := nofun
  resume c signal w := by
    unfold ender
    dsimp only
    split <;> exact ⟨.refl, trivial⟩

/-- The first address is watched by the code that disposes. -/
def Heap.markedHomes : Heap Empty Bool := (homes.addHandler 0 .after "City" false (.client true)).2

/-- After that one, the other code has subscribed to its city. -/
def State.seated : State Empty Bool (List Value) :=
  (World.start ⟨.markedHomes, []⟩ (.subscribe (.watch 0 "City" .after) (.client false))).run
    (.ender [.object 0]) 40

theorem World.subscribed_seated : ∃ past, (∀ s ∈ past, s.grounded = true) ∧
    State.seated.stored.Subscribed (.ender [.object 0]) false 0 past := by
  have hr : (⟨.homes, []⟩ : World Empty Bool (List Value)).Runs (.ender [.object 0]) false []
      ⟨.markedHomes, []⟩ := .edit (.single (.register _ _ _ _ _ (by decide))) .nil
  have h := subscribed_of_run (K := .ender [.object 0]) 40 (Client.reserves_ender _) Heap.fresh_homes hr
    (x := .watch 0 "City" .after) (by decide +kernel)
  exact ⟨_, by decide +kernel, h⟩

/-- A command in the course of which, after so many states, the handle is disposed of, and another after it,
each run for so many steps at most. -/
theorem World.disposes_of_visited (c c' : Command F C) (limit i : Nat) (hc : c.Outside code)
    (hc' : c'.Outside code) (hi : i < ((w.start c).visited K limit).length)
    (hd : (((w.start c).visited K limit)[i]).disposes? = some n)
    (hh : (((w.start c).visited K limit)[i]).world.heap.teardown n = w.heap.teardown n)
    (hf : ((w.start c).run K limit).finished = true)
    (hf' : ((((w.start c).run K limit).world.start c').run K limit).finished = true) :
    w.Disposes K code n (((w.start c).visited K limit).take i) (((w.start c).visited K limit)[i])
      (((w.start c).visited K limit).drop (i + 1))
      ((((w.start c).run K limit).world.start c').visited K limit) where
  control := State.disposes?_eq_some.1 hd
  held := hh
  run := by
    have hsplit : ((w.start c).visited K limit).take i ++ ((w.start c).visited K limit)[i] ::
        ((w.start c).visited K limit).drop (i + 1) = (w.start c).visited K limit := by
      rw [List.getElem_cons_drop, List.take_append_drop]
    have hlater : World.Runs K code ((w.start c).run K limit).world
        ((((w.start c).run K limit).world.start c').visited K limit ++ []) _ :=
      .command hc' (State.ends_iff_run.2 ⟨limit, rfl, hf', rfl⟩) .nil
    rw [List.append_nil] at hlater
    exact ⟨w, c, _, _, [], _, .nil, hc, hsplit.symm ▸ State.ends_iff_run.2 ⟨limit, rfl, hf, rfl⟩, hlater,
      rfl⟩

/-- The city is set, and later once more; the first time one value is owed when the handle is disposed of,
and is given. -/
theorem World.disposes_seated : ∃ before s rest later,
    State.seated.stored.Disposes (.ender [.object 0]) false 0 before s rest later ∧
      (∀ x ∈ before ++ s :: rest ++ later, x.grounded = true) ∧ s.owed false = 1 ∧
      ∃ x ∈ rest, x.tells false = true :=
  ⟨_, _, _, _, disposes_of_visited (.set 0 "City" (.text "Bergen"))
    (.set 0 "City" (.text "Molde")) 60 4 trivial trivial (by decide +kernel) (by decide +kernel)
    rfl (by decide +kernel) (by decide +kernel), by decide +kernel, by decide +kernel,
    by decide +kernel⟩

theorem World.silenced_seated : ∃ past before s rest later,
    State.seated.stored.Subscribed (.ender [.object 0]) false 0 past ∧
      State.seated.stored.Disposes (.ender [.object 0]) false 0 before s rest later ∧
      s.owed false = 1 ∧ rest.countP (·.tells false) ≤ s.owed false ∧
      (∀ x ∈ rest, x.Announces → ∀ l e, State.Ends (.ender [.object 0]) x.frames x l e →
        ∀ y ∈ l, y.tells false = false) ∧
      ∀ x ∈ later, x.tells false = false := by
  obtain ⟨past, hpast, h⟩ := subscribed_seated
  obtain ⟨before, s, rest, later, hd, hg, ho, -⟩ := disposes_seated
  exact ⟨past, before, s, rest, later, h, hd, ho,
    h.silenced hd (List.forall_mem_append.2 ⟨hpast, hg⟩)⟩

/-- The second handler was there when the change began, so it is still told. -/
theorem World.told_after_disposal : ∃ past before s rest later,
    State.seated.stored.Subscribed (.ender [.object 0]) false 0 past ∧
      State.seated.stored.Disposes (.ender [.object 0]) false 0 before s rest later ∧
      ∃ x ∈ rest, x.tells false = true := by
  obtain ⟨past, -, h⟩ := subscribed_seated
  obtain ⟨before, s, rest, later, hd, -, -, ht⟩ := disposes_seated
  exact ⟨past, before, s, rest, later, h, hd, ht⟩

end DataBinding
