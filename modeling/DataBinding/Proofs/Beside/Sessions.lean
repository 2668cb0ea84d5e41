import Mathlib.Logic.Relator
import DataBinding.Proofs.Beside.Runs
import DataBinding.Proofs.Beside.Sources
import DataBinding.Proofs.Flatten.Merged
/-!
# Sessions with and without other subscriptions

A caller sets properties, pushes values, drains queues, and subscribes to streams and disposes subscriptions, which
go by names (`Deed`). In a session only the subscriptions of some names are made (`Standing.Follows`). If a session
in which all are made can be gone through, so can one in which only some of them are, and what its code has been
given after each deed is the same (`Setting.seen_without_others`).
-/

namespace DataBinding

variable {F C S : Type}

/-! ## Sessions -/

/-- What the caller does. -/
inductive Deed (F C : Type) where
  | set (object : ObjectId) (property : String) (value : Value)
  /-- Store a value without telling anybody. -/
  | init (object : ObjectId) (property : String) (value : Value)
  | push (subject : SubjectId) (value : Value)
  | drain (scheduler : SchedulerId)
  | subscribe (name : String) (stream : Stream F) (code : C)
  | dispose (name : String)

/-- The deed is done if only the subscriptions of these names are made. -/
def Deed.Kept (keep : String → Prop) : Deed F C → Prop
  | .subscribe name .. | .dispose name => keep name
  | _ => True

/-- A world, and the handles of the subscriptions that have been made, by their names. -/
structure Standing (F C S : Type) where
  world : World F C S
  handles : List (String × Nat)

/-- What a deed leaves. -/
inductive Deed.Does (K : Client F C S) : Deed F C → Standing F C S → Standing F C S → Prop
  | set {o p v w signal w' l} : w.Answers K (.set o p v) signal w' → Does K (.set o p v) ⟨w, l⟩ ⟨w', l⟩
  | init {o p v w l} : Does K (.init o p v) ⟨w, l⟩ ⟨w.withHeap (w.heap.put o p v), l⟩
  | push {j v w signal w' l} : w.Answers K (.next j v) signal w' → Does K (.push j v) ⟨w, l⟩ ⟨w', l⟩
  | drain {i w signal w' l} : w.Answers K (.drain i 0) signal w' → Does K (.drain i) ⟨w, l⟩ ⟨w', l⟩
  | subscribe {name x c w t w' l} : w.Answers K (.subscribe x (.client c)) (.subscription t) w' →
      Does K (.subscribe name x c) ⟨w, l⟩ ⟨w'.keeping t, (name, w'.heap.handles.size) :: l⟩
  | dispose {name i w signal w' l} : l.lookup name = some i → w.Answers K (.dispose i) signal w' →
      Does K (.dispose name) ⟨w, l⟩ ⟨w', l⟩

/-- One deed after the other is done, but only the subscriptions of these names are made; this is what there is
after each. -/
inductive Standing.Follows (K : Client F C S) (keep : String → Prop) :
    Standing F C S → List (Deed F C) → List (Standing F C S) → Prop
  | nil {v} : Follows K keep v [] []
  | does {v d v' rest vs} : d.Kept keep → d.Does K v v' → Follows K keep v' rest vs →
      Follows K keep v (d :: rest) (v' :: vs)
  | leaves {v d rest vs} : ¬ d.Kept keep → Follows K keep v rest vs → Follows K keep v (d :: rest) (v :: vs)

/-! ## Going through a session -/

namespace Standing

variable {K : Client F C S}

/-- The signal and the world that a command leaves, if it is done after so many steps. -/
def answer? (K : Client F C S) (limit : Nat) (w : World F C S) (command : Command F C) :
    Option (Signal C × World F C S) :=
  match (w.start command).run K limit with
  | ⟨.pass signal, [], w'⟩ => some (signal, w')
  | _ => none

/-- What a deed leaves, if it is done after so many steps. -/
def after? (K : Client F C S) (limit : Nat) (v : Standing F C S) : Deed F C → Option (Standing F C S)
  | .set o p x => (answer? K limit v.world (.set o p x)).map fun a => ⟨a.2, v.handles⟩
  | .init o p x => some ⟨v.world.withHeap (v.world.heap.put o p x), v.handles⟩
  | .push j x => (answer? K limit v.world (.next j x)).map fun a => ⟨a.2, v.handles⟩
  | .drain i => (answer? K limit v.world (.drain i 0)).map fun a => ⟨a.2, v.handles⟩
  | .subscribe name x c => (answer? K limit v.world (.subscribe x (.client c))).bind fun a =>
    match a.1 with
    | .subscription t => some ⟨a.2.keeping t, (name, a.2.heap.handles.size) :: v.handles⟩
    | _ => none
  | .dispose name => (v.handles.lookup name).bind fun i =>
    (answer? K limit v.world (.dispose i)).map fun a => ⟨a.2, v.handles⟩

/-- What there is after each deed, up to one that is not done after so many steps. -/
def followed (K : Client F C S) (limit : Nat) (v : Standing F C S) : List (Deed F C) → List (Standing F C S)
  | [] => []
  | d :: rest =>
    match after? K limit v d with
    | some v' => v' :: followed K limit v' rest
    | none => []

variable {limit : Nat} {v v' : Standing F C S} {w w' : World F C S}

theorem answers_of_answer? {command : Command F C} {signal : Signal C}
    (h : answer? K limit w command = some (signal, w')) : w.Answers K command signal w' := by
  unfold answer? at h
  split at h
  · next signal' w₂ he =>
    cases h
    exact ⟨limit, he⟩
  · cases h

theorem does_of_after? {d : Deed F C} (h : after? K limit v d = some v') : d.Does K v v' := by
  obtain ⟨w, l⟩ := v
  cases d with
  | set | push | drain =>
    obtain ⟨⟨signal, w'⟩, ha, rfl⟩ := Option.map_eq_some_iff.1 h
    constructor
    exact answers_of_answer? ha
  | init =>
    cases h
    exact .init
  | subscribe name x c =>
    obtain ⟨⟨signal, w'⟩, ha, hs⟩ := Option.bind_eq_some_iff.1 h
    cases signal <;> cases hs
    exact .subscribe (answers_of_answer? ha)
  | dispose name =>
    obtain ⟨i, hi, h⟩ := Option.bind_eq_some_iff.1 h
    obtain ⟨⟨signal, w'⟩, ha, rfl⟩ := Option.map_eq_some_iff.1 h
    exact .dispose hi (answers_of_answer? ha)

theorem follows_followed {deeds : List (Deed F C)} (h : (followed K limit v deeds).length = deeds.length) :
    v.Follows K (fun _ => True) deeds (followed K limit v deeds) := by
  induction deeds generalizing v with
  | nil => exact .nil
  | cons d rest ih =>
    rw [followed] at h ⊢
    split at h
    · next v' he => exact .does (by cases d <;> trivial) (does_of_after? he) (ih (Nat.succ.inj h))
    · cases h

end Standing

/-! ## Sessions beside each other -/

section Definitions
variable (q : Setting F C S) (keep : String → Prop)

/-- Values and streams are of what is there at the beginning, and code is idle. Subscriptions that need not be
made are not those of the code whose values are noted. -/
def Deed.Fits : Deed F C → Prop
  | .set o _ v | .init o _ v => o < q.objects ∧ q.Known v
  | .push _ v => q.Known v
  | .subscribe name x c => q.Source x ∧ q.idle c ∧ (¬ keep name → c ≠ q.code)
  | .drain _ | .dispose _ => True

/-- Both sessions are at the same deed. -/
structure Setting.Abreast (ρ : Ties) (v v' : Standing F C S) : Prop where
  joint : q.Joint ρ v.world v'.world
  kept : ∀ name, keep name → Option.Rel (ρ .handle).pair (v.handles.lookup name) (v'.handles.lookup name)
  others : ∀ name i, ¬ keep name → v'.handles.lookup name = some i → (ρ .handle).alien i

end Definitions

variable {q : Setting F C S} {keep : String → Prop} {ρ ρ' : Ties} {w w' w₂' : World F C S}

/-! ## One deed -/

namespace Setting

/-- A command that is run in both sessions, and answers in the second one. -/
theorem Joint.answers (hq : q.Sound) (hj : q.Joint ρ w w') {command command' : Command F C}
    (hc : command.Alike q ρ command') {signal' : Signal C} (ha : w'.Answers q.client command' signal' w₂') :
    ∃ ρ' signal w₂, ρ ≤ ρ' ∧ w.Answers q.client command signal w₂ ∧ signal.Alike ρ' signal' ∧ q.Joint ρ' w₂ w₂' := by
  obtain ⟨n, hn⟩ := ha
  obtain ⟨ρ', l, signal, signal₂, w₂, w₃, hρ, hends, he, hs, hj'⟩ :=
    Onward.ends hq (s := w.start command) (.linked ⟨.run hc, .nil, hj⟩) (State.ends_iff_run.2 ⟨n, hn, rfl, rfl⟩)
  cases he
  obtain ⟨m, hm, -⟩ := State.ends_iff_run.1 hends
  exact ⟨ρ', signal, w₂, hρ, ⟨m, hm⟩, hs, hj'⟩

/-- A command that is only run in the second session. -/
theorem Joint.answersAlien (hq : q.Sound) (hj : q.Joint ρ w w') {command : Command F C} (hc : command.Alien q ρ)
    {signal : Signal C} (ha : w'.Answers q.client command signal w₂') :
    ∃ ρ', ρ ≤ ρ' ∧ q.Joint ρ' w w₂' ∧ signal.Alien q ρ' := by
  obtain ⟨n, hn⟩ := ha
  have haside : q.Aside ρ w [] (w'.start command) := ⟨hj, hc, [], rfl, List.forall_mem_nil _⟩
  obtain ⟨ρ', signal', w₃, hρ, he, hj', hs⟩ := haside.ends hq (State.ends_iff_run.2 ⟨n, hn, rfl, rfl⟩)
  cases he
  exact ⟨ρ', hρ, hj', hs⟩

theorem Joint.alike_of_known (hj : q.Joint ρ w w') {v : Value} (hv : q.Known v) : q.alike ρ v v :=
  Value.Alike.mono (fun i _ ⟨hij, hi⟩ => hij ▸ hj.known i hi) hv

namespace Abreast

variable {v v' v₂' : Standing F C S} (h : q.Abreast keep ρ v v')
include h

/-- The worlds are others, and the subscriptions are the same. -/
theorem withWorld (hρ : ρ ≤ ρ') {w₂ : World F C S} (hj : q.Joint ρ' w₂ w₂') :
    q.Abreast keep ρ' ⟨w₂, v.handles⟩ ⟨w₂', v'.handles⟩ where
  joint := hj
  kept name hk := rel_imp (fun _ _ => hρ.pair) (h.kept name hk)
  others name i hk hi := hρ.alien (h.others name i hk hi)

/-- A subscription is kept under its name in both sessions. -/
theorem keeping (hρ : ρ ≤ ρ') {w₂ : World F C S} (hj : q.Joint ρ' w₂ w₂') {t t' : Teardown C} (ht : t.Alike ρ' t')
    {name : String} (hk : keep name) : ∃ ρ'', ρ ≤ ρ'' ∧
      q.Abreast keep ρ'' ⟨w₂.keeping t, (name, w₂.heap.handles.size) :: v.handles⟩
        ⟨w₂'.keeping t', (name, w₂'.heap.handles.size) :: v'.handles⟩ := by
  have hρ' := ρ'.le_tie .handle (w₂.heap.count .handle) (w₂'.heap.count .handle) 1
  have hm := hj.mirrors.makes (Heap.makes_newHandle _ t) (Heap.makes_newHandle _ t') ht trivial
  have h' := h.withWorld (Ties.le_trans hρ hρ') (hj.withHeap hρ' hm)
  refine ⟨_, Ties.le_trans hρ hρ', h'.joint, fun other hother => ?_, fun other i hother hi => ?_⟩
  · simp only [List.lookup_cons]
    split
    · exact .some (ρ'.pair_tie ..)
    · exact h'.kept other hother
  · simp only [List.lookup_cons] at hi
    split at hi
    · next heq => exact absurd (eq_of_beq heq ▸ hk) hother
    · exact h'.others other i hother hi

/-- A subscription is kept under its name in the second session only. -/
theorem keepingAlien (hρ : ρ ≤ ρ') (hj : q.Joint ρ' v.world w₂') {t : Teardown C} (ht : t.Alien q ρ')
    {name : String} (hk : ¬ keep name) : ∃ ρ'', ρ ≤ ρ'' ∧
      q.Abreast keep ρ'' v ⟨w₂'.keeping t, (name, w₂'.heap.handles.size) :: v'.handles⟩ := by
  have hρ' := ρ'.le_spare .handle (w₂'.heap.count .handle)
  have hm := hj.mirrors.makesAlien (Heap.makes_newHandle _ t) ht trivial
  have h' := h.withWorld (Ties.le_trans hρ hρ') (hj.withHeap hρ' hm)
  refine ⟨_, Ties.le_trans hρ hρ', h'.joint, fun other hother => ?_, fun other i hother hi => ?_⟩
  · simp only [List.lookup_cons]
    split
    · next heq => exact absurd (eq_of_beq heq ▸ hother) hk
    · exact h'.kept other hother
  · simp only [List.lookup_cons] at hi
    split at hi
    · cases hi
      exact ρ'.alien_spare ..
    · exact h'.others other i hother hi

/-- A deed that is done in both sessions. -/
theorem does (hq : q.Sound) {d : Deed F C} (hd : d.Fits q keep) (hk : d.Kept keep) (hdoes : d.Does q.client v' v₂') :
    ∃ ρ' v₂, ρ ≤ ρ' ∧ d.Does q.client v v₂ ∧ q.Abreast keep ρ' v₂ v₂' := by
  have hj := h.joint
  cases hdoes with
  | set ha =>
    obtain ⟨ρ', _, w₂, hρ, hdo, -, hj'⟩ := hj.answers hq (.set hd.1 (hj.alike_of_known hd.2)) ha
    exact ⟨ρ', _, hρ, .set hdo, h.withWorld hρ hj'⟩
  | init =>
    exact ⟨ρ, _, Ties.le_refl ρ, .init, h.withWorld (Ties.le_refl ρ) (hj.withHeap (Ties.le_refl ρ)
      (hj.mirrors.put hd.1 (hj.alike_of_known hd.2)))⟩
  | push ha =>
    obtain ⟨ρ', _, w₂, hρ, hdo, -, hj'⟩ := hj.answers hq (.next (hj.alike_of_known hd)) ha
    exact ⟨ρ', _, hρ, .push hdo, h.withWorld hρ hj'⟩
  | drain ha =>
    obtain ⟨ρ', _, w₂, hρ, hdo, -, hj'⟩ := hj.answers hq (.drain _ 0 0) ha
    exact ⟨ρ', _, hρ, .drain hdo, h.withWorld hρ hj'⟩
  | subscribe ha =>
    obtain ⟨ρ', signal, w₂, hρ, hdo, hs, hj'⟩ := hj.answers hq (.subscribe (hd.1.alike hj.known) (.client hd.2.1)) ha
    cases hs with
    | subscription ht =>
      obtain ⟨ρ'', hρ', h'⟩ := h.keeping hρ hj' ht hk
      exact ⟨ρ'', _, hρ', .subscribe hdo, h'⟩
  | @dispose name i' w' signal w₂' l' hi ha =>
    have hname := h.kept name hk
    cases hi₀ : v.handles.lookup name with
    | none =>
      rw [hi₀, hi] at hname
      cases hname
    | some i =>
      rw [hi₀, hi] at hname
      cases hname with
      | some hp =>
        obtain ⟨ρ', _, w₂, hρ, hdo, -, hj'⟩ := hj.answers hq (.dispose hp) ha
        exact ⟨ρ', _, hρ, .dispose hi₀ hdo, h.withWorld hρ hj'⟩

/-- A deed that is only done in the second session. -/
theorem leaves (hq : q.Sound) {d : Deed F C} (hd : d.Fits q keep) (hk : ¬ d.Kept keep)
    (hdoes : d.Does q.client v' v₂') : ∃ ρ', ρ ≤ ρ' ∧ q.Abreast keep ρ' v v₂' := by
  have hj := h.joint
  cases hdoes with
  | subscribe ha =>
    obtain ⟨hx, hc, hne⟩ := hd
    have halien : (Command.subscribe _ (.client _)).Alien q ρ := ⟨(hx.alike hj.known).harmless, hc, hne hk⟩
    obtain ⟨ρ', hρ, hj', ht⟩ := hj.answersAlien hq halien ha
    exact h.keepingAlien hρ hj' ht hk
  | @dispose name i w' signal w₂' l' hi ha =>
    have halien : (Command.dispose i : Command F C).Alien q ρ := h.others name i hk hi
    obtain ⟨ρ', hρ, hj', -⟩ := hj.answersAlien hq halien ha
    exact ⟨ρ', hρ, h.withWorld hρ hj'⟩
  | _ => exact absurd trivial hk

/-! ## All deeds -/

/-- The first session goes on as the second one does, and after each deed the same has been seen. -/
theorem follows (hq : q.Sound) {deeds : List (Deed F C)} (hd : ∀ d ∈ deeds, d.Fits q keep) {vs' : List (Standing F C S)}
    (hf : v'.Follows q.client (fun _ => True) deeds vs') : ∃ ρ' vs, (∀ k, ∃ n m, (ρ' k).Sound n m) ∧ ρ ≤ ρ' ∧
      v.Follows q.client keep deeds vs ∧ List.Forall₂ (fun v v' =>
        List.Forall₂ (q.alike ρ') (q.seen v.world.client) (q.seen v'.world.client)) vs vs' := by
  induction hf generalizing ρ v with
  | nil => exact ⟨ρ, [], fun k => ⟨_, _, h.joint.mirrors.sound k⟩, Ties.le_refl ρ, .nil, .nil⟩
  | @does v' d v₂' rest vs' _ hdoes _ ih =>
    obtain ⟨hfirst, hrest⟩ := List.forall_mem_cons.1 hd
    by_cases hk : d.Kept keep
    · obtain ⟨ρ₁, v₂, hρ, hdo, h₁⟩ := h.does hq hfirst hk hdoes
      obtain ⟨ρ₂, vs, hsound, hρ', hfollows, hseen⟩ := ih h₁ hrest
      exact ⟨ρ₂, _, hsound, Ties.le_trans hρ hρ', .does hk hdo hfollows,
        .cons (h₁.joint.seen.imp fun _ _ => q.alike_mono hρ') hseen⟩
    · obtain ⟨ρ₁, hρ, h₁⟩ := h.leaves hq hfirst hk hdoes
      obtain ⟨ρ₂, vs, hsound, hρ', hfollows, hseen⟩ := ih h₁ hrest
      exact ⟨ρ₂, _, hsound, Ties.le_trans hρ hρ', .leaves hk hfollows,
        .cons (h₁.joint.seen.imp fun _ _ => q.alike_mono hρ') hseen⟩
  | leaves hk => exact absurd (by cases ‹Deed F C› <;> trivial) hk

end Abreast

/-- What code has been given is the same whether or not other subscriptions are made and disposed. In a calm heap all
of whose objects and subjects are held by the client, deeds are done one after the other, with all subscriptions; then
they can be done with only those of some names. After each deed the code whose values are noted has been given the
same values, where streams that are made on the way go by other numbers. -/
theorem seen_without_others (hq : q.Sound) (hcalm : w.heap.Calm q) (hheld : q.Held w.client)
    (hseen : ∀ v ∈ q.seen w.client, q.Known v) {deeds : List (Deed F C)} (hd : ∀ d ∈ deeds, d.Fits q keep)
    {vs' : List (Standing F C S)} (hf : Standing.Follows q.client (fun _ => True) ⟨w, []⟩ deeds vs') :
    ∃ vs r, Standing.Follows q.client keep ⟨w, []⟩ deeds vs ∧ Relator.BiUnique r ∧ (∀ i < q.streams, r i i) ∧
      List.Forall₂ (fun v v' => List.Forall₂ (Value.Alike q.objects r) (q.seen v.world.client)
        (q.seen v'.world.client)) vs vs' := by
  have hj : q.Joint w.heap.ties w w := ⟨hcalm.mirrors, fun _ => hcalm.pair_stream, hheld, hheld,
    List.forall₂_same.2 fun v hv => hcalm.alike (hseen v hv)⟩
  have h : q.Abreast keep w.heap.ties ⟨w, []⟩ ⟨w, []⟩ := ⟨hj, fun _ _ => .none, nofun⟩
  obtain ⟨ρ, vs, hsound, hρ, hfollows, hvs⟩ := h.follows hq hd hf
  obtain ⟨n, m, hs⟩ := hsound .stream
  exact ⟨vs, (ρ .stream).pair, hfollows, ⟨fun _ _ _ => hs.right, fun _ _ _ => hs.left⟩,
    fun i hi => hρ.pair (hcalm.pair_stream hi), hvs⟩

end Setting

/-! ## A radio and a queue -/

/-- Code that notes each value it is given, or takes no notice of it, of a client that holds these things. -/
def Client.listener (held : List Node) : Client Empty Bool (List Value) where
  apply := nofun
  resume
    | true, .value v, w => (⟨w.heap, w.client ++ [v]⟩, .finish)
    | _, _, w => (w, .finish)
  functionRefs := nofun
  codeRefs _ := []
  refs _ := held

/-- A radio with two stations, and a queue. -/
def Heap.tuner : Heap F C := { Heap.radio with schedulers := #[.queue []] }

def Setting.radio : Setting Empty Bool (List Value) where
  client := .listener [.object 0, .subject 0, .subject 1]
  seen := id
  code := true
  idle _ := True
  pure _ := True
  objects := 1
  subjects := 2
  streams := 2

theorem Setting.sound_radio : radio.Sound where
  pure := nofun
  idle c _ signal w := by
    refine ⟨((Client.listener [.object 0, .subject 0, .subject 1]).resume c signal w).1, .finish ?_, ?_, id, ?_, ?_⟩ <;>
      cases c <;> cases signal <;> simp [radio, Client.listener, Signal.values]

theorem Heap.roster_tuner (n : Node) : (tuner : Heap F C).roster n = [] := by
  rcases n with (- | o) | (- | - | j) | i <;> rfl

theorem Heap.handlers_tuner (o : ObjectId) : (tuner : Heap F C).handlers o = [] := by
  rcases o with - | o <;> rfl

theorem Heap.calm_tuner : (tuner : Heap Empty Bool).Calm Setting.radio where
  objects := rfl
  subjects := rfl
  streams := rfl
  cells k i hk hi := by
    cases k with
    | stream =>
      obtain rfl | rfl : i = 0 ∨ i = 1 := Nat.le_one_iff_eq_zero_or_eq_one.1 (Nat.le_of_lt_succ hi)
      · exact ⟨by decide, rfl⟩
      · exact ⟨by decide, rfl⟩
    | handler | observer => trivial
    | handle => exact absurd rfl hk
    | _ => exact absurd hi (Nat.not_lt_zero _)
  get o p := by
    have hget : (tuner : Heap Empty Bool).get o p = .null ∨ (tuner : Heap Empty Bool).get o p = .stream 0 := by
      rcases o with - | o
      · cases hp : p == "News" <;> simp [tuner, radio, Heap.get, Object.get, List.lookup_cons, hp]
      · exact .inl rfl
    rcases hget with he | he <;> rw [he]
    · rfl
    · exact ⟨0, ⟨rfl, by decide⟩, rfl⟩
  handlers o x hx := by
    rw [handlers_tuner] at hx
    cases hx
  listeners j x hx := by
    rw [roster_tuner] at hx
    cases hx
  tasks i l hl t ht := by
    rcases i with - | i
    · cases hl
      cases ht
    · cases hl

/-- Besides the subscription `mine`, there are one of the same stream, and one of a station by way of the queue. -/
def Deed.listening (x : Stream Empty) : List (Deed Empty Bool) :=
  [.subscribe "mine" x true, .subscribe "same" x false, .push 0 (.int 1), .init 0 "Music" (.stream 1),
    .subscribe "queued" (.relocate (.subject 0) 0) false, .set 0 "Music" (.stream 0), .dispose "same",
    .push 0 (.int 2), .drain 0, .set 0 "News" (.stream 1), .push 1 (.int 3)]

theorem Setting.seen_without_others_radio :
    ∃ plan x vs', CallSite.radio.plan ⟨[("Radio", .full)]⟩ = .ok (.observation plan) ∧
      plan.observe 0 (default : Arguments Empty) = .ok x ∧
      Standing.Follows radio.client (fun _ => True) ⟨⟨.tuner, []⟩, []⟩ (Deed.listening x) vs' ∧
      vs'.map (fun v => v.world.client.length) = [0, 0, 1, 1, 1, 1, 1, 3, 3, 3, 4] ∧
      ∃ vs r, Standing.Follows radio.client (· = "mine") ⟨⟨.tuner, []⟩, []⟩ (Deed.listening x) vs ∧
        Relator.BiUnique r ∧ (∀ i < 2, r i i) ∧ List.Forall₂ (fun v v' =>
          List.Forall₂ (Value.Alike 1 r) v.world.client v'.world.client) vs vs' := by
  have hobserve : (CallSite.radio.streamObservation ⟨[("Radio", .full)]⟩).observe 0 (default : Arguments Empty) =
      .ok (CallSite.radio.flattened 0) :=
    CallSite.observe_streamObservation (show CallSite.radio.check .whenAnyObservable .positional = .ok () from rfl)
      rfl rfl (by decide) 0 default
  have hf : Standing.Follows radio.client (fun _ => True) ⟨⟨.tuner, []⟩, []⟩
      (Deed.listening (CallSite.radio.flattened 0)) (Standing.followed radio.client 60 _ _) :=
    Standing.follows_followed (by decide +kernel)
  have hmine : radio.Source (CallSite.radio.flattened 0) := .observed (by decide) (fun _ f => f.elim) hobserve
  have hstation : radio.Source (.relocate (.subject 0) 0) := .known ⟨.subject 0, ⟨by decide, rfl⟩, rfl⟩
  have hknown : ∀ i < 2, radio.Known (.stream i) := fun i hi => ⟨i, ⟨rfl, hi⟩, rfl⟩
  refine ⟨_, _, _, rfl, hobserve, hf, by decide +kernel, ?_⟩
  refine seen_without_others sound_radio Heap.calm_tuner ?_ (List.forall_mem_nil _) ?_ hf
  · exact ⟨by simp [radio, Client.listener], fun j hj => by
      obtain rfl | rfl : j = 0 ∨ j = 1 := Nat.le_one_iff_eq_zero_or_eq_one.1 (Nat.le_of_lt_succ hj)
      all_goals simp [radio, Client.listener]⟩
  · simp only [Deed.listening, List.forall_mem_cons, Deed.Fits]
    exact ⟨⟨hmine, trivial, fun h => absurd trivial h⟩, ⟨hmine, trivial, fun _ => nofun⟩, rfl,
      ⟨by decide, hknown 1 (by decide)⟩, ⟨hstation, trivial, fun _ => nofun⟩, ⟨by decide, hknown 0 (by decide)⟩,
      trivial, rfl, trivial, ⟨by decide, hknown 1 (by decide)⟩, rfl, nofun⟩

end DataBinding
