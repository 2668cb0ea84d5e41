import DataBinding.Proofs.Beside.Ties
import DataBinding.Proofs.Machine.Completes
import DataBinding.Proofs.Value.Renamed
/-!
# Runs in which more is going on

A run is compared with one in which the same is done, and more besides. What is done in both is alike: the same
streams, observers and teardowns, but for the numbers of cells and registrations, which are tied
(`Stream.Alike`, `Observer.Alike`, `Teardown.Alike`). What is only there in the second run is alien: it has cells
and registrations of its own, and it writes nothing (`Observer.Alien`, `Teardown.Alien`, `Stream.Harmless`).

The heap of the second run mirrors that of the first one (`Heap.Mirrors`): tied cells hold what is alike, and
the rosters and queues are those of the first heap, with alien entries in between.
-/

namespace DataBinding

variable {F C S : Type}

/-- What two runs have in common, in the second of which there is more. -/
structure Setting (F C S : Type) where
  client : Client F C S
  /-- The values that the client has noted. -/
  seen : S → List Value
  /-- The code that notes the values it is given. -/
  code : C
  /-- Code that does nothing to the heap. -/
  idle : C → Prop
  /-- Functions that do nothing but yield a value. -/
  pure : F → Prop
  /-- How many objects and subjects there are. -/
  objects : Nat
  subjects : Nat
  /-- How many streams there are from before. -/
  streams : Nat

/-- Values that are the same in both runs, but for the numbers of streams. -/
def Setting.alike (q : Setting F C S) (ρ : Ties) : Value → Value → Prop := Value.Alike q.objects (ρ .stream).pair

section Relations

variable (q : Setting F C S)

/-! ## Streams that write nothing -/

/-- The mapping publishes nothing, and its function is pure. -/
def Mapping.Harmless : Mapping F → Prop
  | .apply f => q.pure f
  | .publish .. => False
  | _ => True

mutual

/-- Nothing is published on the way, and all functions are pure. -/
def Stream.Harmless : Stream F → Prop
  | .map x f => x.Harmless ∧ f.Harmless q
  | .filter x f => x.Harmless ∧ q.pure f
  | .skip x _ => x.Harmless
  | .distinct x => x.Harmless
  | .switch x _ => x.Harmless
  | .relocate x _ => x.Harmless
  | .merge xs => harmlessStreams xs
  | .combineLatest xs => harmlessStreams xs
  | _ => True

def harmlessStreams : List (Stream F) → Prop
  | [] => True
  | x :: rest => x.Harmless ∧ harmlessStreams rest

end

/-! ## What is done in both runs -/

section Alike

/-- The mapping publishes nothing, its function is pure, and a sender exists. -/
def Mapping.Own : Mapping F → Prop
  | .apply f => q.pure f
  | .wrap sender _ => sender < q.objects
  | .emptyIfNull => True
  | .publish .. => False

variable (r : StreamId → StreamId → Prop)

mutual

/-- The same stream in both runs, of objects and subjects that exist. -/
def Stream.Alike : Stream F → Stream F → Prop
  | .empty, z => z = .empty
  | .just v, z => ∃ v', v.Alike q.objects r v' ∧ z = .just v'
  | .watch o p t, z => o < q.objects ∧ z = .watch o p t
  | .constant root path, z => root < q.objects ∧ z = .constant root path
  | .subject j, z => j < q.subjects ∧ z = .subject j
  | .map x f, z => ∃ x', x.Alike x' ∧ f.Own q ∧ z = .map x' f
  | .filter x f, z => ∃ x', x.Alike x' ∧ q.pure f ∧ z = .filter x' f
  | .skip x n, z => ∃ x', x.Alike x' ∧ z = .skip x' n
  | .distinct x, z => ∃ x', x.Alike x' ∧ z = .distinct x'
  | .switch x select, z => ∃ x', x.Alike x' ∧ z = .switch x' select
  | .relocate x i, z => ∃ x', x.Alike x' ∧ z = .relocate x' i
  | .merge xs, z => ∃ xs', alikeStreams xs xs' ∧ z = .merge xs'
  | .combineLatest xs, z => ∃ xs', alikeStreams xs xs' ∧ z = .combineLatest xs'

def alikeStreams : List (Stream F) → List (Stream F) → Prop
  | [], l => l = []
  | x :: rest, l => ∃ x' rest', x.Alike x' ∧ alikeStreams rest rest' ∧ l = x' :: rest'

end

variable (ρ : Ties)

/-- The same operators in both runs, with tied cells. -/
inductive Observer.Alike : Observer F C → Observer F C → Prop
  | client {c} : q.idle c → Alike (.client c) (.client c)
  | map {f x y} : f.Own q → Alike x y → Alike (.map f x) (.map f y)
  | filter {f x y} : q.pure f → Alike x y → Alike (.filter f x) (.filter f y)
  | skip {i j x y} : (ρ .counter).pair i j → Alike x y → Alike (.skip i x) (.skip j y)
  | distinct {i j x y} : (ρ .memory).pair i j → Alike x y → Alike (.distinct i x) (.distinct j y)
  | outer {i j select x y} : (ρ .switch).pair i j → Alike x y → Alike (.outer i select x) (.outer j select y)
  | inner {i j g x y} : (ρ .switch).pair i j → Alike x y → Alike (.inner i g x) (.inner j g y)
  | relocate {i j s x y} : (ρ .gate).pair i j → Alike x y → Alike (.relocate i s x) (.relocate j s y)
  | slot {i j k x y} : (ρ .join).pair i j → Alike x y → Alike (.slot i k x) (.slot j k y)

inductive Task.Alike : Task F C → Task F C → Prop
  | deliver {i j x y v v'} : (ρ .gate).pair i j → x.Alike q ρ y → q.alike ρ v v' →
      Alike (.deliver i x v) (.deliver j y v')
  | client {c} : q.idle c → Alike (.client c) (.client c)

/-- What is subscribed to, and by whom. -/
def Request.Alike (a b : Stream F × Observer F C) : Prop :=
  a.1.Alike q (ρ .stream).pair b.1 ∧ a.2.Alike q ρ b.2

end Alike

section Teardowns
variable (ρ : Ties)

mutual

def Teardown.Alike : Teardown C → Teardown C → Prop
  | .nothing, u => u = .nothing
  | .handler o i, u => ∃ j, (ρ (.handler o)).pair i j ∧ u = .handler o j
  | .observer s i, u => ∃ j, (ρ (.observer s)).pair i j ∧ u = .observer s j
  | .relocate i t, u => ∃ j t', (ρ .gate).pair i j ∧ t.Alike t' ∧ u = .relocate j t'
  | .switch i t, u => ∃ j t', (ρ .switch).pair i j ∧ t.Alike t' ∧ u = .switch j t'
  | .all ms, u => ∃ ms', alikeMembers ms ms' ∧ u = .all ms'
  | .composite _, _ => False
  | .client _, _ => False

def alikeMembers : List (Teardown C) → List (Teardown C) → Prop
  | [], l => l = []
  | t :: rest, l => ∃ t' rest', t.Alike t' ∧ alikeMembers rest rest' ∧ l = t' :: rest'

end

inductive Signal.Alike : Signal C → Signal C → Prop
  | done : Alike .done .done
  | flag (b) : Alike (.flag b) (.flag b)
  /-- More may have been run in the second run. -/
  | count (n m) : Alike (.count n) (.count m)
  | subscription {t u} : t.Alike ρ u → Alike (.subscription t) (.subscription u)

end Teardowns

/-! ## What is only there in the second run -/

section Alien
variable (ρ : Ties)

/-- The observer has cells of its own, writes nothing and ends in idle code. -/
def Observer.Alien : Observer F C → Prop
  | .client c => q.idle c ∧ c ≠ q.code
  | .write .. => False
  | .map f y => f.Harmless q ∧ y.Alien
  | .filter f y => q.pure f ∧ y.Alien
  | .skip i y => (ρ .counter).alien i ∧ y.Alien
  | .distinct i y => (ρ .memory).alien i ∧ y.Alien
  | .outer i _ y => (ρ .switch).alien i ∧ y.Alien
  | .inner i _ y => (ρ .switch).alien i ∧ y.Alien
  | .relocate i _ y => (ρ .gate).alien i ∧ y.Alien
  | .slot i _ y => (ρ .join).alien i ∧ y.Alien

mutual

def Teardown.Alien : Teardown C → Prop
  | .nothing => True
  | .handler o i => o < q.objects → (ρ (.handler o)).alien i
  | .observer s i => s < q.subjects → (ρ (.observer s)).alien i
  | .relocate i t => (ρ .gate).alien i ∧ t.Alien
  | .switch i t => (ρ .switch).alien i ∧ t.Alien
  | .all ms => alienMembers ms
  | .composite _ => False
  | .client _ => False

def alienMembers : List (Teardown C) → Prop
  | [] => True
  | t :: rest => t.Alien ∧ alienMembers rest

end

def Task.Alien : Task F C → Prop
  | .deliver i y _ => (ρ .gate).alien i ∧ y.Alien q ρ
  | .client c => q.idle c ∧ c ≠ q.code

def Signal.Alien : Signal C → Prop
  | .subscription t => t.Alien q ρ
  | .value _ => False
  | _ => True

end Alien

end Relations

/-! ## Cells -/

/-- What a cell holds, of any kind. -/
inductive Cell (F C : Type) where
  | counter (n : Nat)
  | memory (v : Option Value)
  | join (l : List (Option Value))
  | switch (x : Switch C)
  | gate (b : Bool)
  | stream (x : Stream F)
  | handle (t : Teardown C)
  /-- Registrations are no cells. -/
  | none

def Heap.cell (h : Heap F C) : Kind → Nat → Cell F C
  | .counter, i => .counter (h.counter i)
  | .memory, i => .memory (h.memory i)
  | .join, i => .join (h.join i)
  | .switch, i => .switch (h.switch i)
  | .gate, i => .gate (h.gateOpen i)
  | .stream, i => .stream (h.stream i)
  | .handle, i => .handle (h.teardown i)
  | .handler _, _ => .none
  | .observer _, _ => .none

section Heaps

variable (q : Setting F C S) (ρ : Ties)

structure Switch.Alike (x y : Switch C) : Prop where
  generation : y.generation = x.generation
  stopped : y.stopped = x.stopped
  current : (x.current.getD .nothing).Alike ρ (y.current.getD .nothing)

def Cell.Alike : Cell F C → Cell F C → Prop
  | .counter n, .counter m => m = n
  | .memory v, .memory v' => Option.Rel (q.alike ρ) v v'
  | .join l, .join l' => List.Forall₂ (Option.Rel (q.alike ρ)) l l'
  | .switch x, .switch y => x.Alike ρ y
  | .gate b, .gate b' => b' = b
  | .stream x, .stream y => x.Alike q (ρ .stream).pair y
  | .handle t, .handle u => t.Alike ρ u
  | .none, .none => True
  | _, _ => False

def Cell.Alien : Cell F C → Prop
  | .switch x => (x.current.getD .nothing).Alien q ρ
  | .handle t => t.Alien q ρ
  | _ => True

/-- If the cell is one of streams, its stream writes nothing. -/
def Cell.Harmless : Cell F C → Prop
  | .stream x => x.Harmless q
  | _ => True

/-! ## Heaps -/

/-- The same registration in both runs. -/
structure Handler.Alike (o : ObjectId) (x y : Handler F C) : Prop where
  id : (ρ (.handler o)).pair x.id y.id
  timing : y.timing = x.timing
  property : y.property = x.property
  reportsOwner : y.reportsOwner = x.reportsOwner
  observer : x.observer.Alike q ρ y.observer

structure Handler.Alien (o : ObjectId) (x : Handler F C) : Prop where
  id : (ρ (.handler o)).alien x.id
  observer : x.observer.Alien q ρ

/-- The same observer of a subject in both runs. -/
structure Listener.Alike (j : SubjectId) (x y : Nat × Observer F C) : Prop where
  id : (ρ (.observer j)).pair x.1 y.1
  observer : x.2.Alike q ρ y.2

structure Listener.Alien (j : SubjectId) (x : Nat × Observer F C) : Prop where
  id : (ρ (.observer j)).alien x.1
  observer : x.2.Alien q ρ

/-- The second heap holds what the first one holds, and more. -/
structure Heap.Mirrors (h h' : Heap F C) : Prop where
  sound : ∀ k, (ρ k).Sound (h.count k) (h'.count k)
  cells : ∀ k i j, (ρ k).pair i j → (h.cell k i).Alike q ρ (h'.cell k j)
  aliens : ∀ k j, (ρ k).alien j → (h'.cell k j).Alien q ρ
  streams : ∀ i, (h'.stream i).Harmless q
  objects : h.objects.size = q.objects
  objects' : h'.objects.size = q.objects
  subjects : h.subjects.size = q.subjects
  subjects' : h'.subjects.size = q.subjects
  get : ∀ o p, q.alike ρ (h.get o p) (h'.get o p)
  supports : ∀ o t, h'.supports o t = h.supports o t
  handlers : ∀ o, Sifted (Handler.Alike q ρ o) (Handler.Alien q ρ o) (h.handlers o) (h'.handlers o)
  listeners : ∀ j, Sifted (Listener.Alike q ρ j) (Listener.Alien q ρ j) (h.roster (.subject j))
    (h'.roster (.subject j))
  schedulers : h'.schedulers.size = h.schedulers.size
  tasks : ∀ i, Option.Rel (Sifted (Task.Alike q ρ) (Task.Alien q ρ)) (h.tasks? i) (h'.tasks? i)

end Heaps

/-! ## More is tied -/

section Mono

variable {q : Setting F C S} {ρ ρ' : Ties} {r r' : StreamId → StreamId → Prop}

theorem rel_imp {α β : Type} {R R' : α → β → Prop} (hR : ∀ x y, R x y → R' x y) {x : Option α} {y : Option β}
    (h : Option.Rel R x y) : Option.Rel R' x y := by
  cases h with
  | none => exact .none
  | some h => exact .some (hR _ _ h)

theorem harmlessStreams_iff {xs : List (Stream F)} : harmlessStreams q xs ↔ ∀ x ∈ xs, x.Harmless q := by
  induction xs with
  | nil => simp [harmlessStreams]
  | cons x rest ih => simp [harmlessStreams, ih]

theorem alikeStreams_iff {xs ys : List (Stream F)} : alikeStreams q r xs ys ↔ List.Forall₂ (Stream.Alike q r) xs ys := by
  induction xs generalizing ys with
  | nil => simp [alikeStreams]
  | cons x rest ih => simp only [alikeStreams, ih, List.forall₂_cons_left_iff]

theorem alikeMembers_iff {ts us : List (Teardown C)} : alikeMembers ρ ts us ↔ List.Forall₂ (Teardown.Alike ρ) ts us := by
  induction ts generalizing us with
  | nil => simp [alikeMembers]
  | cons t rest ih => simp only [alikeMembers, ih, List.forall₂_cons_left_iff]

theorem alienMembers_iff {ts : List (Teardown C)} : alienMembers q ρ ts ↔ ∀ t ∈ ts, t.Alien q ρ := by
  induction ts with
  | nil => simp [alienMembers]
  | cons t rest ih => simp [alienMembers, ih]

theorem Mapping.Own.harmless {f : Mapping F} (h : f.Own q) : f.Harmless q := by
  cases f <;> first | exact h | trivial

mutual

theorem Stream.Alike.mono (hr : ∀ i j, r i j → r' i j) : ∀ {x y}, Stream.Alike q r x y → Stream.Alike q r' x y
  | .empty, _, h | .watch .., _, h | .constant .., _, h | .subject _, _, h => h
  | .just v, _, h => by
    obtain ⟨v', hv, rfl⟩ := h
    exact ⟨v', hv.mono hr, rfl⟩
  | .map x f, _, h | .filter x f, _, h => by
    obtain ⟨x', hx, hf, rfl⟩ := h
    exact ⟨x', hx.mono hr, hf, rfl⟩
  | .skip x _, _, h | .distinct x, _, h | .switch x _, _, h | .relocate x _, _, h => by
    obtain ⟨x', hx, rfl⟩ := h
    exact ⟨x', hx.mono hr, rfl⟩
  | .merge xs, _, h | .combineLatest xs, _, h => by
    obtain ⟨xs', hxs, rfl⟩ := h
    exact ⟨xs', alikeStreams_mono hr hxs, rfl⟩

theorem alikeStreams_mono (hr : ∀ i j, r i j → r' i j) :
    ∀ {xs ys}, alikeStreams q r xs ys → alikeStreams q r' xs ys
  | [], _, h => h
  | x :: rest, _, h => by
    obtain ⟨x', rest', hx, hrest, rfl⟩ := h
    exact ⟨x', rest', hx.mono hr, alikeStreams_mono hr hrest, rfl⟩

end

mutual

/-- Both runs do the same with such a stream, so it writes nothing. -/
theorem Stream.Alike.harmless : ∀ {x y}, Stream.Alike q r x y → y.Harmless q
  | .empty, _, h => by
    obtain rfl := h
    trivial
  | .watch .., _, h | .constant .., _, h | .subject _, _, h => by
    obtain ⟨-, rfl⟩ := h
    trivial
  | .just v, _, h => by
    obtain ⟨v', -, rfl⟩ := h
    trivial
  | .map x f, _, h => by
    obtain ⟨x', hx, hf, rfl⟩ := h
    exact ⟨hx.harmless, hf.harmless⟩
  | .filter x f, _, h => by
    obtain ⟨x', hx, hf, rfl⟩ := h
    exact ⟨hx.harmless, hf⟩
  | .skip x _, _, h | .distinct x, _, h | .switch x _, _, h | .relocate x _, _, h => by
    obtain ⟨x', hx, rfl⟩ := h
    exact hx.harmless
  | .merge xs, _, h | .combineLatest xs, _, h => by
    obtain ⟨xs', hxs, rfl⟩ := h
    exact harmlessStreams_of_alike hxs

theorem harmlessStreams_of_alike : ∀ {xs ys}, alikeStreams q r xs ys → harmlessStreams q ys
  | [], _, h => by
    obtain rfl := h
    trivial
  | x :: rest, _, h => by
    obtain ⟨x', rest', hx, hrest, rfl⟩ := h
    exact ⟨hx.harmless, harmlessStreams_of_alike hrest⟩

end

mutual

theorem Teardown.Alike.mono (hρ : ρ ≤ ρ') : ∀ {t u : Teardown C}, Teardown.Alike ρ t u → Teardown.Alike ρ' t u
  | .nothing, _, h => h
  | .handler .., _, h | .observer .., _, h => by
    obtain ⟨j, hj, rfl⟩ := h
    exact ⟨j, hρ.pair hj, rfl⟩
  | .relocate _ t, _, h | .switch _ t, _, h => by
    obtain ⟨j, t', hj, ht, rfl⟩ := h
    exact ⟨j, t', hρ.pair hj, ht.mono hρ, rfl⟩
  | .all ms, _, h => by
    obtain ⟨ms', hms, rfl⟩ := h
    exact ⟨ms', alikeMembers_mono hρ hms, rfl⟩

theorem alikeMembers_mono (hρ : ρ ≤ ρ') :
    ∀ {ts us : List (Teardown C)}, alikeMembers ρ ts us → alikeMembers ρ' ts us
  | [], _, h => h
  | t :: rest, _, h => by
    obtain ⟨t', rest', ht, hrest, rfl⟩ := h
    exact ⟨t', rest', ht.mono hρ, alikeMembers_mono hρ hrest, rfl⟩

end

mutual

theorem Teardown.Alien.mono (hρ : ρ ≤ ρ') : ∀ {t : Teardown C}, t.Alien q ρ → t.Alien q ρ'
  | .nothing, _ => trivial
  | .handler .., h | .observer .., h => fun hb => hρ.alien (h hb)
  | .relocate _ _, h | .switch _ _, h => ⟨hρ.alien h.1, h.2.mono hρ⟩
  | .all _, h => alienMembers_mono hρ h

theorem alienMembers_mono (hρ : ρ ≤ ρ') : ∀ {ts : List (Teardown C)}, alienMembers q ρ ts → alienMembers q ρ' ts
  | [], _ => trivial
  | _ :: _, h => ⟨h.1.mono hρ, alienMembers_mono hρ h.2⟩

end

variable (hρ : ρ ≤ ρ')
include hρ

theorem Observer.Alike.mono {x y : Observer F C} (h : x.Alike q ρ y) : x.Alike q ρ' y := by
  induction h with
  | client hc => exact .client hc
  | map hf _ ih => exact .map hf ih
  | filter hf _ ih => exact .filter hf ih
  | skip hi _ ih => exact .skip (hρ.pair hi) ih
  | distinct hi _ ih => exact .distinct (hρ.pair hi) ih
  | outer hi _ ih => exact .outer (hρ.pair hi) ih
  | inner hi _ ih => exact .inner (hρ.pair hi) ih
  | relocate hi _ ih => exact .relocate (hρ.pair hi) ih
  | slot hi _ ih => exact .slot (hρ.pair hi) ih

theorem Setting.alike_mono {v v' : Value} (h : q.alike ρ v v') : q.alike ρ' v v' :=
  Value.Alike.mono (fun _ _ => hρ.pair) h

theorem Task.Alike.mono {t u : Task F C} (h : t.Alike q ρ u) : t.Alike q ρ' u := by
  cases h with
  | deliver hi hx hv => exact .deliver (hρ.pair hi) (hx.mono hρ) (q.alike_mono hρ hv)
  | client hc => exact .client hc

theorem Request.Alike.mono {a b : Stream F × Observer F C} (h : Request.Alike q ρ a b) : Request.Alike q ρ' a b :=
  ⟨h.1.mono fun _ _ => hρ.pair, h.2.mono hρ⟩

theorem Observer.Alien.mono {x : Observer F C} (h : x.Alien q ρ) : x.Alien q ρ' := by
  induction x with
  | client c => exact h
  | write => exact h
  | map f y ih => exact ⟨h.1, ih h.2⟩
  | filter f y ih => exact ⟨h.1, ih h.2⟩
  | skip i y ih => exact ⟨hρ.alien h.1, ih h.2⟩
  | distinct i y ih => exact ⟨hρ.alien h.1, ih h.2⟩
  | outer i select y ih => exact ⟨hρ.alien h.1, ih h.2⟩
  | inner i g y ih => exact ⟨hρ.alien h.1, ih h.2⟩
  | relocate i s y ih => exact ⟨hρ.alien h.1, ih h.2⟩
  | slot i k y ih => exact ⟨hρ.alien h.1, ih h.2⟩

theorem Task.Alien.mono {t : Task F C} (h : t.Alien q ρ) : t.Alien q ρ' := by
  cases t with
  | deliver i y v => exact ⟨hρ.alien h.1, h.2.mono hρ⟩
  | client c => exact h

theorem Cell.Alike.mono {c d : Cell F C} (h : c.Alike q ρ d) : c.Alike q ρ' d := by
  cases c <;> cases d <;> try exact h
  case memory => exact rel_imp (fun _ _ => q.alike_mono hρ) h
  case join => exact List.Forall₂.imp (fun _ _ => rel_imp fun _ _ => q.alike_mono hρ) h
  case switch => exact ⟨h.1, h.2, h.3.mono hρ⟩
  case stream => exact Stream.Alike.mono (fun _ _ => hρ.pair) h
  case handle => exact Teardown.Alike.mono hρ h

theorem Cell.Alien.mono {c : Cell F C} (h : c.Alien q ρ) : c.Alien q ρ' := by
  cases c <;> try exact h
  case switch => exact Teardown.Alien.mono hρ h
  case handle => exact Teardown.Alien.mono hρ h

theorem Handler.Alike.mono {o : ObjectId} {x y : Handler F C} (h : x.Alike q ρ o y) : x.Alike q ρ' o y :=
  ⟨hρ.pair h.id, h.timing, h.property, h.reportsOwner, h.observer.mono hρ⟩

theorem Handler.Alien.mono {o : ObjectId} {x : Handler F C} (h : x.Alien q ρ o) : x.Alien q ρ' o :=
  ⟨hρ.alien h.id, h.observer.mono hρ⟩

theorem Listener.Alike.mono {j : SubjectId} {x y : Nat × Observer F C} (h : Listener.Alike q ρ j x y) :
    Listener.Alike q ρ' j x y :=
  ⟨hρ.pair h.id, h.observer.mono hρ⟩

theorem Listener.Alien.mono {j : SubjectId} {x : Nat × Observer F C} (h : Listener.Alien q ρ j x) :
    Listener.Alien q ρ' j x :=
  ⟨hρ.alien h.id, h.observer.mono hρ⟩

end Mono

end DataBinding
