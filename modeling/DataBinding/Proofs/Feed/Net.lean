import Mathlib.Data.List.Nodup
import Mathlib.Data.List.Pairwise
import DataBinding.Proofs.Feed.Links
/-!
# Feeds side by side

A feed is a subscription to a path for completed changes, with any observer at its end. Several feeds
are kept apart by their switches and the numbers of their handlers, and from what belongs to others
(`Net.Apart`). They run (`Net.Runs`) if all that is registered is theirs or others', each has followed its
path, and its end holds what it was given last.

When one handler is told of a change, the feeds run on, and that handler needs to be told no more
(`Net.tell`).
-/

namespace DataBinding

variable {F C S : Type}

/-! ## Feeds -/

/-- A subscription to a path: its root, the first property, the number of the handler for it, the links
after it, and what they feed. -/
structure Feed (F C : Type) where
  root : ObjectId
  first : String
  handler : Nat
  links : List Link
  tail : Observer F C

namespace Feed

variable (f : Feed F C) (G : ObjectId → Prop) (P : ObjectId → Nat → Prop) (h : Heap F C)

/-- The handler on the root. -/
def rootHandler : Handler F C := ⟨f.handler, .after, f.first, false, f.tail.linked .after f.links⟩

/-- A handler that the feed registers with an object. -/
def Owns (o : ObjectId) (x : Handler F C) : Prop :=
  (o = f.root ∧ x = f.rootHandler) ∨ x.OfLinks .after f.tail G f.links o

/-- A handler that the feed is registered with now. -/
def Listens (o : ObjectId) (x : Handler F C) : Prop :=
  x ∈ h.handlers o ∧ ((o = f.root ∧ x = f.rootHandler) ∨ G o ∧ ∃ l rest id, l :: rest <:+ f.links ∧
    (h.switch l.switch).current = some (.handler o id) ∧
      x = .link .after f.tail l rest id (h.switch l.switch).generation)

/-- The feed has followed its path and has come to this value; handlers are still to be told (`P`). -/
structure Runs (u : Value) : Prop where
  registered : f.rootHandler ∈ h.handlers f.root
  fed : ∃ v, (v = h.get f.root f.first ∨ P f.root f.handler) ∧ Fed .after f.tail G P h f.links v u
  tight : h.Tight f.links

end Feed

/-- Feeds along objects of this kind, and the observers and switches that are others'. -/
structure Net (F C : Type) where
  feeds : List (Feed F C)
  Within : ObjectId → Prop
  Other : Observer F C → Prop
  Foreign : Nat → Prop

namespace Net

variable (n : Net F C)

/-- The feeds are kept apart from each other and from others. -/
structure Apart : Prop where
  roots : ∀ f ∈ n.feeds, n.Within f.root
  named : ∀ f ∈ n.feeds, f.first ≠ "" ∧ ∀ l ∈ f.links, l.segment.property ≠ ""
  switches : (n.feeds.flatMap fun f => f.links.map Link.switch).Nodup
  handlers : n.feeds.Pairwise fun f f' => f.root = f'.root → f.handler ≠ f'.handler
  tails : ∀ f ∈ n.feeds, ∀ i g next, f.tail ≠ .inner i g next
  codes : ∀ f ∈ n.feeds, ∀ x, n.Other x → x.code? ≠ f.tail.code?
  foreign : ∀ f ∈ n.feeds, ∀ l ∈ f.links, ¬ n.Foreign l.switch
  inner : ∀ i g next, n.Other (.inner i g next) → n.Foreign i

/-- What registered handlers belong to. -/
def Covers (h : Heap F C) : Prop :=
  ∀ o, ∀ x ∈ h.handlers o, (∃ f ∈ n.feeds, f.Owns n.Within o x) ∨ n.Other x.observer

/-- A value to be followed: it equals itself, and if it is an object, then one of this kind. -/
def Admits (h : Heap F C) (v : Value) : Prop :=
  v.eqv v = true ∧ ∀ o, v = .object o → n.Within o ∧ o < h.objects.size

/-- What there is around the feeds. -/
structure Around (h : Heap F C) : Prop where
  numbered : h.Numbered
  closed : h.Closed
  supports : ∀ o < h.objects.size, n.Within o → h.supports o .after = true
  within : ∀ o p b, n.Within o → h.get o p = .object b → n.Within b
  equal : ∀ o p, n.Within o → (h.get o p).eqv (h.get o p) = true
  covers : n.Covers h

/-- All feeds run, and the end of each holds (`E`) the value that it has come to. -/
structure Runs (E : Feed F C → Option Value → World F C S → Prop) (P : ObjectId → Nat → Prop)
    (w : World F C S) : Prop extends n.Around w.heap where
  feeds : ∀ f ∈ n.feeds, ∃ u, f.Runs n.Within P w.heap u ∧ E f (some u) w

/-- A value has been taken at the end of a feed: the end holds it, those of other feeds what they did,
and nothing has become of the objects on the way. -/
structure Took (E : Feed F C → Option Value → World F C S → Prop) (Z : World F C S → World F C S → Prop)
    (f : Feed F C) (v : Value) (w w' : World F C S) : Prop where
  bypass : w.heap.Bypasses n.Within w'.heap
  closed : w.heap.Closed → w'.heap.Closed
  held : E f (some v) w'
  others : ∀ f' ∈ n.feeds, f' ≠ f → ∀ u, E f' u w → E f' u w'
  did : Z w w'

/-- What is delivered at the end of a feed is taken there, and what happens beside leaves the ends as they
are. -/
structure Takes (K : Client F C S) (E : Feed F C → Option Value → World F C S → Prop)
    (B : World F C S → World F C S → Prop) (Z : Feed F C → World F C S → World F C S → Prop) : Prop where
  aside : ∀ w w', w.heap.Aside w'.heap → w'.client = w.client → B w w'
  keeps : ∀ f ∈ n.feeds, ∀ u w w', B w w' → E f u w → E f u w'
  takes : ∀ f ∈ n.feeds, ∀ base v u w, n.Admits w.heap v → n.Covers w.heap → E f u w →
    State.Completes K base ⟨.run (.deliver f.tail v), base, w⟩ fun _ w' => n.Took E (Z f) f v w w'

/-- Telling others does nothing but what is beside. -/
def Spared (K : Client F C S) (B : World F C S → World F C S → Prop) : Prop :=
  ∀ x, n.Other x → ∀ base v w, w.heap.Numbered →
    State.Completes K base ⟨.run (.deliver x v), base, w⟩ fun _ w' =>
      w.heap.Turns n.Foreign (fun _ y => n.Other y.observer) w'.heap ∧ w.heap.Agrees w'.heap ∧ B w w'

/-- Handlers have been told: of the objects on the way nothing has become, and this was done. -/
structure Told (Z : World F C S → World F C S → Prop) (w w' : World F C S) : Prop where
  turns : w.heap.Turns (fun _ => True) (fun _ _ => True) w'.heap
  onward : w.heap.Onward (fun i => ¬ n.Foreign i) w'.heap
  get : ∀ o p, n.Within o → w'.heap.get o p = w.heap.get o p
  did : Z w w'

end Net

/-! ## One feed -/

@[simp] theorem Observer.code?_linked (t : Timing) (tail : Observer F C) (links : List Link) :
    (tail.linked t links).code? = tail.code? := by
  induction links with
  | nil => rfl
  | cons l rest ih => exact ih

/-- What is watched for a link belongs to no switch, unless the observer at the end does. -/
theorem Observer.linked_ne_inner {tail : Observer F C} (ht : ∀ i g next, tail ≠ .inner i g next) (t : Timing)
    (links : List Link) (i g : Nat) (next : Observer F C) : tail.linked t links ≠ .inner i g next := by
  cases links with
  | nil => exact ht i g next
  | cons => simp [linked]

namespace Feed

variable {f : Feed F C} {G : ObjectId → Prop} {P Q : ObjectId → Nat → Prop} {h h' : Heap F C}
  {o : ObjectId} {x : Handler F C} {u : Value}

theorem Owns.within (hx : f.Owns G o x) (hr : G f.root) : G o := by
  obtain ⟨rfl, -⟩ | hx := hx
  · exact hr
  · exact hx.1

theorem Owns.code (hx : f.Owns G o x) : x.observer.code? = f.tail.code? := by
  obtain ⟨-, rfl⟩ | ⟨-, l, rest, id, g, -, rfl⟩ := hx
  · exact Observer.code?_linked ..
  · exact Observer.code?_linked ..

theorem Owns.timing (hx : f.Owns G o x) : x.timing = .after ∧ x.reportsOwner = false := by
  obtain ⟨-, rfl⟩ | ⟨-, l, rest, id, g, -, rfl⟩ := hx <;> exact ⟨rfl, rfl⟩

theorem Owns.named (hx : f.Owns G o x) (hf : f.first ≠ "" ∧ ∀ l ∈ f.links, l.segment.property ≠ "") :
    x.property ≠ "" := by
  obtain ⟨-, rfl⟩ | ⟨-, l, rest, id, g, hs, rfl⟩ := hx
  · exact hf.1
  · exact hf.2 l (hs.subset List.mem_cons_self)

theorem Listens.owns (hx : f.Listens G h o x) : f.Owns G o x := by
  obtain ⟨-, hx | ⟨ho, l, rest, id, hs, -, rfl⟩⟩ := hx
  · exact .inl hx
  · exact .inr ⟨ho, l, rest, id, _, hs, rfl⟩

/-- A feed runs on where its switches and registrations stay, and what these were told last is what the
property holds, or is still to be told. -/
theorem Runs.transfer (hf : f.Runs G P h u)
    (hsw : ∀ l ∈ f.links, h'.switch l.switch = h.switch l.switch)
    (hmade : ∀ o, ∀ x ∈ h'.handlers o, x ∈ h.handlers o ∨
      ∀ l ∈ f.links, ∀ g next, x.observer ≠ .inner l.switch g next)
    (hreg : ∀ o x, f.Listens G h o x → x ∈ h'.handlers o ∧
      (h'.get o x.property = h.get o x.property ∨ Q o x.id) ∧ (P o x.id → Q o x.id)) :
    f.Runs G Q h' u := by
  obtain ⟨v, hv, hfed⟩ := hf.fed
  obtain ⟨hroot, hget, hp⟩ := hreg f.root f.rootHandler ⟨hf.registered, .inl ⟨rfl, rfl⟩⟩
  refine ⟨hroot, ⟨v, ?_, hfed.transfer hsw ?_⟩, fun l hl o x hx g next he => ?_⟩
  · obtain hv | hv := hv
    · exact hget.imp_left fun he => hv.trans he.symm
    · exact .inr (hp hv)
  · intro l rest hs o id hcur ho hx
    exact hreg o _ ⟨hx, .inr ⟨ho, l, rest, id, hs, hcur, rfl⟩⟩
  · rw [hsw l hl]
    exact hf.tight l hl o x ((hmade o x hx).resolve_right fun hn => hn l hl g next he) g next he

theorem Runs.mono (hf : f.Runs G P h u) (hp : ∀ o x, f.Listens G h o x → P o x.id → Q o x.id) :
    f.Runs G Q h u :=
  hf.transfer (fun _ _ => rfl) (fun _ _ hx => .inl hx) fun o x hx => ⟨hx.1, .inl rfl, hp o x hx⟩

/-- Links are ready to be followed anew. -/
theorem Runs.ready (hf : f.Runs G P h u) (hn : (f.links.map Link.switch).Nodup) : h.Ready f.links := by
  obtain ⟨v, -, hfed⟩ := hf.fed
  exact ⟨hn, hfed.running, hf.tight.loose⟩

end Feed

theorem Heap.Ready.suffix {h : Heap F C} {links rest : List Link} (hr : h.Ready links)
    (hs : rest <:+ links) : h.Ready rest :=
  ⟨hr.nodup.sublist (hs.sublist.map _), fun l hl => hr.running l (hs.subset hl), hr.loose.suffix hs⟩

/-! ## Several feeds -/

namespace Net

variable {n : Net F C} {K : Client F C S} {E : Feed F C → Option Value → World F C S → Prop}
  {B Z : World F C S → World F C S → Prop} {P Q : ObjectId → Nat → Prop} {f f' : Feed F C}
  {w w' w'' : World F C S} {o : ObjectId} {x : Handler F C}

namespace Apart

/-- No feeds are apart. -/
theorem of_nil (hn : n.feeds = []) (hinner : ∀ i g next, n.Other (.inner i g next) → n.Foreign i) :
    n.Apart where
  roots := by simp [hn]
  named := by simp [hn]
  switches := by simp [hn]
  handlers := by simp [hn]
  tails := by simp [hn]
  codes := by simp [hn]
  foreign := by simp [hn]
  inner := hinner

variable (ha : n.Apart)
include ha

theorem nodup (hf : f ∈ n.feeds) : (f.links.map Link.switch).Nodup :=
  (List.nodup_flatMap.1 ha.switches).1 f hf

/-- A switch belongs to one feed. -/
theorem eq_of_switch (hf : f ∈ n.feeds) (hf' : f' ∈ n.feeds) {l l' : Link} (hl : l ∈ f.links)
    (hl' : l' ∈ f'.links) (he : l'.switch = l.switch) : f' = f := by
  by_contra hne
  have : Std.Symm (Function.onFun List.Disjoint fun f : Feed F C => f.links.map Link.switch) :=
    ⟨fun _ _ hd _ hx hy => hd hy hx⟩
  have hd := (List.nodup_flatMap.1 ha.switches).2.forall hf' hf hne
  exact hd (List.mem_map_of_mem hl') (he ▸ List.mem_map_of_mem hl)

/-- A handler belongs to one feed. -/
theorem eq_of_owns (hf : f ∈ n.feeds) (hf' : f' ∈ n.feeds) (hx : f.Owns n.Within o x)
    (hx' : f'.Owns n.Within o x) : f' = f := by
  obtain ⟨rfl, rfl⟩ | hx := hx
  · obtain ⟨hroot, hx'⟩ | hx' := hx'
    · by_contra hne
      have : Std.Symm fun f f' : Feed F C => f.root = f'.root → f.handler ≠ f'.handler :=
        ⟨fun _ _ hd he => (hd he.symm).symm⟩
      have hd := ha.handlers.forall hf hf' (Ne.symm hne)
      exact hd hroot (congrArg Handler.id hx')
    · obtain ⟨l, -, g, next, he⟩ := hx'.switch
      exact absurd he (Observer.linked_ne_inner (ha.tails f hf) _ _ _ _ _)
  · obtain ⟨l, hl, g, next, he⟩ := hx.switch
    obtain ⟨-, rfl⟩ | hx' := hx'
    · exact absurd he (Observer.linked_ne_inner (ha.tails f' hf') _ _ _ _ _)
    · obtain ⟨l', hl', g', next', he'⟩ := hx'.switch
      rw [he', Observer.inner.injEq] at he
      exact ha.eq_of_switch hf hf' hl hl' he.1

/-- A handler is a feed's or others'. -/
theorem not_other (hf : f ∈ n.feeds) (hx : f.Owns n.Within o x) : ¬ n.Other x.observer :=
  fun ho => ha.codes f hf _ ho hx.code

/-- A handler of a feed that belongs to a switch belongs to one of the feed's. -/
theorem switch_of_owns (hf : f ∈ n.feeds) (hx : f.Owns n.Within o x) {i g : Nat} {next : Observer F C}
    (he : x.observer = .inner i g next) : ∃ l ∈ f.links, l.switch = i := by
  obtain ⟨-, rfl⟩ | hx := hx
  · exact absurd he (Observer.linked_ne_inner (ha.tails f hf) _ _ _ _ _)
  · obtain ⟨l, hl, g', next', he'⟩ := hx.switch
    rw [he', Observer.inner.injEq] at he
    exact ⟨l, hl, he.1⟩

end Apart

theorem Around.admits_get {h : Heap F C} (hh : n.Around h) (ho : n.Within o) (p : String) :
    n.Admits h (h.get o p) :=
  ⟨hh.equal o p ho, fun b hb => ⟨hh.within o p b ho hb, hh.closed o p b hb⟩⟩

/-- What is read along a path from a value that may be followed may be followed. -/
theorem Around.admits_readFrom {h : Heap F C} (hh : n.Around h) {v : Value} (hv : n.Admits h v)
    (l : List Segment) : n.Admits h (h.readFrom v l) :=
  Heap.readFrom_keeps ⟨rfl, nofun⟩ (fun _ p ho => hh.admits_get (ho.2 _ rfl).1 p) hv l

/-- Things stay as they are around the feeds, if nothing becomes of the objects on the way. -/
theorem Around.congr {h h' : Heap F C} (hh : n.Around h) {I : Nat → Prop}
    {New : ObjectId → Handler F C → Prop} (ht : h.Turns I New h') (hc : h'.Closed)
    (hg : ∀ o p, n.Within o → h'.get o p = h.get o p)
    (hnew : ∀ o x, New o x → (∃ f ∈ n.feeds, f.Owns n.Within o x) ∨ n.Other x.observer) : n.Around h' where
  numbered := ht.numbered hh.numbered
  closed := hc
  supports o hlt ho := by
    rw [ht.supports]
    exact hh.supports o (ht.objects ▸ hlt) ho
  within o p b ho hb := hh.within o p b ho (hg o p ho ▸ hb)
  equal o p ho := by
    rw [hg o p ho]
    exact hh.equal o p ho
  covers o x hx := (ht.made o x hx).elim (hh.covers o x) (hnew o x)

namespace Told

theorem refl (hz : Z w w) : n.Told Z w w := ⟨.refl _, .of_switch fun _ _ => rfl, fun _ _ _ => rfl, hz⟩

theorem trans (hz : ∀ w w' w'', Z w w' → Z w' w'' → Z w w'') (a : n.Told Z w w') (b : n.Told Z w' w'') :
    n.Told Z w w'' :=
  ⟨a.turns.trans b.turns, a.onward.trans b.onward, fun o p ho => (b.get o p ho).trans (a.get o p ho), hz _ _ _ a.did b.did⟩

end Told

/-- Less may be said of what is done at the ends. -/
theorem Takes.mono {Z Z' : Feed F C → World F C S → World F C S → Prop} (ht : n.Takes K E B Z)
    (hz : ∀ f w w', Z f w w' → Z' f w w') : n.Takes K E B Z' :=
  { ht with
    takes := fun f hf base v u w hv hc he => (ht.takes f hf base v u w hv hc he).mono fun _ w' h =>
      { h with did := hz f w w' h.did } }

theorem Runs.mono (hw : n.Runs E P w)
    (hp : ∀ f ∈ n.feeds, ∀ o x, f.Listens n.Within w.heap o x → P o x.id → Q o x.id) : n.Runs E Q w :=
  { hw with
    feeds := fun f hf => by
      obtain ⟨u, hu, he⟩ := hw.feeds f hf
      exact ⟨u, hu.mono (hp f hf), he⟩ }

end Net

end DataBinding
