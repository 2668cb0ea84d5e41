import DataBinding.Proofs.Feed.Net
/-!
# Feeds are told of a change

When one handler is told of a change, the feeds run on, and that handler needs to be told no more
(`Net.Runs.tell`). So the feeds run on when all handlers for a property are told (`Net.Runs.notify`), and
when a property is assigned (`Net.Runs.set`).
-/

namespace DataBinding

variable {F C S : Type} {n : Net F C} {K : Client F C S}
  {E : Feed F C → Option Value → World F C S → Prop} {B Z : World F C S → World F C S → Prop}
  {P Q : ObjectId → Nat → Prop} {f f' : Feed F C} {w w' w'' : World F C S} {o : ObjectId}
  {x y : Handler F C} {u v : Value} {h₀ : Heap F C} {base : List (Frame F C)}

open State

namespace Net

/-! ## What is delivered to links -/

/-- A feed runs on where links of another one are given a value. -/
theorem Apart.beside (ha : n.Apart) (hf : f ∈ n.feeds) (hf' : f' ∈ n.feeds) (hne : f' ≠ f)
    {todo : List Link} (hs : todo <:+ f.links) {R : World F C S → World F C S → Prop}
    (hd : Delivered .after f.tail n.Within todo v R w w') (hu : f'.Runs n.Within P w.heap u)
    (hp : ∀ o y, f'.Listens n.Within w.heap o y → P o y.id → Q o y.id) :
    f'.Runs n.Within Q w'.heap u := by
  have hother : ∀ l ∈ f'.links, l.switch ∉ todo.map Link.switch := fun l hl hm => by
    obtain ⟨l', hl', he⟩ := List.mem_map.1 hm
    exact hne (ha.eq_of_switch hf hf' (hs.subset hl') hl he.symm)
  refine hu.transfer (fun l hl => hd.turns.switch _ (hother l hl)) (fun o x hx => ?_)
    fun o y hy => ⟨hd.turns.kept o y hy.1 fun i g next he hi => ?_, .inl (hd.bypass _ _ ?_), hp o y hy⟩
  · refine (hd.turns.made o x hx).imp_right fun hnew l hl g next he => ?_
    obtain ⟨l', hl', g', next', he'⟩ := hnew.switch
    rw [he', Observer.inner.injEq] at he
    exact hother l hl (he.1 ▸ List.mem_map_of_mem hl')
  · obtain ⟨l, hl, rfl⟩ := ha.switch_of_owns hf' hy.owns he
    exact hother l hl hi
  · exact hy.owns.within (ha.roots f' hf')

namespace Runs

/-- A feed runs on where others do things. -/
theorem spared (ha : n.Apart) (ht : n.Takes K E B fun _ => Z) (hw : n.Runs E P w) (hB : B w w')
    (hturns : w.heap.Turns n.Foreign (fun _ y => n.Other y.observer) w'.heap)
    (hagrees : w.heap.Agrees w'.heap)
    (hp : ∀ f ∈ n.feeds, ∀ o y, f.Listens n.Within w.heap o y → P o y.id → Q o y.id) : n.Runs E Q w' where
  toAround := hw.toAround.congr hturns (hagrees.closed hw.closed) (fun o p _ => hagrees.get o p)
    fun _ _ hx => .inr hx
  feeds f hf := by
    obtain ⟨u, hu, he⟩ := hw.feeds f hf
    refine ⟨u, hu.transfer (fun l hl => hturns.switch _ (ha.foreign f hf l hl)) (fun o x hx => ?_)
      fun o y hy => ⟨hturns.kept o y hy.1 fun i g next he hi => ?_, .inl (hagrees.get ..), hp f hf o y hy⟩,
      ht.keeps f hf _ _ _ hB he⟩
    · refine (hturns.made o x hx).imp_right fun hother l hl g next he => ?_
      exact ha.foreign f hf l hl (ha.inner _ g next (he ▸ hother))
    · obtain ⟨l, hl, rfl⟩ := ha.switch_of_owns hf hy.owns he
      exact ha.foreign f hf l hl hi

/-- Once the links of a feed have been given a value, all feeds run on, if that one does. -/
theorem delivered (ha : n.Apart) (ht : n.Takes K E B fun _ => Z) (hz : ∀ w w', B w w' → Z w w')
    (htrans : ∀ w w' w'', Z w w' → Z w' w'' → Z w w'') (hw : n.Runs E P w) (hf : f ∈ n.feeds)
    {todo : List Link} (hs : todo <:+ f.links)
    (hd : Delivered .after f.tail n.Within todo v (n.Took E Z f u) w w')
    (hu : f.Runs n.Within Q w'.heap u)
    (hp : ∀ f' ∈ n.feeds, f' ≠ f → ∀ o y, f'.Listens n.Within w.heap o y → P o y.id → Q o y.id) :
    n.Runs E Q w' ∧ n.Told Z w w' := by
  obtain ⟨h₁, w₂, ha₁, htook, ha₂, hclient⟩ := hd.done
  have hB₁ : B w ⟨h₁, w.client⟩ := ht.aside _ _ ha₁ rfl
  have hB₂ : B w₂ w' := ht.aside _ _ ha₂ hclient
  have hall : w.heap.Turns (fun _ => True) (fun _ _ => True) w'.heap :=
    hd.turns.mono (fun _ _ => trivial) fun _ _ _ => trivial
  refine ⟨⟨hw.toAround.congr hd.turns (ha₂.closed (htook.closed (ha₁.closed hw.closed))) hd.bypass
    fun o x hx => .inl ⟨f, hf, .inr (hx.mono hs)⟩, fun f' hf' => ?_⟩, hall, hd.onward.mono fun _ _ => trivial,
    hd.bypass,
    htrans _ _ _ (hz _ _ hB₁) (htrans _ _ _ htook.did (hz _ _ hB₂))⟩
  by_cases hne : f' = f
  · subst hne
    exact ⟨u, hu, ht.keeps f' hf _ _ _ hB₂ htook.held⟩
  · obtain ⟨u', hu', he⟩ := hw.feeds f' hf'
    exact ⟨u', ha.beside hf hf' hne hs hd hu' (hp f' hf' hne), ht.keeps f' hf' _ _ _ hB₂
      (htook.others f' hf' hne _ (ht.keeps f' hf' _ _ _ hB₁ he))⟩

/-- Links of a feed that runs are given a value. -/
theorem deliver (ha : n.Apart) (ht : n.Takes K E B fun _ => Z) (hw : n.Runs E P w) (hf : f ∈ n.feeds)
    {todo : List Link} (hs : todo <:+ f.links) (hv : n.Admits w.heap v)
    (hkept : ∀ b, v = .object b → KeptObject K base w.client w.heap b) :
    Completes K base ⟨.run (.deliver (f.tail.linked .after todo) v), base, w⟩ fun _ w' =>
      Delivered .after f.tail n.Within todo v
        (n.Took E Z f (w.heap.readFrom v (todo.map Link.segment))) w w' := by
  obtain ⟨u, hu, he⟩ := hw.feeds f hf
  have hnames := (ha.named f hf).2
  refine completes_linked (fun _ _ h => h.bypass) (fun l hl => hnames l (hs.subset hl))
    ((hu.ready (ha.nodup hf)).suffix hs) hw.numbered hw.closed hw.within
    (fun b hb => ⟨(hv.2 b hb).1, hkept b hb⟩) fun base' h₁ ha₁ hturns => ?_
  refine ht.takes f hf base' _ (some u) ⟨h₁, w.client⟩ ?_ (fun o x hx => ?_)
    (ht.keeps f hf _ _ _ (ht.aside _ _ ha₁ rfl) he)
  · have hr := hw.toAround.admits_readFrom hv (todo.map Link.segment)
    exact ⟨hr.1, fun o ho => (hr.2 o ho).imp_right fun hlt => ha₁.size ▸ hlt⟩
  · exact (hturns.made o x hx).elim (hw.covers o x) fun hx => .inl ⟨f, hf, .inr (hx.mono hs)⟩

end Runs

/-! ## One handler -/

/-- All that is still to be told, but for one handler. -/
def Without (P : ObjectId → Nat → Prop) (o : ObjectId) (x : Handler F C) (a : ObjectId) (id : Nat) : Prop :=
  P a id ∧ ¬ (a = o ∧ id = x.id)

/-- A handler of a snapshot, and what has become of the heap since. -/
structure Since (n : Net F C) (h₀ h : Heap F C) (o : ObjectId) (x : Handler F C) : Prop where
  numbered : h₀.Numbered
  tight : ∀ f ∈ n.feeds, h₀.Tight f.links
  turns : h₀.Turns (fun _ => True) (fun _ _ => True) h
  onward : h₀.Onward (fun i => ¬ n.Foreign i) h
  mem : x ∈ h₀.handlers o

namespace Since

variable (hx : n.Since h₀ w.heap o x)
include hx

/-- What is registered under the same number is the same handler. -/
theorem eq_of_id {y : Handler F C} (hy : y ∈ w.heap.handlers o) (he : y.id = x.id) : y = x :=
  hx.turns.old hx.numbered hx.mem hy he

/-- A handler that a feed listens with is the one of the snapshot, or another one is still to be told. -/
theorem without {y : Handler F C} {a : ObjectId} (hy : y ∈ w.heap.handlers a)
    (hne : a = o → y ≠ x) (hp : P a y.id) : Without P o x a y.id :=
  ⟨hp, fun ⟨ha, he⟩ => hne ha (by subst ha; exact hx.eq_of_id hy he)⟩

/-- If a feed's handler is of the latest generation, the feed listens with it. -/
theorem listens (ha : n.Apart) {l : Link} {rest : List Link} {id g : Nat} (hf : f ∈ n.feeds)
    (hs : l :: rest <:+ f.links) (he : x = .link .after f.tail l rest id g)
    (hg : (w.heap.switch l.switch).generation = g) (hu : f.Runs n.Within P w.heap u) :
    w.heap.switch l.switch = ⟨g, some (.handler o id), false⟩ := by
  have hl : l ∈ f.links := hs.subset List.mem_cons_self
  obtain ⟨hle, hcur⟩ := hx.tight f hf l hl o x hx.mem g _ (by rw [he]; rfl)
  have hown := ha.foreign f hf l hl
  have hon := hx.onward.le l.switch hown
  have hsame : (w.heap.switch l.switch).generation = (h₀.switch l.switch).generation := by omega
  have hstill := hx.onward.still l.switch hown hsame
  have hcurrent : (w.heap.switch l.switch).current = some (.handler o id) := by
    rw [hstill, hcur (by omega), he]
    rfl
  obtain ⟨v, -, hfed⟩ := hu.fed
  have hrun := hfed.running l hl
  cases hc : w.heap.switch l.switch
  rw [hc] at hg hcurrent hrun
  simp_all

end Since

/-- The handlers of a link tell its switch. -/
theorem Apart.switch_notMem (ha : n.Apart) (hf : f ∈ n.feeds) {rest : List Link} (hs : rest <:+ f.links)
    {e : Link} (he : e ∈ f.links) (hn : e ∉ rest) : e.switch ∉ rest.map Link.switch := fun hm => by
  obtain ⟨e', he', heq⟩ := List.mem_map.1 hm
  exact hn (List.inj_on_of_nodup_map (ha.nodup hf) (hs.subset he') he heq ▸ he')

/-- Handlers that another feed listens with are not the one that is told. -/
theorem Since.without_of_ne (hx : n.Since h₀ w.heap o x) (ha : n.Apart) (hf : f ∈ n.feeds)
    (howns : f.Owns n.Within o x) (hf' : f' ∈ n.feeds) (hne : f' ≠ f) {a : ObjectId}
    (hy : f'.Listens n.Within w.heap a y) (hp : P a y.id) : Without P o x a y.id := by
  refine hx.without hy.1 (fun hao he => hne ?_) hp
  subst hao he
  exact ha.eq_of_owns hf hf' howns hy.owns

/-- A feed whose link has been told runs on from the value that the links after it have been given. -/
theorem Since.replaced (hx : n.Since h₀ w.heap o x) (ha : n.Apart) (hf : f ∈ n.feeds) (ho : n.Within o)
    {l : Link} {rest : List Link} {i g : Nat} (hs : l :: rest <:+ f.links)
    (he : x = .link .after f.tail l rest i g) (hv : v = w.heap.get o x.property)
    (hcur : (w.heap.switch l.switch).current = some (.handler o i)) (hu : f.Runs n.Within P w.heap u)
    {R : World F C S → World F C S → Prop} (hd : Delivered .after f.tail n.Within rest v R w w') :
    f.Runs n.Within (Without P o x) w'.heap (w.heap.readFrom v (rest.map Link.segment)) := by
  have hrest : rest <:+ f.links := (List.suffix_cons ..).trans hs
  have hl : l ∈ f.links := hs.subset List.mem_cons_self
  have hobs : x.observer = .inner l.switch g (f.tail.linked .after rest) := by rw [he]; rfl
  refine ⟨?_, ?_, ?_⟩
  · exact hd.turns.kept _ _ hu.registered fun i g next he =>
      absurd he (Observer.linked_ne_inner (ha.tails f hf) _ _ _ _ _)
  · obtain ⟨v₀, hv₀, hfed⟩ := hu.fed
    refine ⟨v₀, ?_, hfed.replace hs (ha.nodup hf) hcur
      (hd.fed.transfer (fun _ _ => rfl) fun _ _ _ _ _ _ _ hx => ⟨hx, .inl rfl, False.elim⟩) ?_
      (fun e he hn => hd.turns.switch _ (ha.switch_notMem hf hrest he hn)) ?_⟩
    · rw [hd.bypass _ _ (ha.roots f hf)]
      refine hv₀.imp_right fun hp => hx.without (y := f.rootHandler) hu.registered (fun _ heq => ?_) hp
      rw [← heq] at hobs
      exact absurd hobs (Observer.linked_ne_inner (ha.tails f hf) _ _ _ _ _)
    · rw [hv, he]
      exact (hd.bypass _ _ ho).symm
    -- links before this one listen as they did
    · intro e rest' hs' hn a m hcur haw hy
      refine ⟨hd.turns.kept _ _ hy fun i g next heq hi => ?_, fun hel => ⟨.inl (hd.bypass _ _ haw),
        fun hp => hx.without hy (fun hao heq => hel ?_) hp⟩⟩
      · rw [Handler.link, Observer.inner.injEq] at heq
        exact ha.switch_notMem hf hrest (hs'.subset List.mem_cons_self) hn (heq.1 ▸ hi)
      · rw [heq.symm, Handler.link, Observer.inner.injEq] at hobs
        exact List.inj_on_of_nodup_map (ha.nodup hf) (hs'.subset List.mem_cons_self) hl hobs.1
  · intro e he' a y hy g' next heq
    by_cases hn : e ∈ rest
    · exact hd.tight e hn a y hy g' next heq
    · rw [hd.turns.switch _ (ha.switch_notMem hf hrest he' hn)]
      refine hu.tight e he' a y ((hd.turns.made a y hy).resolve_right fun hnew => ?_) g' next heq
      obtain ⟨e', he'', g'', next', heq'⟩ := hnew.switch
      rw [heq', Observer.inner.injEq] at heq
      exact ha.switch_notMem hf hrest he' hn (heq.1 ▸ List.mem_map_of_mem he'')

section Tell
variable (ha : n.Apart) (ht : n.Takes K E B fun _ => Z) (hz : ∀ w w', B w w' → Z w w')
  (htrans : ∀ w w' w'', Z w w' → Z w' w'' → Z w w'') (hw : n.Runs E P w) (hx : n.Since h₀ w.heap o x)
  (hf : f ∈ n.feeds) (hv : v = w.heap.get o x.property)
  (hkept : ∀ b, v = .object b → b < w.heap.objects.size → KeptObject K base w.client w.heap b)
include ha ht hz htrans hw hx hf hv hkept

/-- The handler on the root of a feed is told. -/
theorem Runs.tell_root (ho : o = f.root) (he : x = f.rootHandler) :
    Completes K base ⟨.run (.deliver x.observer v), base, w⟩ fun _ w' =>
      n.Runs E (Without P o x) w' ∧ n.Told Z w w' := by
  have howns : f.Owns n.Within o x := .inl ⟨ho, he⟩
  have hwithin := howns.within (ha.roots f hf)
  have hadmits : n.Admits w.heap v := hv ▸ hw.admits_get hwithin _
  obtain ⟨u₀, hu₀, -⟩ := hw.feeds f hf
  subst ho he
  refine (hw.deliver ha ht hf (List.suffix_refl _) hadmits fun b hb => hkept b hb (hadmits.2 b hb).2).mono
    fun _ w' hd => hw.delivered ha ht hz htrans hf (List.suffix_refl _) hd ⟨?_, ⟨v, .inl ?_, ?_⟩, hd.tight⟩
      fun f' hf' hne a y hy => hx.without_of_ne ha hf howns hf' hne hy
  · exact hd.turns.kept _ _ hu₀.registered fun i g next he =>
      absurd he (Observer.linked_ne_inner (ha.tails f hf) _ _ _ _ _)
  · exact hv.trans (hd.bypass _ _ hwithin).symm
  · exact hd.fed.transfer (fun _ _ => rfl) fun _ _ _ _ _ _ _ hx => ⟨hx, .inl rfl, False.elim⟩

/-- The handler of a link of a feed is told. -/
theorem Runs.tell_link {l : Link} {rest : List Link} {i g : Nat} (ho : n.Within o)
    (hs : l :: rest <:+ f.links) (he : x = .link .after f.tail l rest i g) :
    Completes K base ⟨.run (.deliver x.observer v), base, w⟩ fun _ w' =>
      n.Runs E (Without P o x) w' ∧ n.Told Z w w' := by
  have howns : f.Owns n.Within o x := .inr ⟨ho, l, rest, i, g, hs, he⟩
  have hadmits : n.Admits w.heap v := hv ▸ hw.admits_get ho _
  have hrest : rest <:+ f.links := (List.suffix_cons ..).trans hs
  obtain ⟨u₀, hu₀, -⟩ := hw.feeds f hf
  have hobs : x.observer = .inner l.switch g (f.tail.linked .after rest) := by rw [he]; rfl
  rw [hobs]
  by_cases hg : (w.heap.switch l.switch).generation = g
  · have hcell := hx.listens ha hf hs he hg hu₀
    refine .step id ((step_inner (k := w.client) (by rw [hcell]) hg v).symm ▸ ?_)
    exact (hw.deliver ha ht hf hrest hadmits fun b hb => hkept b hb (hadmits.2 b hb).2).mono fun _ w' hd =>
      hw.delivered ha ht hz htrans hf hrest hd (hx.replaced ha hf ho hs he hv (by rw [hcell]) hu₀ hd)
        fun f' hf' hne a y hy => hx.without_of_ne ha hf howns hf' hne hy
  -- the link has gone on since, and nothing is done
  · refine .step id ((step_inner_late (k := w.client) hg v).symm ▸ .pass ⟨hw.mono fun f' hf' a y hy =>
      hx.without hy.1 fun hao heq => hg ?_, .refl (hz _ _ (ht.aside _ _ (.refl _) rfl))⟩)
    subst hao heq
    obtain rfl := ha.eq_of_owns hf hf' howns hy.owns
    obtain ⟨-, ⟨-, rfl⟩ | ⟨-, l', rest', id', -, -, rfl⟩⟩ := hy
    · exact absurd hobs (Observer.linked_ne_inner (ha.tails _ hf) _ _ _ _ _)
    · rw [Handler.link, Observer.inner.injEq] at hobs
      rw [← hobs.1]
      exact hobs.2.1

end Tell

/-- A handler is told: the feeds run on, and it needs to be told no more. -/
theorem Runs.tell (ha : n.Apart) (ht : n.Takes K E B fun _ => Z) (hsp : n.Spared K B) (hz : ∀ w w', B w w' → Z w w')
    (htrans : ∀ w w' w'', Z w w' → Z w' w'' → Z w w'') (hw : n.Runs E P w) (hx : n.Since h₀ w.heap o x)
    (hcover : (∃ f ∈ n.feeds, f.Owns n.Within o x ∧ v = w.heap.get o x.property) ∨ n.Other x.observer)
    (hkept : ∀ b, v = .object b → b < w.heap.objects.size → KeptObject K base w.client w.heap b) :
    Completes K base ⟨.run (.deliver x.observer v), base, w⟩ fun _ w' =>
      n.Runs E (Without P o x) w' ∧ n.Told Z w w' := by
  obtain ⟨f, hf, ⟨ho, he⟩ | ⟨ho, l, rest, id, g, hs, he⟩, hv⟩ | hother := hcover
  · exact hw.tell_root ha ht hz htrans hx hf hv hkept ho he
  · exact hw.tell_link ha ht hz htrans hx hf hv hkept ho hs he
  · refine (hsp _ hother base v w hw.numbered).mono fun _ w' ⟨hturns, hagrees, hB⟩ =>
      ⟨hw.spared ha ht hB hturns hagrees fun f hf a y hy => hx.without hy.1 fun hao heq => ?_,
        hturns.mono (fun _ _ => trivial) fun _ _ _ => trivial, .of_switch hturns.switch, fun a p _ => hagrees.get a p, hz _ _ hB⟩
    exact ha.not_other hf hy.owns (heq ▸ hother)

/-! ## All handlers for a property -/

theorem Since.told (hx : n.Since h₀ w.heap o x) (ht : n.Told Z w w') : n.Since h₀ w'.heap o x :=
  { hx with turns := hx.turns.trans ht.turns, onward := hx.onward.trans ht.onward }

/-- All that is still to be told, but for these handlers. -/
def Without.All (P : ObjectId → Nat → Prop) (o : ObjectId) (l : List (Handler F C)) (a : ObjectId)
    (id : Nat) : Prop :=
  P a id ∧ ∀ x ∈ l, ¬ (a = o ∧ id = x.id)

section Notify
variable (ha : n.Apart) (ht : n.Takes K E B fun _ => Z) (hsp : n.Spared K B) (hz : ∀ w w', B w w' → Z w w')
  (htrans : ∀ w w' w'', Z w w' → Z w' w'' → Z w w'')
include ha ht hsp hz htrans

/-- The handlers of a snapshot are told, one after the other. -/
theorem Runs.notify {l : List (Handler F C)} (hw : n.Runs E P w) (hl : ∀ x ∈ l, n.Since h₀ w.heap o x ∧
      ((∃ f ∈ n.feeds, f.Owns n.Within o x ∧ v = w.heap.get o x.property) ∨ n.Other x.observer))
    (ctl : Control F C) :
    Completes K base (stepNotify ⟨ctl, base, w⟩ o v l) fun _ w' =>
      n.Runs E (Without.All P o l) w' ∧ n.Told Z w w' := by
  induction l generalizing w P ctl with
  | nil =>
    exact .pass ⟨hw.mono fun _ _ _ _ _ hp => ⟨hp, by simp⟩, .refl (hz _ _ (ht.aside _ _ (.refl _) rfl))⟩
  | cons x rest ih =>
    obtain ⟨⟨hx, hcover⟩, hrest⟩ := List.forall_mem_cons.1 hl
    have hkept : ∀ b, (if x.reportsOwner then .object o else v) = .object b → b < w.heap.objects.size →
        KeptObject K (.notifying x rest o v :: base) w.client w.heap b := fun b hb hlt => by
      refine ⟨b, .inr ⟨_, List.mem_cons_self, fun h => ?_⟩, hlt, .refl⟩
      split at hb
      · cases hb
        simp [Frame.refs]
      · simp [Frame.refs, hb, Value.refs]
    refine .call (f := .notifying x rest o v) (List.suffix_refl _)
      (hw.tell ha ht hsp hz htrans hx (hcover.imp_left ?_) hkept) ?_
    · rintro ⟨f, hf, howns, hv⟩
      refine ⟨f, hf, howns, ?_⟩
      rw [howns.timing.2]
      exact hv
    · rintro _ w₁ ⟨hw₁, htold⟩
      refine .back ((ih hw₁ (fun y hy => ⟨(hrest y hy).1.told htold, (hrest y hy).2.imp_left ?_⟩) _).mono ?_)
      · rintro ⟨f, hf, howns, hv⟩
        exact ⟨f, hf, howns, hv.trans (htold.get _ _ (howns.within (ha.roots f hf))).symm⟩
      · rintro _ w₂ ⟨hw₂, htold'⟩
        refine ⟨hw₂.mono fun _ _ a y _ hp => ?_, htold.trans htrans htold'⟩
        exact ⟨hp.1.1, List.forall_mem_cons.2 ⟨hp.1.2, hp.2⟩⟩

/-! ## An assignment -/

omit ha ht hsp hz htrans in
/-- When a property is put, the handlers for it are to be told. -/
theorem Runs.put {p : String} (hw : n.Runs E (fun _ _ => False) w) (ho : o < w.heap.objects.size)
    (hv : n.Within o → v.eqv v = true) (hexists : ∀ b, v = .object b → b < w.heap.objects.size)
    (hwithin : n.Within o → ∀ b, v = .object b → n.Within b)
    (hE : ∀ f ∈ n.feeds, ∀ u, E f u w → E f u ⟨w.heap.put o p v, w.client⟩) :
    n.Runs E (fun a id => a = o ∧ ∃ x ∈ w.heap.handlers o, x.property = p ∧ x.id = id)
      ⟨w.heap.put o p v, w.client⟩ where
  numbered := hw.numbered.put o p v
  closed a q b hb := by
    rw [Heap.get_put _ _ _ _ _ _ ho] at hb
    rw [Heap.size_put]
    split at hb
    · exact hexists b hb
    · exact hw.closed a q b hb
  supports a hlt hin := by
    rw [Heap.supports_put]
    exact hw.supports a (Heap.size_put w.heap o p v ▸ hlt) hin
  within a q b hin hb := by
    rw [Heap.get_put _ _ _ _ _ _ ho] at hb
    split at hb
    · next he => exact hwithin (he.1 ▸ hin) b hb
    · exact hw.within a q b hin hb
  equal a q hin := by
    rw [Heap.get_put _ _ _ _ _ _ ho]
    split
    · next he => exact hv (he.1 ▸ hin)
    · exact hw.equal a q hin
  covers a x hx := hw.covers a x (Heap.handlers_put w.heap o a p v ▸ hx)
  feeds f hf := by
    obtain ⟨u, hu, he⟩ := hw.feeds f hf
    refine ⟨u, hu.transfer (fun _ _ => rfl) (fun a x hx => .inl ?_) fun a x hx => ⟨?_, ?_, False.elim⟩,
      hE f hf _ he⟩
    · rwa [Heap.handlers_put] at hx
    · rw [Heap.handlers_put]
      exact hx.1
    · rw [Heap.get_put _ _ _ _ _ _ ho]
      split
      -- a handler for the property is still to be told
      · next he => exact .inr ⟨he.1, x, he.1 ▸ hx.1, he.2, rfl⟩
      · exact .inl rfl

/-- A property is assigned, and the feeds run on. -/
theorem Runs.set {p : String} (hw : n.Runs E (fun _ _ => False) w) (ho : o < w.heap.objects.size)
    (hv : n.Within o → v.eqv v = true) (hexists : ∀ b, v = .object b → b < w.heap.objects.size)
    (hwithin : n.Within o → ∀ b, v = .object b → n.Within b)
    (hE : ∀ f ∈ n.feeds, ∀ u, E f u w → E f u ⟨w.heap.put o p v, w.client⟩) :
    Completes K base ⟨.run (.set o p v), base, w⟩ fun _ w' => n.Runs E (fun _ _ => False) w' ∧
      if (w.heap.get o p).eqv v then w' = w else n.Told Z ⟨w.heap.put o p v, w.client⟩ w' := by
  refine .step id ?_
  rw [State.step_set]
  split
  · exact .pass ⟨hw, rfl⟩
  have hput := hw.put (p := p) ho hv hexists hwithin hE
  have hsince : ∀ {P : ObjectId → Nat → Prop} {w : World F C S}, n.Runs E P w → ∀ t, ∀ x ∈
      w.heap.handlersFor o t p, n.Since w.heap w.heap o x := fun hw t x hx =>
    ⟨hw.numbered, fun f hf => (hw.feeds f hf).elim fun _ hu => hu.1.tight, .refl _, .of_switch fun _ _ => rfl,
      ((Heap.mem_handlersFor ..).1 hx).2.1⟩
  -- nobody but others is told beforehand
  refine .call (f := .announcing o p (w.heap.get o p) v) (suffix_notify ⟨_, _, _⟩ _ _ _)
    (hput.notify ha ht hsp hz htrans (fun x hx => ⟨hsince hput _ x hx, .inr ?_⟩) _) ?_
  · obtain ⟨-, hmem, htime, -⟩ := (Heap.mem_handlersFor ..).1 hx
    refine (hput.covers o x hmem).resolve_left ?_
    rintro ⟨f, hf, howns⟩
    rw [howns.timing.1] at htime
    cases htime
  rintro _ w₂ ⟨hw₂', htold₂⟩
  have hw₂ : n.Runs E (fun a id => a = o ∧ ∃ x ∈ w.heap.handlers o, x.property = p ∧ x.id = id) w₂ :=
    hw₂'.mono fun _ _ _ _ _ hp => hp.1
  -- then each handler of a feed for the property is
  refine .back (.call (f := .changed o (w.heap.get o p) v) (suffix_notify ⟨_, _, _⟩ _ _ _)
    (hw₂.notify ha ht hsp hz htrans (fun x hx => ⟨hsince hw₂ _ x hx, ?_⟩) _) ?_)
  · obtain ⟨-, hmem, -, hprop⟩ := (Heap.mem_handlersFor ..).1 hx
    refine (hw₂.covers o x hmem).imp_left ?_
    rintro ⟨f, hf, howns⟩
    refine ⟨f, hf, howns, ?_⟩
    obtain rfl := hprop.resolve_left (howns.named (ha.named f hf))
    rw [htold₂.get _ _ (howns.within (ha.roots f hf)), Heap.get_put _ _ _ _ _ _ ho, if_pos ⟨rfl, rfl⟩]
  · rintro _ w' ⟨hw', htold⟩
    refine .back (.pass ⟨hw'.mono fun f hf a y hy hp => ?_, htold₂.trans htrans htold⟩)
    obtain ⟨⟨rfl, x, hx, rfl, hid⟩, hnot⟩ := hp
    have hx' : x ∈ (w.heap.put a x.property v).handlers a := by rwa [Heap.handlers_put]
    have hlt := hput.numbered.below a x hx'
    rw [hid] at hlt
    have hy₂ : y ∈ w₂.heap.handlers a := htold.turns.toGrows.old hy.1
      (Nat.lt_of_lt_of_le hlt (htold₂.turns.next a))
    have hyx : y = x := htold₂.turns.old hput.numbered hx' hy₂ hid.symm
    refine hnot y ((Heap.mem_handlersFor ..).2 ⟨?_, hy₂, hy.owns.timing.1, .inr (hyx ▸ rfl)⟩) ⟨rfl, rfl⟩
    exact hw₂.supports a (w₂.heap.lt_size_of_mem a hy₂) (hy.owns.within (ha.roots f hf))

end Notify

end Net

end DataBinding
