import DataBinding.Proofs.Chain.Basic
import DataBinding.Proofs.Feed.Turns
import DataBinding.Proofs.Heap.Rosters
import DataBinding.Proofs.Machine.Alive
import DataBinding.Proofs.Machine.Completes
import DataBinding.Proofs.Machine.Steps
/-!
# Links that feed an observer

The links of a path are followed by switches, and an observer at their end is fed with what the path
reads: for each value delivered to the first link, one value is delivered at the end
(`completes_linked`). Afterwards every link is registered with the object that it was followed from
(`Fed`), and the rest of the heap is as it was (`Heap.Turns`).

Nothing is said here of the observer at the end, but that it leaves handlers and switches alone.
-/

namespace DataBinding

variable {F C S : Type}

/-! ## Links that have been followed -/

/-- The handler that a link registers with its parent. -/
def Handler.link (t : Timing) (tail : Observer F C) (l : Link) (rest : List Link) (id g : Nat) :
    Handler F C :=
  ⟨id, t, l.segment.property, false, .inner l.switch g (tail.linked t rest)⟩

/-- The links lead from one value to another. A link is registered with its parent, and has been told
what the property holds, unless it is still to be told (`P`). Parents are of this kind (`G`). -/
inductive Fed (t : Timing) (tail : Observer F C) (G : ObjectId → Prop) (P : ObjectId → Nat → Prop)
    (h : Heap F C) : List Link → Value → Value → Prop
  | nil (v : Value) : Fed t tail G P h [] v v
  | absent {l rest v u g} : v.object? = none → h.switch l.switch = ⟨g, some .nothing, false⟩ →
      Fed t tail G P h rest .null u → Fed t tail G P h (l :: rest) v u
  | link {l rest o v u g id} : G o → h.switch l.switch = ⟨g, some (.handler o id), false⟩ →
      .link t tail l rest id g ∈ h.handlers o → v = h.get o l.segment.property ∨ P o id →
      Fed t tail G P h rest v u → Fed t tail G P h (l :: rest) (.object o) u

/-- The generation of a link is the latest. -/
def Heap.Loose (h : Heap F C) (links : List Link) : Prop :=
  ∀ l ∈ links, ∀ o, ∀ x ∈ h.handlers o, ∀ g next, x.observer = .inner l.switch g next →
    g ≤ (h.switch l.switch).generation

/-- A handler of a link is of an earlier generation, unless its switch keeps it. -/
def Heap.Tight (h : Heap F C) (links : List Link) : Prop :=
  ∀ l ∈ links, ∀ o, ∀ x ∈ h.handlers o, ∀ g next, x.observer = .inner l.switch g next →
    g ≤ (h.switch l.switch).generation ∧
      (g = (h.switch l.switch).generation → (h.switch l.switch).current = some (.handler o x.id))

/-- A handler that one of these links registers with an object of this kind. -/
def Handler.OfLinks (t : Timing) (tail : Observer F C) (G : ObjectId → Prop) (links : List Link)
    (o : ObjectId) (x : Handler F C) : Prop :=
  G o ∧ ∃ l rest id g, l :: rest <:+ links ∧ x = .link t tail l rest id g

variable {t : Timing} {tail : Observer F C} {G : ObjectId → Prop} {P Q : ObjectId → Nat → Prop}
  {h h' : Heap F C} {l : Link} {links rest : List Link} {u v v' : Value}

theorem Heap.Tight.loose (ht : h.Tight links) : h.Loose links :=
  fun l hl o x hx g next he => (ht l hl o x hx g next he).1

theorem Heap.Loose.suffix (ht : h.Loose links) (hs : rest <:+ links) : h.Loose rest :=
  fun l hl => ht l (hs.subset hl)

theorem Handler.OfLinks.mono {o : ObjectId} {x : Handler F C} (hx : x.OfLinks t tail G rest o)
    (hs : rest <:+ links) : x.OfLinks t tail G links o := by
  obtain ⟨ho, l, rest', id, g, hl, rfl⟩ := hx
  exact ⟨ho, l, rest', id, g, hl.trans hs, rfl⟩

/-- A handler of links belongs to one of their switches. -/
theorem Handler.OfLinks.switch {o : ObjectId} {x : Handler F C} (hx : x.OfLinks t tail G links o) :
    ∃ l ∈ links, ∃ g next, x.observer = .inner l.switch g next := by
  obtain ⟨-, l, rest, id, g, hs, rfl⟩ := hx
  exact ⟨l, hs.subset List.mem_cons_self, g, _, rfl⟩

namespace Fed

theorem running (hf : Fed t tail G P h links v u) : ∀ l ∈ links, (h.switch l.switch).stopped = false := by
  induction hf with
  | nil => simp
  | absent _ hs _ ih | link _ hs _ _ _ ih =>
    refine List.forall_mem_cons.2 ⟨?_, ih⟩
    rw [hs]

/-- Links stay followed where their switches and registrations stay, and what these were told last is what
the property holds, or is still to be told. -/
theorem transfer (hf : Fed t tail G P h links v u)
    (hsw : ∀ l ∈ links, h'.switch l.switch = h.switch l.switch)
    (hreg : ∀ l rest, l :: rest <:+ links → ∀ o id,
      (h.switch l.switch).current = some (.handler o id) → G o →
      .link t tail l rest id (h.switch l.switch).generation ∈ h.handlers o →
      .link t tail l rest id (h.switch l.switch).generation ∈ h'.handlers o ∧
        (h'.get o l.segment.property = h.get o l.segment.property ∨ Q o id) ∧ (P o id → Q o id)) :
    Fed t tail G Q h' links v u := by
  induction hf with
  | nil v => exact .nil v
  | absent hv hs _ ih =>
    obtain ⟨hl, hrest⟩ := List.forall_mem_cons.1 hsw
    exact .absent hv (hl.trans hs) (ih hrest fun l rest hr => hreg l rest (hr.trans (List.suffix_cons ..)))
  | @link l rest o v u g id ho hs hx htold _ ih =>
    obtain ⟨hl, hrest⟩ := List.forall_mem_cons.1 hsw
    obtain ⟨hx', hget, hp⟩ := hreg l rest (List.suffix_refl _) o id (by rw [hs]) ho (by rwa [hs])
    rw [hs] at hx'
    refine .link ho (hl.trans hs) hx' ?_ (ih hrest fun l rest hr => hreg l rest (hr.trans (List.suffix_cons ..)))
    obtain htold | htold := htold
    · exact hget.imp_left fun he => htold.trans he.symm
    · exact .inr (hp htold)

/-- Links that have been followed lead to what is read along them. -/
theorem eq_read (hf : Fed t tail G (fun _ _ => False) h links v u)
    (hp : ∀ l ∈ links, l.segment.property ≠ "") : u = h.readFrom v (links.map Link.segment) := by
  induction hf with
  | nil => rfl
  | @absent l rest v u g hv _ _ ih =>
    obtain ⟨-, hrest⟩ := List.forall_mem_cons.1 hp
    rw [ih hrest, List.map_cons]
    cases rest with
    | nil => cases v <;> simp_all [Heap.readFrom, Value.object?]
    | cons => cases v <;> simp_all [Heap.readFrom, Value.object?]
  | @link l rest o v u g id _ _ _ htold _ ih =>
    obtain ⟨hl, hrest⟩ := List.forall_mem_cons.1 hp
    obtain rfl := htold.resolve_right fun h => h
    rw [ih hrest, List.map_cons]
    simp [Heap.readFrom, Heap.read, hl]

/-- A link that is given another value leads somewhere else, and the links before it are as they were. -/
theorem replace {l : Link} {o : ObjectId} {id : Nat} (hf : Fed t tail G P h links v u)
    (hs : l :: rest <:+ links) (hnodup : (links.map Link.switch).Nodup)
    (hcur : (h.switch l.switch).current = some (.handler o id)) {u' : Value}
    (hf' : Fed t tail G Q h' rest v' u') (hv : v' = h'.get o l.segment.property)
    (hsw : ∀ e ∈ links, e ∉ rest → h'.switch e.switch = h.switch e.switch)
    (hreg : ∀ e rest', e :: rest' <:+ links → e ∉ rest → ∀ a n,
      (h.switch e.switch).current = some (.handler a n) → G a →
      .link t tail e rest' n (h.switch e.switch).generation ∈ h.handlers a →
      .link t tail e rest' n (h.switch e.switch).generation ∈ h'.handlers a ∧
        (e ≠ l → (h'.get a e.segment.property = h.get a e.segment.property ∨ Q a n) ∧
          (P a n → Q a n))) :
    Fed t tail G Q h' links v u' := by
  have hlrest : ∀ {links : List Link}, (links.map Link.switch).Nodup → ∀ {e rest'},
      e :: rest' <:+ links → e ∉ rest' := by
    intro links hn e rest' he hm
    have hsub := (hn.sublist (he.sublist.map _))
    rw [List.map_cons, List.nodup_cons] at hsub
    exact hsub.1 (List.mem_map_of_mem hm)
  have hl := hlrest hnodup hs
  -- along the links before this one, which keep what they have
  induction hf with
  | nil => exact absurd hs (by simp)
  | @absent e rest₁ w u₁ g hv₁ hcell hrec ih =>
    obtain he | hs' := List.suffix_cons_iff.1 hs
    · cases he
      rw [hcell] at hcur
      cases hcur
    have hn := hnodup
    rw [List.map_cons, List.nodup_cons] at hn
    have hne : e ∉ rest := fun hm => hn.1 (List.mem_map_of_mem (hs'.subset (List.mem_cons_of_mem _ hm)))
    refine .absent hv₁ ((hsw e List.mem_cons_self hne).trans hcell) (ih hs' hn.2
      (fun e he => hsw e (List.mem_cons_of_mem _ he)) fun e rest' hr =>
        hreg e rest' (hr.trans (List.suffix_cons ..)))
  | @link e rest₁ a w u₁ g n ha hcell hx htold hrec ih =>
    have hn := hnodup
    rw [List.map_cons, List.nodup_cons] at hn
    obtain he | hs' := List.suffix_cons_iff.1 hs
    · cases he
      rw [hcell] at hcur
      cases hcur
      obtain ⟨hx', -⟩ := hreg l rest (List.suffix_refl _) hl o id (by rw [hcell]) ha (by rwa [hcell])
      rw [hcell] at hx'
      exact .link ha ((hsw l List.mem_cons_self hl).trans hcell) hx' (.inl hv) hf'
    · have hne : e ∉ rest := fun hm => hn.1 (List.mem_map_of_mem (hs'.subset (List.mem_cons_of_mem _ hm)))
      have hel : e ≠ l := fun he => hn.1 (List.mem_map_of_mem (he ▸ hs'.subset List.mem_cons_self))
      obtain ⟨hx', htell⟩ := hreg e rest₁ (List.suffix_refl _) hne a n (by rw [hcell]) ha (by rwa [hcell])
      obtain ⟨hget, hp⟩ := htell hel
      rw [hcell] at hx'
      refine .link ha ((hsw e List.mem_cons_self hne).trans hcell) hx' ?_ (ih hs' hn.2
        (fun e he => hsw e (List.mem_cons_of_mem _ he)) fun e rest' hr =>
          hreg e rest' (hr.trans (List.suffix_cons ..)))
      obtain htold | htold := htold
      · exact hget.imp_left fun he => htold.trans he.symm
      · exact .inr (hp htold)

end Fed

/-! ## Following -/

section Deliver
open State
variable {K : Client F C S} {k : S} {o : ObjectId}

/-- The switches of links run, each link has its own, and nothing is registered for a generation to come. -/
structure Heap.Ready (h : Heap F C) (links : List Link) : Prop where
  nodup : (links.map Link.switch).Nodup
  running : ∀ l ∈ links, (h.switch l.switch).stopped = false
  loose : h.Loose links

theorem Heap.Ready.notMem (hr : h.Ready (l :: links)) : l.switch ∉ links.map Link.switch :=
  (List.nodup_cons.1 hr.nodup).1

/-- The first link has its switch to itself. -/
theorem Heap.Ready.switch_ne (hr : h.Ready (l :: links)) : ∀ e ∈ links, e.switch ≠ l.switch :=
  fun _ he hs => hr.notMem (List.mem_map.2 ⟨_, he, hs⟩)

/-- A link has begun a new generation and is registered with its parent, if there is one; this undoes it,
and this is its first value. -/
structure Heap.Watches (t : Timing) (tail : Observer F C) (l : Link) (rest : List Link) (v : Value)
    (h : Heap F C) (teardown : Teardown C) (u : Value) (h' : Heap F C) : Prop where
  aside : h.Aside h'
  turns : h.Turns (· = l.switch)
    (fun o x => v = .object o ∧ ∃ id, x = .link t tail l rest id ((h.switch l.switch).generation + 1)) h'
  onward : h.Onward (fun _ => True) h'
  undoes : h'.Undoes l.switch teardown
  cell : h'.switch l.switch = ⟨(h.switch l.switch).generation + 1, none, false⟩
  parent : (v.object? = none ∧ teardown = .nothing ∧ u = .null) ∨
    ∃ o id, v = .object o ∧ teardown = .handler o id ∧ u = h.get o l.segment.property ∧
      .link t tail l rest id ((h.switch l.switch).generation + 1) ∈ h'.handlers o
  latest : ∀ o, ∀ x ∈ h'.handlers o, ∀ g next, x.observer = .inner l.switch g next →
    g ≤ (h.switch l.switch).generation ∨
      g = (h.switch l.switch).generation + 1 ∧ teardown = .handler o x.id

/-- Without a parent there is nothing to register with. -/
theorem Heap.Ready.watches_absent (hr : h.Ready (l :: links)) (hn : h.Numbered) (hv : v.object? = none) :
    h.Watches t tail l links v .nothing .null (h.restarted l.switch) where
  aside := aside_restarted ..
  turns := turns_restarted _ hn
  onward := onward_restarted _ (lt_size_of_not_stopped _ (hr.running l List.mem_cons_self))
  undoes := trivial
  cell := by
    have hrun := hr.running l List.mem_cons_self
    rw [switch_restarted _ (lt_size_of_not_stopped _ hrun), if_pos rfl, hrun]
  parent := .inl ⟨hv, rfl, rfl⟩
  latest o x hx g next he :=
    .inl (hr.loose l List.mem_cons_self o x ((mem_handlers_restarted _).1 hx).1 g next he)

/-- The link is registered with its parent. -/
theorem Heap.Ready.watches_object (hr : h.Ready (l :: links)) (hn : h.Numbered) (ho : o < h.objects.size) :
    h.Watches t tail l links (.object o) (.handler o ((h.restarted l.switch).nextHandler o))
      (h.get o l.segment.property) ((h.restarted l.switch).addHandler o t l.segment.property false
        (.inner l.switch ((h.switch l.switch).generation + 1) (tail.linked t links))).2 := by
  have hrun := hr.running l List.mem_cons_self
  have hi := lt_size_of_not_stopped _ hrun
  have hn' : (h.restarted l.switch).Numbered := hn.restarted _
  have ho' : o < (h.restarted l.switch).objects.size := by
    rwa [(grows_restarted (h := h) l.switch).objects]
  have hhandlers := fun a => handlers_addHandler (h.restarted l.switch) o a l.segment.property t false
    (.inner l.switch ((h.switch l.switch).generation + 1) (tail.linked t links)) ho'
  refine ⟨(aside_restarted h _).trans (aside_addHandler ..), ?_,
    (onward_restarted _ hi).trans (.of_switch fun _ _ => rfl), belongs_addHandler _ _ _ _ hn' _ _ _, ?_,
    .inr ⟨o, _, rfl, rfl, rfl, ?_⟩, fun a x hx g next he => ?_⟩
  · exact (turns_restarted _ hn).trans (turns_addHandler _ _ _ _ ⟨rfl, _, rfl⟩)
  · change (h.restarted l.switch).switch l.switch = _
    rw [switch_restarted _ hi, if_pos rfl, hrun]
  · rw [hhandlers, if_pos rfl]
    exact List.mem_append_right _ (List.mem_singleton.2 rfl)
  · have hold : x ∈ (h.restarted l.switch).handlers a → g ≤ (h.switch l.switch).generation := fun hx =>
      hr.loose l List.mem_cons_self a x ((mem_handlers_restarted _).1 hx).1 g next he
    rw [hhandlers] at hx
    split at hx
    · next ha =>
      subst ha
      rcases List.mem_append.1 hx with hx | hx
      · exact .inl (hold hx)
      · rw [List.mem_singleton.1 hx] at he ⊢
        rw [Observer.inner.injEq] at he
        exact .inr ⟨he.2.1.symm, rfl⟩
    · exact .inl (hold hx)

/-- On from a value that is delivered to a link, to the first value of the link. -/
theorem leads_link (t : Timing) (tail : Observer F C) {base : List (Frame F C)} (hr : h.Ready (l :: links)) (hp : l.segment.property ≠ "")
    (hn : h.Numbered) (hc : h.Closed) (hv : ∀ o, v = .object o → KeptObject K base k h o) :
    ∃ L inner teardown u h', h.Watches t tail l links v teardown u h' ∧
      Leads K base ⟨.run (.deliver (tail.linked t (l :: links)) v), base, h, k⟩ L
        ⟨.run (.deliver (.inner l.switch ((h.switch l.switch).generation + 1) (tail.linked t links)) u),
          .subscribed (.inner l.switch ((h.switch l.switch).generation + 1) (tail.linked t links)) teardown ::
            .entering l.switch ((h.switch l.switch).generation + 1) inner :: base, h', k⟩ := by
  have hrun := hr.running l List.mem_cons_self
  obtain ⟨L, hL, -⟩ := leads_outer K base k hn l.switch (.link l.segment.property t) (tail.linked t links) v
  rw [switched, if_neg (by simp [hrun])] at hL
  cases hv' : v.object? with
  | none =>
    have hin : Selection.inner h v (.link l.segment.property t) = .just .null := by
      cases v <;> simp_all [Value.object?, Selection.inner]
    rw [hin] at hL
    exact ⟨_, _, _, _, _, hr.watches_absent hn hv', hL.trans (.one id rfl)⟩
  | some o =>
    obtain rfl := Value.object?_eq_some.1 hv'
    have ha : h.Aside (h.restarted l.switch) := Heap.aside_restarted ..
    have hkept := hv o rfl
    have hin : Selection.inner h (.object o) (.link l.segment.property t) =
        (.watch o l.segment.property t : Stream F) := rfl
    rw [hin] at hL
    have halive := alive_of_reaches K (c := .run (.subscribe (.watch o l.segment.property t)
        (.inner l.switch ((h.switch l.switch).generation + 1) (tail.linked t links))))
      (ha.closed hc) (fun _ hm => hm) (hkept.congr (List.subset_cons_self (.entering l.switch
        ((h.switch l.switch).generation + 1) (.watch o l.segment.property t)) _) ha.size ha.get)
    have hstep := step_watch halive
    have hempty : l.segment.property.isEmpty = false := by simp [hp]
    rw [hempty] at hstep
    have hread : ∀ h' : Heap F C, h'.read o l.segment.property = h'.get o l.segment.property :=
      fun h' => by simp [Heap.read, hp]
    rw [hread, Heap.get_addHandler, ha.get] at hstep
    exact ⟨_, _, _, _, _, hr.watches_object hn (hkept.lt_size hc), hL.trans (.one id hstep)⟩

/-- What delivering a value to links comes to: the observer at their end is given the value that is read
along them, in a heap that differs aside only, and what it does (`R`) is left aside from then on. -/
structure Delivered (t : Timing) (tail : Observer F C) (G : ObjectId → Prop) (links : List Link) (v : Value)
    (R : World F C S → World F C S → Prop) (w w' : World F C S) : Prop where
  done : ∃ h₁ w₂, w.heap.Aside h₁ ∧ R ⟨h₁, w.client⟩ w₂ ∧ w₂.heap.Aside w'.heap ∧ w'.client = w₂.client
  bypass : ∀ o p, G o → w'.heap.get o p = w.heap.get o p
  fed : Fed t tail G (fun _ _ => False) w'.heap links v (w.heap.readFrom v (links.map Link.segment))
  tight : w'.heap.Tight links
  turns : w.heap.Turns (· ∈ links.map Link.switch) (Handler.OfLinks t tail G links) w'.heap
  onward : w.heap.Onward (fun _ => True) w'.heap

namespace Heap.Watches

variable {teardown : Teardown C} (hw : h.Watches t tail l links v teardown u h')
include hw

/-- The links after it are still to be followed. -/
theorem ready (hr : h.Ready (l :: links)) : h'.Ready links := by
  have hne := hr.switch_ne
  refine ⟨(List.nodup_cons.1 hr.nodup).2, fun e he => ?_, fun e he o x hx g next hobs => ?_⟩
  · rw [hw.turns.switch _ (hne e he)]
    exact hr.running e (List.mem_cons_of_mem _ he)
  · rw [hw.turns.switch _ (hne e he)]
    refine hr.loose e (List.mem_cons_of_mem _ he) o x ?_ g next hobs
    refine (hw.turns.made o x hx).resolve_right ?_
    rintro ⟨-, id, rfl⟩
    rw [Handler.link, Observer.inner.injEq] at hobs
    exact hne e he hobs.1.symm

/-- The path is read on from the first value of the link. -/
theorem readFrom (hp : l.segment.property ≠ "") :
    h'.readFrom u (links.map Link.segment) = h.readFrom v ((l :: links).map Link.segment) := by
  rw [hw.aside.readFrom, List.map_cons]
  obtain ⟨hv, -, rfl⟩ | ⟨o, id, rfl, -, rfl, -⟩ := hw.parent
  · rw [Heap.readFrom_of_none hv, Heap.readFrom_null]
  · simp [Heap.readFrom, Heap.read, hp]

/-- While the links after it are followed, its switch waits for the subscription. -/
theorem entered_eq {h₁ : Heap F C} (hr : h.Ready (l :: links))
    (ht : h'.Turns (· ∈ links.map Link.switch) (Handler.OfLinks t tail G links) h₁) :
    l.switch < h₁.switches.size ∧ h₁.entered l.switch ((h.switch l.switch).generation + 1) teardown =
      h₁.setSwitch l.switch ⟨(h.switch l.switch).generation + 1, some teardown, false⟩ := by
  have hcell : h₁.switch l.switch = ⟨(h.switch l.switch).generation + 1, none, false⟩ :=
    (ht.switch _ hr.notMem).trans hw.cell
  exact ⟨Heap.lt_size_of_not_stopped _ (by rw [hcell]), by rw [Heap.entered, if_pos (by rw [hcell]), hcell]⟩

/-- Once the links after it have been followed and its switch keeps the subscription, so has this one. -/
theorem fed {h₁ : Heap F C} {u₁ : Value} (hr : h.Ready (l :: links)) (hG : ∀ o, v = .object o → G o)
    (hf : Fed t tail G P h₁ links u u₁)
    (ht : h'.Turns (· ∈ links.map Link.switch) (Handler.OfLinks t tail G links) h₁)
    (hget : ∀ o p, G o → h₁.get o p = h.get o p) :
    Fed t tail G P (h₁.entered l.switch ((h.switch l.switch).generation + 1) teardown) (l :: links) v u₁ := by
  obtain ⟨hlt, hset⟩ := hw.entered_eq hr ht
  have hself : (h₁.setSwitch l.switch ⟨(h.switch l.switch).generation + 1, some teardown, false⟩).switch
      l.switch = ⟨(h.switch l.switch).generation + 1, some teardown, false⟩ := by
    rw [Heap.switch_setSwitch, if_pos ⟨rfl, hlt⟩]
  have hrest : Fed t tail G P (h₁.setSwitch l.switch
      ⟨(h.switch l.switch).generation + 1, some teardown, false⟩) links u u₁ := by
    refine hf.transfer (fun e he => ?_) fun e rest hs o id _ _ hx => ⟨hx, .inl rfl, fun hp => hp⟩
    exact Heap.switch_setSwitch_of_ne _ _ _ _ (hr.switch_ne e he)
  rw [hset]
  obtain ⟨hv, rfl, rfl⟩ | ⟨o, id, rfl, rfl, rfl, hx⟩ := hw.parent
  · exact .absent hv hself hrest
  · refine .link (hG o rfl) hself (ht.kept o _ hx fun i g next he => ?_) (.inl ?_) hrest
    · rw [Handler.link, Observer.inner.injEq] at he
      exact he.1 ▸ hr.notMem
    · exact (hget o _ (hG o rfl)).symm

theorem tight {h₁ : Heap F C} (hr : h.Ready (l :: links)) (htight : h₁.Tight links)
    (ht : h'.Turns (· ∈ links.map Link.switch) (Handler.OfLinks t tail G links) h₁) :
    (h₁.entered l.switch ((h.switch l.switch).generation + 1) teardown).Tight (l :: links) := by
  obtain ⟨hlt, hset⟩ := hw.entered_eq hr ht
  rw [hset]
  intro e he o x hx g next hobs
  obtain rfl | he := List.mem_cons.1 he
  · rw [Heap.switch_setSwitch, if_pos ⟨rfl, hlt⟩]
    have hold : x ∈ h'.handlers o := (ht.made o x hx).resolve_right fun hnew => by
      obtain ⟨l', hl', g', next', he'⟩ := hnew.switch
      rw [he', Observer.inner.injEq] at hobs
      exact hr.notMem (List.mem_map.2 ⟨l', hl', hobs.1⟩)
    obtain hle | ⟨rfl, rfl⟩ := hw.latest o x hold g next hobs
    · exact ⟨Nat.le_succ_of_le hle, fun he => absurd (he ▸ hle) (Nat.not_succ_le_self _)⟩
    · exact ⟨Nat.le_refl _, fun _ => rfl⟩
  · rw [Heap.switch_setSwitch_of_ne _ _ _ _ (hr.switch_ne e he)]
    exact htight e he o x hx g next hobs

end Heap.Watches

/-- One link and then the links after it. -/
theorem Delivered.link {R : World F C S → World F C S → Prop} {w w₁ : World F C S} {teardown : Teardown C}
    (hd : Delivered t tail G links u R ⟨h', k⟩ w₁) (hr : w.heap.Ready (l :: links))
    (hp : l.segment.property ≠ "") (hw : w.heap.Watches t tail l links v teardown u h')
    (hk : k = w.client) (hG : ∀ o, v = .object o → G o) :
    Delivered t tail G (l :: links) v R w
      ⟨w₁.heap.entered l.switch ((w.heap.switch l.switch).generation + 1) teardown, w₁.client⟩ := by
  subst hk
  obtain ⟨h₁, w₂, ha, hR, ha', hclient⟩ := hd.done
  have hentered := Heap.aside_entered w₁.heap l.switch ((w.heap.switch l.switch).generation + 1) teardown
  have hget : ∀ o p, G o → w₁.heap.get o p = w.heap.get o p :=
    fun o p ho => (hd.bypass o p ho).trans (hw.aside.get o p)
  have hg : (h'.switch l.switch).generation = (w.heap.switch l.switch).generation + 1 := by rw [hw.cell]
  refine ⟨⟨h₁, w₂, hw.aside.trans ha, hR, ha'.trans hentered, hclient⟩, fun o p ho => ?_, ?_,
    hw.tight hr hd.tight hd.turns, ?_, ?_⟩
  · exact (hentered.get o p).trans (hget o p ho)
  · rw [← hw.readFrom hp]
    exact hw.fed hr hG hd.fed hd.turns hget
  · refine ((hw.turns.mono (fun i hi => ?_) ?_).trans (hd.turns.mono (fun i hi => List.mem_cons_of_mem _ hi)
      fun _ x hx => hx.mono (List.suffix_cons ..))).trans ((Heap.turns_entered _ _
        (hd.turns.toGrows.undoes hw.undoes)).mono (fun i hi => ?_) fun _ _ hx => hx)
    · exact hi ▸ List.mem_cons_self
    · rintro o _ ⟨ho, id, rfl⟩
      exact ⟨hG o ho, l, links, id, _, List.suffix_refl _, rfl⟩
    · exact hi ▸ List.mem_cons_self
  · refine (hw.onward.trans hd.onward).entered ?_
    rw [hd.turns.switch _ hr.notMem, hg]
    exact Nat.lt_succ_self _

/-- From a value the links are followed to their end, where one value is delivered. -/
theorem completes_linked {R : World F C S → World F C S → Prop}
    (hR : ∀ w w', R w w' → w.heap.Bypasses G w'.heap) {links : List Link}
    (hp : ∀ l ∈ links, l.segment.property ≠ "") {v : Value} {base : List (Frame F C)} {w : World F C S}
    (hr : w.heap.Ready links) (hn : w.heap.Numbered) (hc : w.heap.Closed)
    (hG : ∀ o p b, G o → w.heap.get o p = .object b → G b)
    (hv : ∀ o, v = .object o → G o ∧ KeptObject K base w.client w.heap o)
    (htail : ∀ base' h₁, w.heap.Aside h₁ →
      w.heap.Turns (· ∈ links.map Link.switch) (Handler.OfLinks t tail G links) h₁ → Completes K base'
      ⟨.run (.deliver tail (w.heap.readFrom v (links.map Link.segment))), base', h₁, w.client⟩
      fun _ w' => R ⟨h₁, w.client⟩ w') :
    Completes K base ⟨.run (.deliver (tail.linked t links) v), base, w⟩
      fun _ w' => Delivered t tail G links v R w w' := by
  -- on the links, the first of which is followed before the others
  induction links generalizing v base w with
  | nil =>
    refine (htail base w.heap (.refl _) (.refl _)).mono fun _ w' hw' => ?_
    have hb := hR _ _ hw'
    exact ⟨⟨w.heap, w', .refl _, hw', .refl _, rfl⟩, hb.get, .nil v, by simp [Heap.Tight], hb.turns, hb.onward⟩
  | cons l rest ih =>
    obtain ⟨hl, hrest⟩ := List.forall_mem_cons.1 hp
    obtain ⟨L, inner, teardown, u, h₁, hw, hL⟩ := leads_link t tail hr hl hn hc
      fun o ho => (hv o ho).2
    have hread := hw.readFrom hl
    have hinner : State.step K ⟨.run (.deliver (.inner l.switch ((w.heap.switch l.switch).generation + 1)
        (tail.linked t rest)) u), .subscribed (.inner l.switch ((w.heap.switch l.switch).generation + 1)
        (tail.linked t rest)) teardown :: .entering l.switch ((w.heap.switch l.switch).generation + 1)
        inner :: base, h₁, w.client⟩ = ⟨.run (.deliver (tail.linked t rest) u), _, h₁, w.client⟩ :=
      step_inner (by rw [hw.cell]) (by rw [hw.cell]) u
    refine .leads hL (.step id (hinner ▸ ?_))
    refine .call (f := .entering l.switch ((w.heap.switch l.switch).generation + 1) inner)
      (R := fun signal w₁ => signal = .subscription teardown ∧ Delivered t tail G rest u R ⟨h₁, w.client⟩ w₁)
      (List.suffix_cons _ _) ?_ ?_
    -- the links after it are followed during the subscription
    · refine .call (f := .subscribed _ teardown) (List.suffix_refl _) (ih hrest (w := ⟨h₁, w.client⟩)
        (hw.ready hr) (hw.turns.numbered hn) (hw.aside.closed hc) (fun o p b ho hb => ?_) (fun o ho => ?_)
        fun base' h₂ ha hturns => ?_) fun _ w₁ hw₁ => .back (.pass ⟨rfl, hw₁⟩)
      · exact hG o p b ho ((hw.aside.get o p).symm.trans hb)
      · obtain ⟨-, -, rfl⟩ | ⟨a, id, rfl, -, rfl, -⟩ := hw.parent
        · cases ho
        · obtain ⟨hGa, hkept⟩ := hv a rfl
          refine ⟨hG a _ o hGa ho, (hkept.get ho).congr (fun _ hm => ?_) hw.aside.size hw.aside.get⟩
          exact List.mem_cons_of_mem _ (List.mem_cons_of_mem _ hm)
      · rw [hread]
        refine htail base' h₂ (hw.aside.trans ha) ((hw.turns.mono (fun i hi => ?_) ?_).trans
          (hturns.mono (fun i hi => List.mem_cons_of_mem _ hi) fun _ _ hx => hx.mono (List.suffix_cons ..)))
        · exact hi ▸ List.mem_cons_self
        · rintro o _ ⟨rfl, id, rfl⟩
          exact ⟨(hv o rfl).1, l, rest, id, _, List.suffix_refl _, rfl⟩
    -- and then the subscription is over
    · rintro _ w₁ ⟨rfl, hd⟩
      obtain ⟨L', hL', -⟩ := leads_entering K base w₁.client (.subscription teardown)
        (hd.turns.toGrows.undoes hw.undoes) ((w.heap.switch l.switch).generation + 1) inner
      exact .leads hL' (.pass (hd.link hr hl hw rfl fun o ho => (hv o ho).1))

end Deliver

end DataBinding
