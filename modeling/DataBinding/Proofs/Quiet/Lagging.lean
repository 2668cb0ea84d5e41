import DataBinding.Proofs.Quiet.Session
/-!
# A path observed beforehand

Observed for pending changes, a chain is told the value that is being replaced, and follows that. So it
stays with the owners of its segments as long as no link of the path is given another object
(`Heap.Redirects`), and falls behind with the first one that is.

`Path.observe_before_iff`: the registrations are on the current owners after each assignment exactly when
no assignment redirects a link; then the values delivered are those replaced at the end of the path.
-/

namespace DataBinding

variable {F C S : Type}

/-- The assignment is to what is watched at this place. -/
def Assignment.Hits (s : Assignment) (pl : Place) : Prop :=
  pl.object = s.object ∧ pl.property = s.property

instance (s : Assignment) (pl : Place) : Decidable (s.Hits pl) := inferInstanceAs (Decidable (_ ∧ _))

namespace Assignment

variable (s : Assignment) (h : Heap F C) (root : ObjectId) (segments : List Segment)

/-- The assignment gives another object, or none any more, to a link of the path, one that has
segments after it. -/
def Redirects : Prop :=
  (∃ pl ∈ h.owners .before (.object root) segments, s.Hits pl ∧ 0 < pl.after) ∧
    (s.old h).object? ≠ s.value.object?

/-- What the end of the path is told beforehand: the value replaced there, or that a link of the path
leads nowhere. -/
def pending : List Value :=
  if (s.old h).eqv s.value then []
  else
    match (h.owners .before (.object root) segments).find? (s.Hits ·) with
    | some pl => if pl.after = 0 then [s.old h] else [.null]
    | none => []

end Assignment

namespace Chain

variable {c : Chain C} {K : Client F C S} {seen : S → List Value} {w w' : World F C S}
  {regs new : List (Registration F C)} {u : Value} {s : Assignment}

open State

/-- The chain is live, and its links were told of the objects that they lead to. -/
structure Lags (c : Chain C) (K : Client F C S) (seen : S → List Value) (w : World F C S)
    (regs : List (Registration F C)) (u : Value) : Prop where
  live : c.Live [] w.heap [] regs u
  tidy : c.Tidy (c.Onlooker K seen) w.heap
  upToDate : ∀ r ∈ regs, 0 < r.handler.observer.depth → r.UpToDate w.heap

/-- The chain is registered with the current owners of its segments. -/
def Exact [DecidableEq C] (c : Chain C) (h : Heap F C) : Prop :=
  (h.places c.code).Perm (h.owners c.timing (.object c.root) c.segments)

namespace Lags

theorem exact [DecidableEq C] (h : c.Lags K seen w regs u) : c.Exact w.heap :=
  (h.live.places_perm_iff h.tidy.numbered).2 h.upToDate

theorem owners (h : c.Lags K seen w regs u) :
    w.heap.owners c.timing (.object c.root) c.segments = (regs.map Registration.place).reverse :=
  h.live.follows.owners_eq_iff.2 h.upToDate

/-- A link of the path is redirected where a registration is told of another object. -/
theorem redirects_iff (h : c.Lags K seen w regs u) (htime : c.timing = .before) :
    s.Redirects w.heap c.root c.segments ↔
      (∃ r ∈ regs, r.At s.object s.property ∧ 0 < r.handler.observer.depth) ∧
        (s.old w.heap).object? ≠ s.value.object? := by
  rw [Assignment.Redirects, ← htime, h.owners]
  simp only [List.mem_reverse, List.mem_map, exists_exists_and_eq_and]
  rfl

end Lags

/-- Told of nothing, the chain keeps up. -/
theorem Lags.unmoved (h : c.Lags K seen w regs u) (ho : s.object < w.heap.objects.size)
    (hn : ∀ r ∈ regs, ¬ r.At s.object s.property)
    (hu : c.Unmoved K seen ⟨w.heap.put s.object s.property s.value, w.client⟩ w') :
    c.Lags K seen w' regs u := by
  refine ⟨(h.live.leaves (leaves_put ..)).leaves hu.1.leaves, hu.1.tidy, fun r hr hd => ?_⟩
  rw [Registration.UpToDate, h.upToDate r hr hd]
  exact congrArg Value.object? ((hu.1.get _ _).trans (held_put ho (hn r hr))).symm

/-- Told of the value that was replaced, the chain keeps up exactly if no link is redirected. -/
theorem Lags.followed (h : c.Lags K seen w regs u) (htime : c.timing = .before)
    (ho : s.object < w.heap.objects.size) {pre post : List (Registration F C)}
    {r : Registration F C} {todo : List Link} (hregs : regs = pre ++ r :: post)
    (hr : r.At s.object s.property) (hpost : ∀ r' ∈ post, ¬ r'.At s.object s.property)
    (hd : r.handler.observer.depth = todo.length)
    (hf : c.Followed seen (c.Onlooker K seen) [] todo (⟨s.object, r.handler, s.old w.heap⟩ :: post)
      new (s.old w.heap) ⟨w.heap.put s.object s.property s.value, w.client⟩ w') :
    (∀ r' ∈ new ++ ⟨s.object, r.handler, s.old w.heap⟩ :: post,
      0 < r'.handler.observer.depth → r'.UpToDate w'.heap) ↔
      ¬ s.Redirects w.heap c.root c.segments := by
  subst hregs
  have hheld : ∀ told, (⟨s.object, r.handler, told⟩ : Registration F C).held w'.heap = s.value :=
    fun told => by
      rw [Registration.held, hf.get, Heap.get_put _ _ _ _ _ _ ho, if_pos ⟨rfl, hr.2⟩]
  rw [h.redirects_iff htime]
  constructor
  · rintro hu ⟨⟨r', hr', hat, hpos⟩, hne⟩
    have hpos' : 0 < r.handler.observer.depth := by
      rcases List.mem_append.1 hr' with hr' | hr'
      · exact Nat.zero_lt_of_lt ((List.pairwise_append.1 h.live.follows.pairwise_depth).2.2 r' hr' r
          List.mem_cons_self)
      · rcases List.mem_cons.1 hr' with rfl | hr'
        · exact hpos
        · exact absurd hat (hpost r' hr')
    have := hu ⟨s.object, r.handler, s.old w.heap⟩ (by simp) hpos'
    rw [Registration.UpToDate, hheld] at this
    exact hne this
  · intro hn r' hr' hpos
    rcases List.mem_append.1 hr' with hr' | hr'
    · exact congrArg Value.object? (hf.told r' hr')
    · rcases List.mem_cons.1 hr' with rfl | hr'
      · rw [Registration.UpToDate, hheld]
        exact Classical.not_not.1 fun hne => hn ⟨⟨r, by simp, hr, hpos⟩, hne⟩
      · rw [Registration.UpToDate, h.upToDate r' (by simp [hr']) hpos]
        exact congrArg Value.object? ((hf.get _ _).trans (held_put ho (hpost r' hr'))).symm

/-- The place where the chain is told is the first one along the path. -/
theorem Lags.find_eq (h : c.Lags K seen w regs u) {pre post : List (Registration F C)}
    {r : Registration F C} (hregs : regs = pre ++ r :: post) (hr : r.At s.object s.property)
    (hpost : ∀ r' ∈ post, ¬ r'.At s.object s.property) :
    (w.heap.owners c.timing (.object c.root) c.segments).find? (s.Hits ·) = some r.place := by
  have hpost' : (post.map Registration.place).reverse.find? (s.Hits ·) = none := by
    simp only [List.find?_eq_none, List.mem_reverse, List.mem_map, decide_eq_true_eq]
    rintro _ ⟨r', hr', rfl⟩
    exact hpost r' hr'
  rw [h.owners, hregs, List.map_append, List.map_cons, List.reverse_append, List.reverse_cons,
    List.append_assoc, List.find?_append, hpost', Option.none_or, List.singleton_append,
    List.find?_cons_of_pos]
  exact decide_eq_true hr

theorem Lags.find_eq_none (h : c.Lags K seen w regs u)
    (hn : ∀ r ∈ regs, ¬ r.At s.object s.property) :
    (w.heap.owners c.timing (.object c.root) c.segments).find? (s.Hits ·) = none := by
  rw [h.owners]
  simp only [List.find?_eq_none, List.mem_reverse, List.mem_map, decide_eq_true_eq]
  rintro _ ⟨r, hr, rfl⟩
  exact hn r hr

/-- What an assignment does to a chain that has kept up so far. -/
theorem Lags.assign [DecidableEq C] (hK : K.Pure seen) (hN : K.Notes seen c.code fun v => [v])
    (hp : ∀ s ∈ c.segments, s.property ≠ "") (htime : c.timing = .before) (hm : c.memory = none)
    (h : c.Lags K seen w regs u) (hs : s.Valid w.heap)
    (hsup : w.heap.supports s.object .before = true) (base : List (Frame F C)) :
    Completes K base ⟨.run s.command, base, w⟩ fun _ w' =>
      (c.Exact w'.heap ↔ ¬ s.Redirects w.heap c.root c.segments) ∧
        (¬ s.Redirects w.heap c.root c.segments → (∃ regs' u', c.Lags K seen w' regs' u') ∧
          seen w'.client = seen w.client ++ s.pending w.heap c.root c.segments) ∧
        ∃ regs' u', c.Live [] w'.heap [] regs' u' ∧ c.Tidy (c.Onlooker K seen) w'.heap ∧
          w.heap.Grows w'.heap := by
  refine (set hK hN hp h.live h.tidy hs.1 hs.2 (htime ▸ hsup) base).mono fun _ w' hw' => ?_
  split at hw'
  · next he =>
    -- an equal value is not stored
    subst hw'
    have hn : ¬ s.Redirects w'.heap c.root c.segments := fun hr =>
      hr.2 (Value.object?_eq_of_eqv he)
    refine ⟨iff_of_true h.exact hn, fun _ => ⟨⟨regs, u, h⟩, ?_⟩, regs, u, h.live, h.tidy, .refl _⟩
    rw [Assignment.pending, if_pos (show (s.old w'.heap).eqv s.value = true from he),
      List.append_nil]
  next he =>
  change ¬ (s.old w.heap).eqv s.value = true at he
  have hgrows := Heap.grows_put (h := w.heap) s.object s.property s.value
  rw [htime, Timing.told] at hw'
  obtain ⟨hn, hu⟩ | ⟨pre, r, post, todo, new, hregs, hr, hpost, -, hd, hf⟩ := hw'
  -- the chain is not registered for the property
  · have hl := h.unmoved hs.1 hn hu
    have hnr : ¬ s.Redirects w.heap c.root c.segments := fun hred => by
      obtain ⟨⟨r, hr, hat, -⟩, -⟩ := (h.redirects_iff htime).1 hred
      exact hn r hr hat
    refine ⟨iff_of_true hl.exact hnr, fun _ => ⟨⟨regs, u, hl⟩, ?_⟩, regs, u, hl.live, hl.tidy,
      hgrows.trans hu.1.leaves.toGrows⟩
    rw [Assignment.pending, if_neg he, ← htime, h.find_eq_none hn, List.append_nil]
    exact hu.2
  -- its last registration there is told, and it follows the links after that one again
  · have hiff := h.followed htime hs.1 hregs hr hpost hd hf
    refine ⟨(hf.live.places_perm_iff hf.tidy.numbered).trans hiff, fun hred =>
      ⟨⟨_, _, hf.live, hf.tidy, hiff.2 hred⟩, ?_⟩, _, _, hf.live, hf.tidy, hgrows.trans hf.grows⟩
    have hseen : seen w'.client = seen w.client ++
        [(w.heap.put s.object s.property s.value).readFrom (s.old w.heap) (todo.map Link.segment)] :=
      hf.handed.seen_eq hm
    rw [hseen, Assignment.pending, if_neg he, ← htime, h.find_eq hregs hr hpost]
    have hafter : r.place.after = todo.length := hd
    cases todo with
    | nil => simp only [hafter, List.length_nil, if_true]; rfl
    | cons l todo =>
      have hnone : (s.old w.heap).object? = none := by
        have heq : (s.old w.heap).object? = s.value.object? := Classical.not_not.1 fun hne =>
          hred ((h.redirects_iff htime).2 ⟨⟨r, by simp [hregs], hr, by simp [hd]⟩, hne⟩)
        cases ho : (s.old w.heap).object? with
        | none => rfl
        | some o => exact absurd (Value.eqv_of_object? ho (heq ▸ ho)) he
      simp only [hafter, List.length_cons, Nat.succ_ne_zero, if_false, List.map_cons,
        Heap.readFrom_of_none hnone]

/-- Assignments come to an end wherever the chain is. -/
theorem Live.performs (hK : K.Pure seen) (hN : K.Notes seen c.code fun v => [v])
    (hp : ∀ s ∈ c.segments, s.property ≠ "") (sets : List Assignment) :
    ∀ (w : World F C S) (regs : List (Registration F C)) (u : Value), c.Live [] w.heap [] regs u →
      c.Tidy (c.Onlooker K seen) w.heap →
      (∀ o < w.heap.objects.size, w.heap.supports o c.timing = true) →
      (∀ s ∈ sets, s.Valid w.heap) → ∃ ws, w.Performs K (sets.map Assignment.command) ws := by
  induction sets with
  | nil => exact fun _ _ _ _ _ _ _ => ⟨[], .nil⟩
  | cons s rest ih =>
    intro w regs u hl ht hsup hsets
    obtain ⟨hs, hb⟩ := hsets s List.mem_cons_self
    obtain ⟨signal, w₁, hans, h₁⟩ :=
      (set (p := s.property) hK hN hp hl ht hs hb (hsup _ hs) []).answers
    obtain ⟨⟨regs', u', hl₁⟩, ht₁, hg⟩ : (∃ regs' u', c.Live [] w₁.heap [] regs' u') ∧
        c.Tidy (c.Onlooker K seen) w₁.heap ∧ w.heap.Grows w₁.heap := by
      split at h₁
      · subst h₁
        exact ⟨⟨regs, u, hl⟩, ht, .refl _⟩
      · obtain ⟨hex, ht₁, hg⟩ := h₁.live (hl.leaves (leaves_put ..))
        exact ⟨hex, ht₁, (Heap.grows_put ..).trans hg⟩
    obtain ⟨ws, hws⟩ := ih w₁ regs' u' hl₁ ht₁
      (fun o ho => by rw [hg.supports]; exact hsup o (hg.objects ▸ ho))
      fun s hs => by
        rw [Assignment.Valid, hg.objects]
        exact hsets s (List.mem_cons_of_mem _ hs)
    exact ⟨w₁ :: ws, .cons hans hws⟩

/-- Assignments one after the other: the chain keeps up until one of them redirects a link. -/
theorem Lags.performs [DecidableEq C] (hK : K.Pure seen) (hN : K.Notes seen c.code fun v => [v])
    (hp : ∀ s ∈ c.segments, s.property ≠ "") (htime : c.timing = .before) (hm : c.memory = none)
    (sets : List Assignment) :
    ∀ (w : World F C S) (regs : List (Registration F C)) (u : Value), c.Lags K seen w regs u →
      (∀ o < w.heap.objects.size, w.heap.supports o .before = true) →
      (∀ s ∈ sets, s.Valid w.heap) →
      ∃ ws, w.Performs K (sets.map Assignment.command) ws ∧
        ((∀ x ∈ ws, c.Exact x.heap) ↔
          ∀ x ∈ (w :: ws).zip sets, ¬ x.2.Redirects x.1.heap c.root c.segments) ∧
        ((∀ x ∈ (w :: ws).zip sets, ¬ x.2.Redirects x.1.heap c.root c.segments) →
          seen (ws.getLastD w).client = seen w.client ++
            ((w :: ws).zip sets).flatMap fun x => x.2.pending x.1.heap c.root c.segments) := by
  induction sets with
  | nil => exact fun w _ _ _ _ _ => ⟨[], .nil, by simp, by simp⟩
  | cons s rest ih =>
    intro w regs u h hsup hsets
    obtain ⟨signal, w₁, hans, hexact, hkeep, regs', u', hl₁, ht₁, hg⟩ :=
      (h.assign hK hN hp htime hm (hsets s List.mem_cons_self)
        (hsup _ (hsets s List.mem_cons_self).1) []).answers
    have hsup₁ : ∀ o < w₁.heap.objects.size, w₁.heap.supports o .before = true := fun o ho => by
      rw [hg.supports]
      exact hsup o (hg.objects ▸ ho)
    have hsets₁ : ∀ s ∈ rest, s.Valid w₁.heap := fun s hs => by
      rw [Assignment.Valid, hg.objects]
      exact hsets s (List.mem_cons_of_mem _ hs)
    by_cases hred : s.Redirects w.heap c.root c.segments
    · obtain ⟨ws, hws⟩ := Live.performs hK hN hp rest w₁ regs' u' hl₁ ht₁ (htime ▸ hsup₁) hsets₁
      refine ⟨w₁ :: ws, .cons hans hws, iff_of_false (fun hx => ?_) fun hx => ?_, fun hx => ?_⟩
      · exact hexact.1 (hx w₁ List.mem_cons_self) hred
      · exact hx (w, s) (by simp) hred
      · exact absurd hred (hx (w, s) (by simp))
    · obtain ⟨⟨regs₁, u₁, h₁⟩, hseen₁⟩ := hkeep hred
      obtain ⟨ws, hws, hiff, hseen⟩ := ih w₁ regs₁ u₁ h₁ hsup₁ hsets₁
      refine ⟨w₁ :: ws, .cons hans hws, ?_, fun hx => ?_⟩
      · simp only [List.forall_mem_cons, List.zip_cons_cons, hiff, hexact, hred, not_false_eq_true,
          true_and]
      · rw [List.zip_cons_cons, List.forall_mem_cons] at hx
        rw [List.zip_cons_cons, List.flatMap_cons, ← List.append_assoc, ← hseen₁, ← hseen hx.2]
        cases ws <;> rfl

end Chain

/-- Observing a path for pending changes, while properties are assigned one after
the other: the registrations are on the current owners of the segments after every operation exactly
when no assignment gives a link of the path another object. Then what is delivered, after what the path
reads at first, is what was replaced at its end. -/
theorem Path.observe_before_iff [DecidableEq C] {K : Client F C S} {seen : S → List Value} {code : C}
    {w : World F C S} (hw : w.Quiet K seen code .before) (p : Path)
    (hnames : ∀ s ∈ p.segments, s.property ≠ "") {caps : Capabilities}
    (hcaps : caps.supports p.rootType .before = true) {root : ObjectId}
    (hroot : root < w.heap.objects.size) (hheld : Node.object root ∈ K.refs w.client)
    (sets : List Assignment) (hsets : ∀ s ∈ sets, s.Valid w.heap) (a : Arguments F) :
    ∃ stream teardown w₁ ws, (p.pipeline .before caps).observe root a = .ok stream ∧
      w.Answers K (.subscribe stream (.client code)) (.subscription teardown) w₁ ∧
      w₁.Performs K (sets.map Assignment.command) ws ∧
      ((∀ x ∈ w₁ :: ws,
          (x.heap.places code).Perm (x.heap.owners .before (.object root) p.segments)) ↔
        ∀ x ∈ (w₁ :: ws).zip sets, ¬ x.2.Redirects x.1.heap root p.segments) ∧
      ((∀ x ∈ (w₁ :: ws).zip sets, ¬ x.2.Redirects x.1.heap root p.segments) →
        seen (ws.getLastD w₁).client = seen w.client ++ w₁.heap.readPath root p ::
          ((w₁ :: ws).zip sets).flatMap fun x => x.2.pending x.1.heap root p.segments) := by
  obtain ⟨c, hc⟩ : ∃ c, c = p.chain .before root w.heap code := ⟨_, rfl⟩
  have hsegs : c.segments = p.segments := by rw [hc, segments_chain]
  have hm : c.memory = none := by simp [hc, chain, LeavesOut]
  have hnames' : ∀ s ∈ c.segments, s.property ≠ "" := hsegs ▸ hnames
  obtain ⟨signal, w₁, hans, ⟨teardown, rfl⟩, new, hf⟩ :=
    (subscribe hw hnames hroot hheld []).answers
  rw [← hc] at hf
  have hg := grows_withRoot.trans hf.grows
  have htold : ∀ r ∈ new ++ [⟨root, c.rootHandler, w.heap.get root p.root.property⟩],
      r.told = r.held w₁.heap := fun r hr => by
    rcases List.mem_append.1 hr with hr | hr
    · exact hf.told r hr
    · rw [List.mem_singleton.1 hr, Registration.held, hf.get]
      simp [Chain.rootHandler, hc, chain]
  have h₁ : c.Lags K seen w₁ _ _ :=
    ⟨hf.live, hf.tidy, fun r hr _ => congrArg Value.object? (htold r hr)⟩
  obtain ⟨ws, hws, hiff, hseen⟩ := h₁.performs hw.pure (hc ▸ hw.notes) hnames' (by rw [hc]; rfl) hm
    sets w₁ _ _ (fun o ho => by rw [hg.supports]; exact hw.supports o (hg.objects ▸ ho))
    (fun s hs => by rw [Assignment.Valid, hg.objects]; exact hsets s hs)
  have hexact : ∀ x : World F C S, c.Exact x.heap ↔
      (x.heap.places code).Perm (x.heap.owners .before (.object root) p.segments) := fun x => by
    rw [Chain.Exact, hsegs, hc]
    rfl
  have hleaf : p.leaf.property ≠ "" := hnames _ List.getLastD_mem_cons
  have hroot' : c.root = root := by rw [hc]; rfl
  have hseen₁ : seen w₁.client = seen w.client ++ [w₁.heap.readPath root p] := by
    have hread := hf.live.follows.eq_read htold hnames'
    rw [hsegs, hroot'] at hread
    rw [hf.handed.seen_eq hm, hread]
    rfl
  rw [hsegs, hroot'] at hiff hseen
  refine ⟨p.stream .before root, teardown, w₁, ws, observe_pipeline _ _ _ hcaps hleaf a, hans, hws,
    ?_, fun hx => ?_⟩
  · rw [List.forall_mem_cons, ← hiff]
    simp only [← hexact, h₁.exact, true_and]
  · rw [hseen hx, hseen₁, List.append_assoc]
    rfl

/-- The first address gets another city, the person moves, and then the new address gets another
city and so does the first one. -/
def Assignment.moving : List Assignment := [⟨0, "City", .text "Molde"⟩, ⟨3, "Address", .object 1⟩,
  ⟨1, "City", .text "Bergen"⟩, ⟨0, "City", .text "Narvik"⟩]

theorem Path.observe_before_moving :
    ∃ stream teardown w₁ ws,
      (Path.city.pipeline .before ⟨[("Person", .full)]⟩).observe 3 (default : Arguments Empty) =
        .ok stream ∧
      World.Answers (.recorder [.object 3]) ⟨.homes, []⟩ (.subscribe stream (.client ()))
        (.subscription teardown) w₁ ∧
      w₁.Performs (.recorder [.object 3]) (Assignment.moving.map Assignment.command) ws ∧
      ((∀ x ∈ w₁ :: ws,
          (x.heap.places ()).Perm (x.heap.owners .before (.object 3) Path.city.segments)) ↔
        ∀ x ∈ (w₁ :: ws).zip Assignment.moving, ¬ x.2.Redirects x.1.heap 3 Path.city.segments) ∧
      ((∀ x ∈ (w₁ :: ws).zip Assignment.moving, ¬ x.2.Redirects x.1.heap 3 Path.city.segments) →
        (ws.getLastD w₁).client = [] ++ w₁.heap.readPath 3 .city ::
          ((w₁ :: ws).zip Assignment.moving).flatMap fun x => x.2.pending x.1.heap 3 Path.city.segments) :=
  observe_before_iff (World.quiet_homes _ _) .city (by decide) (by decide) (by decide) (by decide)
    Assignment.moving (by simp [Assignment.moving, Assignment.Valid, Heap.homes]) _

/-- Once the person has moved, the chain is registered with the address that was left: a change of
the new one is not delivered, and one of the address left is. -/
theorem Path.observe_before_left_behind :
    ∃ stream ws,
      (Path.city.pipeline .before ⟨[("Person", .full)]⟩).observe 3 (default : Arguments Empty) =
        .ok stream ∧
      World.Performs (.recorder [.object 3, .object 0]) ⟨.homes, []⟩ [.subscribe stream (.client ()),
        .set 3 "Address" (.object 1), .set 1 "City" (.text "Bergen"), .set 0 "City" (.text "Molde")]
        ws ∧
      ws.map (fun x => decide ((x.heap.places ()).Perm
        (x.heap.owners .before (.object 3) Path.city.segments))) = [true, false, false, false] ∧
      ws.map (fun x => x.client.length) = [1, 2, 2, 3] :=
  ⟨_, _, observe_pipeline .city .before 3 (by decide) (by decide) _,
    World.performs_after 20 (by decide +kernel), by decide +kernel, by decide +kernel⟩

end DataBinding
