import DataBinding.Proofs.Quiet.Session
import DataBinding.Proofs.Value.Equality
/-!
# A path is tracked

While a path is observed for completed changes, each registration of its chain was told last what its
property holds (`Chain.Tracks`). An assignment keeps this, and hands on what the path reads afterwards
(`Chain.Tracks.assign`).

`Path.observe_tracks`: so the values delivered are what the path reads, repeated values left out, and
the chain is registered with the current owners of its segments.
-/

namespace DataBinding

variable {F C S : Type}

namespace Chain

/-- The chain is live, each registration was told what its property holds, and so was the last
operator. Values equal themselves. -/
structure Tracks (c : Chain C) (K : Client F C S) (seen : S → List Value) (w : World F C S)
    (regs : List (Registration F C)) (u : Value) : Prop where
  live : c.Live [] w.heap [] regs u
  tidy : c.Tidy (c.Onlooker K seen) w.heap
  told : ∀ r ∈ regs, r.told = r.held w.heap
  remembered : (c.remembered w.heap).any (·.eqv u) = true
  equal : ∀ o p, (w.heap.get o p).eqv (w.heap.get o p) = true

variable {c : Chain C} {K : Client F C S} {seen : S → List Value} {w w' : World F C S}
  {regs new : List (Registration F C)} {u v : Value} {o : ObjectId} {p : String}

open State

theorem Tracks.read (h : c.Tracks K seen w regs u) (hp : ∀ s ∈ c.segments, s.property ≠ "") :
    u = w.heap.readFrom (.object c.root) c.segments := h.live.follows.eq_read h.told hp

/-- Once the links have been followed from a registration that was told what its property holds, the
chain tracks its path. -/
theorem Followed.tracks (hm : c.memory.isSome = true) (hp : ∀ s ∈ c.segments, s.property ≠ "")
    {todo : List Link}
    (hf : c.Followed seen (c.Onlooker K seen) [] todo regs new v w w')
    (ht : ∀ r ∈ regs, r.told = r.held w.heap)
    (he : ∀ o p, (w.heap.get o p).eqv (w.heap.get o p) = true) :
    c.Tracks K seen w' (new ++ regs) (w.heap.readFrom v (todo.map Link.segment)) := by
  have htold : ∀ r ∈ new ++ regs, r.told = r.held w'.heap := fun r hr => by
    rcases List.mem_append.1 hr with hr | hr
    · exact hf.told r hr
    · exact (ht r hr).trans (hf.get _ _).symm
  refine ⟨hf.live, hf.tidy, htold, ?_, fun o p => by rw [hf.get]; exact he o p⟩
  obtain ⟨hany, -, hr⟩ | ⟨-, -, hr⟩ := hf.handed
  · rw [hr]
    exact hany
  · obtain ⟨m, hm⟩ := Option.isSome_iff_exists.1 hm
    rw [hr, hm]
    obtain ⟨hu, -⟩ | ⟨r, hr, -, hu, -⟩ := hf.live.follows.leaf
      (fun r hr _ => congrArg Value.object? (htold r hr)) hp
    · rw [hu]
      rfl
    · rw [hu, htold r hr, Registration.held, hf.get]
      simpa using he _ _

theorem equal_put (ho : o < w.heap.objects.size) (hv : v.eqv v = true)
    (he : ∀ o p, (w.heap.get o p).eqv (w.heap.get o p) = true) (o' : ObjectId) (p' : String) :
    ((w.heap.put o p v).get o' p').eqv ((w.heap.put o p v).get o' p') = true := by
  rw [Heap.get_put _ _ _ _ _ _ ho]
  split
  · exact hv
  · exact he o' p'

/-- An assignment keeps the chain on its path and hands on what the path reads then. -/
theorem Tracks.assign (hK : K.Pure seen) (hN : K.Notes seen c.code fun v => [v])
    (hp : ∀ s ∈ c.segments, s.property ≠ "") (htime : c.timing = .after)
    (hm : c.memory.isSome = true) (h : c.Tracks K seen w regs u) (ho : o < w.heap.objects.size)
    (hb : ∀ b, v = .object b → b < w.heap.objects.size) (hv : v.eqv v = true)
    (hsup : w.heap.supports o .after = true) (base : List (Frame F C)) :
    Completes K base ⟨.run (.set o p v), base, w⟩ fun _ w' =>
      w.heap.Grows w'.heap ∧ ∃ regs' u', c.Tracks K seen w' regs' u' ∧ c.Handed seen u' w w' := by
  refine (set hK hN hp h.live h.tidy ho hb (htime ▸ hsup) base).mono fun _ w' hw' => ?_
  split at hw'
  · subst hw'
    exact ⟨.refl _, regs, u, h, .inl ⟨h.remembered, rfl, rfl⟩⟩
  have hequal := equal_put (p := p) ho hv h.equal
  have hgrows := Heap.grows_put (h := w.heap) o p v
  obtain ⟨hn, hu⟩ | ⟨pre, r, post, todo, new, rfl, hr, hpost, -, -, hf⟩ := hw'
  · have hrem := hu.remembered
    refine ⟨hgrows.trans hu.1.leaves.toGrows, regs, u, ⟨(h.live.leaves (leaves_put ..)).leaves hu.1.leaves,
      hu.1.tidy, fun r hr => ?_, ?_, fun o' p' => ?_⟩, .inl ⟨h.remembered, hu.2, hrem⟩⟩
    · rw [h.told r hr, Registration.held, Registration.held, hu.1.get]
      exact (held_put ho (hn r hr)).symm
    · rw [hrem]
      exact h.remembered
    · rw [hu.1.get]
      exact hequal o' p'
  · refine ⟨hgrows.trans hf.grows, _, _, hf.tracks hm hp (fun r' hr' => ?_) hequal, hf.handed⟩
    rcases List.mem_cons.1 hr' with rfl | hr'
    · rw [Registration.held, Heap.get_put _ _ _ _ _ _ ho, if_pos ⟨rfl, hr.2⟩, htime]
      rfl
    · rw [h.told r' (by simp [hr'])]
      exact (held_put ho (hpost r' hr')).symm

/-- What is noted of a value is what remains of it after the value remembered. -/
theorem Handed.noted (us : List Value) (hm : c.memory.isSome = true) (h : c.Handed seen u w w') :
    seen w.client ++ Value.changes (c.remembered w.heap) (u :: us) =
      seen w'.client ++ Value.changes (c.remembered w'.heap) us := by
  obtain ⟨m, hm⟩ := Option.isSome_iff_exists.1 hm
  obtain ⟨hany, hs, hr⟩ | ⟨hany, hs, hr⟩ := h
  · rw [Value.changes, if_pos hany, hs, hr]
  · rw [Value.changes, if_neg (by simp [hany]), hs, hr, hm, List.append_assoc]
    rfl

/-- Assignments one after the other keep the chain on its path. -/
theorem Tracks.performs (hK : K.Pure seen) (hN : K.Notes seen c.code fun v => [v])
    (hp : ∀ s ∈ c.segments, s.property ≠ "") (htime : c.timing = .after)
    (hm : c.memory.isSome = true) (sets : List Assignment) :
    ∀ (w : World F C S) (regs : List (Registration F C)) (u : Value), c.Tracks K seen w regs u →
      (∀ o < w.heap.objects.size, w.heap.supports o .after = true) →
      (∀ s ∈ sets, s.Valid w.heap ∧ s.value.eqv s.value = true) →
      ∃ ws, w.Performs K (sets.map Assignment.command) ws ∧
        seen (ws.getLastD w).client = seen w.client ++ Value.changes (c.remembered w.heap)
          (ws.map fun x => x.heap.readFrom (.object c.root) c.segments) ∧
        ∀ x ∈ ws, ∃ regs' u', c.Tracks K seen x regs' u' := by
  induction sets with
  | nil => exact fun w _ _ _ _ _ => ⟨[], .nil, by simp [Value.changes], by simp⟩
  | cons s rest ih =>
    intro w regs u h hsup hsets
    obtain ⟨⟨ho, hb⟩, hv⟩ := hsets s List.mem_cons_self
    obtain ⟨signal, w₁, hans, hg, regs', u', h₁, hh⟩ :=
      (h.assign hK hN hp htime hm ho hb hv (hsup _ ho) []).answers
    obtain ⟨ws, hws, hseen, htracks⟩ := ih w₁ regs' u' h₁
      (fun o ho => by rw [hg.supports]; exact hsup o (hg.objects ▸ ho))
      fun s hs => by
        rw [Assignment.Valid, hg.objects]
        exact hsets s (List.mem_cons_of_mem _ hs)
    refine ⟨w₁ :: ws, .cons hans hws, ?_, List.forall_mem_cons.2 ⟨⟨regs', u', h₁⟩, htracks⟩⟩
    rw [List.map_cons, ← h₁.read hp, hh.noted _ hm, ← hseen]
    cases ws <;> rfl

/-- A chain that tracks its path is registered with the owners of its segments. -/
theorem Tracks.places_perm [DecidableEq C] (h : c.Tracks K seen w regs u) :
    (w.heap.places c.code).Perm (w.heap.owners c.timing (.object c.root) c.segments) :=
  (h.live.places_perm_iff h.tidy.numbered).2 fun r hr _ => congrArg Value.object? (h.told r hr)

end Chain

/-- Observing a path of several segments for completed changes, while properties are assigned one after
the other: the values delivered are what the path reads after the subscription and after each
assignment, without those equal to the one before, and the registrations are one for each segment that
has an owner, on that owner. -/
theorem Path.observe_tracks [DecidableEq C] {K : Client F C S} {seen : S → List Value} {code : C}
    {w : World F C S} (hw : w.Quiet K seen code .after)
    (hequal : ∀ o q, (w.heap.get o q).eqv (w.heap.get o q) = true) (p : Path) (hlinks : p.links ≠ [])
    (hnames : ∀ s ∈ p.segments, s.property ≠ "") {caps : Capabilities}
    (hcaps : caps.supports p.rootType .after = true) {root : ObjectId}
    (hroot : root < w.heap.objects.size) (hheld : Node.object root ∈ K.refs w.client)
    (sets : List Assignment)
    (hsets : ∀ s ∈ sets, s.Valid w.heap ∧ s.value.eqv s.value = true) (a : Arguments F) :
    ∃ stream teardown w₁ ws, (p.pipeline .after caps).observe root a = .ok stream ∧
      w.Answers K (.subscribe stream (.client code)) (.subscription teardown) w₁ ∧
      w₁.Performs K (sets.map Assignment.command) ws ∧
      seen (ws.getLastD w₁).client = seen w.client ++
        Value.changes none ((w₁ :: ws).map fun x => x.heap.readPath root p) ∧
      ∀ x ∈ w₁ :: ws,
        (x.heap.places code).Perm (x.heap.owners .after (.object root) p.segments) := by
  obtain ⟨c, hc⟩ : ∃ c, c = p.chain .after root w.heap code := ⟨_, rfl⟩
  have hsegs : c.segments = p.segments := by rw [hc, segments_chain]
  have hm : c.memory.isSome = true := by simp [hc, chain, LeavesOut, hlinks]
  have hnames' : ∀ s ∈ c.segments, s.property ≠ "" := hsegs ▸ hnames
  obtain ⟨signal, w₁, hans, ⟨teardown, rfl⟩, new, hf⟩ :=
    (subscribe hw hnames hroot hheld []).answers
  rw [← hc] at hf
  have h₁ := hf.tracks hm hnames' (by simp [Registration.held, Chain.rootHandler, hc, chain])
    fun o q => by simp only [get_withRoot, hequal]
  have hg := grows_withRoot.trans hf.grows
  obtain ⟨ws, hws, hseen, htracks⟩ := h₁.performs hw.pure (hc ▸ hw.notes) hnames' (by rw [hc]; rfl)
    hm sets w₁ _ _ (fun o ho => by rw [hg.supports]; exact hw.supports o (hg.objects ▸ ho))
    (fun s hs => by rw [Assignment.Valid, hg.objects]; exact hsets s hs)
  have hplaces : ∀ x : World F C S, (∃ regs u, c.Tracks K seen x regs u) →
      (x.heap.places code).Perm (x.heap.owners .after (.object root) p.segments) := by
    rintro x ⟨regs, u, hx⟩
    have := hx.places_perm
    rw [hsegs, hc] at this
    exact this
  have hread : ∀ x : World F C S,
      x.heap.readFrom (.object c.root) c.segments = x.heap.readPath root p := fun x => by
    rw [hsegs, hc]
    rfl
  have hleaf : p.leaf.property ≠ "" := hnames _ (List.getLastD_mem_cons ..)
  refine ⟨p.stream .after root, teardown, w₁, ws, observe_pipeline _ _ _ hcaps hleaf a, hans, hws, ?_,
    List.forall_mem_cons.2 ⟨hplaces w₁ ⟨_, _, h₁⟩, fun x hx => hplaces x (htracks x hx)⟩⟩
  have hnoted := hf.handed.noted (ws.map fun x => x.heap.readPath root p) hm
  rw [h₁.read hnames', hread, hc, remembered_withRoot, ← hc] at hnoted
  rw [hseen, List.map_cons, hnoted]
  simp only [hread]

/-- A person whose city is observed moves, and then the old and the new address get other cities. -/
theorem Path.observe_tracks_move :
    ∃ stream teardown w₁ ws,
      (Path.city.pipeline .after ⟨[("Person", .full)]⟩).observe 3 (default : Arguments Empty) =
        .ok stream ∧
      World.Answers (.recorder [.object 3, .object 0]) ⟨.homes, []⟩ (.subscribe stream (.client ()))
        (.subscription teardown) w₁ ∧
      w₁.Performs (.recorder [.object 3, .object 0]) ([⟨3, "Address", .object 1⟩,
        ⟨0, "City", .text "Molde"⟩, ⟨1, "City", .text "Bergen"⟩].map Assignment.command) ws ∧
      (ws.getLastD w₁).client =
        [] ++ Value.changes none ((w₁ :: ws).map fun x => x.heap.readPath 3 .city) ∧
      ∀ x ∈ w₁ :: ws,
        (x.heap.places ()).Perm (x.heap.owners .after (.object 3) Path.city.segments) :=
  observe_tracks (World.quiet_homes _ _) Heap.eqv_homes .city (by decide) (by decide) (by decide)
    (by decide) (by decide) _ (by simp [Assignment.Valid, Heap.homes, Value.eqv]) _

end DataBinding
