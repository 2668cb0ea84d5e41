import DataBinding.Proofs.Flatten.Hooks
import DataBinding.Proofs.Machine.Sessions
/-!
# Properties whose streams are taken

Several properties of an object are watched, each by a switch of its own that takes the streams it holds
(`World.Flattens`): each switch is subscribed to the subject that its property holds a stream of. An
assignment to a property of the object keeps this and delivers nothing (`World.Flattens.set`); a value that
is pushed into a subject is delivered once for each property that holds a stream of it
(`World.Flattens.next`); and so often is the subscription registered there
(`World.Flattens.registrations_eq`).
-/

namespace DataBinding

variable {F C S : Type}

/-- A watched property, and the switch that takes the streams it holds. -/
structure Inlet where
  property : String
  switch : Nat

/-- The handler of an inlet. -/
def Inlet.handler (a : Inlet) (id : Nat) (code : C) : Handler F C :=
  ⟨id, .after, a.property, false, .hook a.switch (.client code)⟩

/-- How often the code is registered with a subject. -/
def Heap.registrations [DecidableEq C] (h : Heap F C) (code : C) (j : SubjectId) : Nat :=
  (h.observers j).countP fun x => x.code? = some code

/-- How many of these properties of an object hold a stream of a subject. -/
def Heap.holding (h : Heap F C) (root : ObjectId) (properties : List String) (j : SubjectId) : Nat :=
  properties.countP fun p => h.subjectOf? (h.get root p) = some j

/-- The inlets are all there is of the code: their switches are subscribed to the subjects that their
properties hold streams of, their handlers are registered, and all other observers look on. -/
structure World.Flattens (K : Client F C S) (seen : S → List Value) (code : C) (root : ObjectId)
    (inlets : List Inlet) (w : World F C S) : Prop where
  nodup : (inlets.map Inlet.switch).Nodup
  hooks : ∃ target, w.heap.Hooks (Observer.Looks K seen code) code (inlets.map Inlet.switch) target ∧
    ∀ a ∈ inlets, target a.switch = w.heap.subjectOf? (w.heap.get root a.property)
  handlers : ∀ x ∈ w.heap.handlers root, x.observer.Looks K seen code ∨
    ∃ a ∈ inlets, x = a.handler x.id code
  registered : ∀ a ∈ inlets, ∃ id, a.handler id code ∈ w.heap.handlers root
  named : ∀ a ∈ inlets, a.property ≠ ""
  flat : ∀ a ∈ inlets, w.heap.Flat (K.refs w.client) (w.heap.get root a.property)
  exist : root < w.heap.objects.size
  supports : w.heap.supports root .after = true

/-- The streams there were are there, and the client holds what it held. -/
structure World.Upholds (K : Client F C S) (w w' : World F C S) : Prop where
  heap : w.heap.Upholds w'.heap
  held : K.refs w.client ⊆ K.refs w'.client

variable {K : Client F C S} {seen : S → List Value} {code : C} {root : ObjectId} {inlets : List Inlet}
  {w w' w'' : World F C S} {v : Value}

theorem World.Upholds.trans (a : w.Upholds K w') (b : w'.Upholds K w'') : w.Upholds K w'' :=
  ⟨a.heap.trans b.heap, List.Subset.trans a.held b.held⟩

theorem World.Upholds.flat (a : w.Upholds K w') (hv : w.heap.Flat (K.refs w.client) v) :
    w'.heap.Flat (K.refs w'.client) v := hv.upholds a.heap a.held

theorem World.Undisturbed.upholds (a : w.Undisturbed K seen w') : w.Upholds K w' := ⟨a.heap.rehooks.toUpholds, a.held⟩

open State

theorem Observer.Looks.not_hook {i : Nat} {next : Observer F C} :
    ¬ (Observer.hook i next).Looks K seen code := fun hx => hx.2

theorem Observer.hook_inj {i i' : Nat} {next next' : Observer F C}
    (he : Observer.hook i next = .hook i' next') : i = i' := by
  simp only [Observer.hook, Observer.map.injEq, Observer.outer.injEq] at he
  exact he.2.1

/-! ## Telling handlers -/

section Notify
variable {switches : List Nat} {target : Nat → Option SubjectId}

/-- A value is told to a handler that looks on or is a hook: the hook turns to its subject, and nothing is
delivered. -/
theorem completes_tell (hK : K.Extends seen) (o : ObjectId) {x : Handler F C}
    (hx : x.observer.Looks K seen code ∨ (x.reportsOwner = false ∧
      w.heap.Flat (K.refs w.client) v ∧ ∃ i ∈ switches, x.observer = .hook i (.client code)))
    (hh : w.heap.Hooks (Observer.Looks K seen code) code switches target) (base : List (Frame F C)) :
    Completes K base ⟨.run (.deliver x.observer (if x.reportsOwner then .object o else v)), base, w⟩ fun _ w' =>
      w.heap.Rehooks w'.heap ∧ w.Upholds K w' ∧ seen w'.client = seen w.client ∧
      ∃ target', w'.heap.Hooks (Observer.Looks K seen code) code switches target' ∧ ∀ i,
        (x.observer = .hook i (.client code) → target' i = w.heap.subjectOf? v) ∧
        (x.observer ≠ .hook i (.client code) → target' i = target i) := by
  rcases hx with hlooks | ⟨howner, hv, i, hi, hx⟩
  · refine (hlooks.deliver hK _ _ w).mono fun _ w' hw' => ⟨hw'.heap.rehooks, hw'.upholds, hw'.seen, target,
      hh.congr hw'.heap.switches hw'.heap.subjects, fun i => ⟨fun he => ?_, fun _ => rfl⟩⟩
    rw [he] at hlooks
    exact hlooks.not_hook.elim
  · rw [howner, hx]
    refine (hh.deliver hi hv _).mono fun _ w' ⟨hk, hr, hh'⟩ => ⟨hr, ⟨hr.toUpholds, ?_⟩, ?_, _, hh',
      fun i' => ⟨fun he => ?_, fun hne => ?_⟩⟩
    · rw [hk]
      exact List.Subset.refl _
    · rw [hk]
    · obtain rfl : i = i' := Observer.hook_inj he
      exact Function.update_self ..
    · refine Function.update_of_ne ?_ ..
      rintro rfl
      exact hne rfl

/-- A value is told to handlers that look on or are hooks: the hooks turn to its subject, and nothing is
delivered. -/
theorem completes_notify (hK : K.Extends seen) (o : ObjectId) {l : List (Handler F C)}
    (hl : ∀ x ∈ l, x.observer.Looks K seen code ∨ (x.reportsOwner = false ∧
      w.heap.Flat (K.refs w.client) v ∧ ∃ i ∈ switches, x.observer = .hook i (.client code)))
    (hh : w.heap.Hooks (Observer.Looks K seen code) code switches target) (c : Control F C)
    (base : List (Frame F C)) :
    Completes K base (stepNotify ⟨c, base, w⟩ o v l) fun _ w' =>
      w.heap.Rehooks w'.heap ∧ w.Upholds K w' ∧ seen w'.client = seen w.client ∧
      ∃ target', w'.heap.Hooks (Observer.Looks K seen code) code switches target' ∧ ∀ i,
        ((∃ x ∈ l, x.observer = .hook i (.client code)) → target' i = w.heap.subjectOf? v) ∧
        ((∀ x ∈ l, x.observer ≠ .hook i (.client code)) → target' i = target i) := by
  induction l generalizing w target c with
  | nil =>
    refine .pass ⟨.refl _, ⟨.of_eq rfl rfl, List.Subset.refl _⟩, rfl, target, hh, fun i => ⟨?_, fun _ => rfl⟩⟩
    rintro ⟨x, hx, -⟩
    cases hx
  | cons x rest ih =>
    obtain ⟨hx, hrest⟩ := List.forall_mem_cons.1 hl
    refine .call (List.suffix_refl _) (completes_tell hK o hx hh (.notifying x rest o v :: base))
      fun signal w₁ ⟨hr, hc, hseen, target₁, hh₁, ht₁⟩ => .back ?_
    refine (ih (fun y hy => (hrest y hy).imp_right fun ⟨howner, hv, hi⟩ => ⟨howner, hc.flat hv, hi⟩) hh₁ _).mono
      fun _ w' ⟨hr', hc', hseen', target', hh', ht'⟩ => ?_
    refine ⟨hr.trans hr', hc.trans hc', hseen'.trans hseen, target', hh', fun i => ⟨?_, fun hn => ?_⟩⟩
    · rintro ⟨y, hy, he⟩
      -- the last hook of the switch that is told decides
      by_cases hmem : ∃ y ∈ rest, y.observer = .hook i (.client code)
      · obtain ⟨z, hz, hze⟩ := hmem
        have hv : w.heap.Flat (K.refs w.client) v := by
          rcases hrest z hz with hlooks | ⟨-, hv, -⟩
          · rw [hze] at hlooks
            exact hlooks.not_hook.elim
          · exact hv
        rw [(ht' i).1 ⟨z, hz, hze⟩, hv.subjectOf?_eq hc.heap]
      · rcases List.mem_cons.1 hy with rfl | hy
        · rw [(ht' i).2 fun y hy he => hmem ⟨y, hy, he⟩, (ht₁ i).1 he]
        · exact absurd ⟨y, hy, he⟩ hmem
    · obtain ⟨hx, hn⟩ := List.forall_mem_cons.1 hn
      rw [(ht' i).2 hn, (ht₁ i).2 hx]

end Notify

/-! ## Assignments -/

namespace World.Flattens

variable (hw : w.Flattens K seen code root inlets)
include hw

/-- Only an inlet of a property is told of it when it has changed. -/
theorem eq_of_mem_handlersFor {a : Inlet} (ha : a ∈ inlets) {p : String} {x : Handler F C}
    (hx : x ∈ w.heap.handlersFor root .after p) (he : x.observer = .hook a.switch (.client code)) :
    a.property = p := by
  obtain ⟨-, hm, -, hp⟩ := (w.heap.mem_handlersFor root p .after).1 hx
  rcases hw.handlers x hm with hl | ⟨b, hb, hxb⟩
  · rw [he] at hl
    exact hl.not_hook.elim
  · rw [hxb] at he hp
    obtain rfl : b = a := List.inj_on_of_nodup_map hw.nodup hb ha (Observer.hook_inj he)
    exact hp.resolve_left (hw.named b hb)

/-- Beforehand only those that look on are told. -/
theorem looks_of_before {p : String} {x : Handler F C} (hx : x ∈ w.heap.handlersFor root .before p) :
    x.observer.Looks K seen code := by
  obtain ⟨-, hm, htiming, -⟩ := (w.heap.mem_handlersFor root p .before).1 hx
  rcases hw.handlers x hm with hl | ⟨a, -, hxa⟩
  · exact hl
  · rw [hxa] at htiming
    cases htiming

/-- Afterwards it is those that look on, and the inlets of the property. -/
theorem looks_or_hook_of_after {p : String} {x : Handler F C} (hx : x ∈ w.heap.handlersFor root .after p) :
    x.observer.Looks K seen code ∨
      (x.reportsOwner = false ∧ ∃ i ∈ inlets.map Inlet.switch, x.observer = .hook i (.client code)) := by
  obtain ⟨-, hm, -⟩ := (w.heap.mem_handlersFor root p .after).1 hx
  rcases hw.handlers x hm with hl | ⟨a, ha, hxa⟩
  · exact .inl hl
  · exact .inr ⟨by rw [hxa]; rfl, a.switch, List.mem_map_of_mem ha, by rw [hxa]; rfl⟩

/-- While the object keeps its handlers, only the switches and the values of the properties matter. -/
theorem of_hooks {target : Nat → Option SubjectId} (hsize : w'.heap.objects.size = w.heap.objects.size)
    (hsupports : w'.heap.supports root .after = w.heap.supports root .after)
    (hhandlers : w'.heap.handlers root = w.heap.handlers root)
    (hh : w'.heap.Hooks (Observer.Looks K seen code) code (inlets.map Inlet.switch) target)
    (ht : ∀ a ∈ inlets, target a.switch = w'.heap.subjectOf? (w'.heap.get root a.property))
    (hflat : ∀ a ∈ inlets, w'.heap.Flat (K.refs w'.client) (w'.heap.get root a.property)) :
    w'.Flattens K seen code root inlets where
  nodup := hw.nodup
  hooks := ⟨target, hh, ht⟩
  handlers := hhandlers ▸ hw.handlers
  registered := hhandlers ▸ hw.registered
  named := hw.named
  flat := hflat
  exist := hsize ▸ hw.exist
  supports := hsupports.trans hw.supports

/-- A property of the object is assigned: nothing is delivered. -/
theorem set (hK : K.Extends seen) (p : String) (hv : w.heap.Flat (K.refs w.client) v) (base : List (Frame F C)) :
    Completes K base ⟨.run (.set root p v), base, w⟩ fun _ w' =>
      w'.Flattens K seen code root inlets ∧ w.Upholds K w' ∧ seen w'.client = seen w.client := by
  refine .step id ?_
  rw [State.step_set]
  split
  · exact .pass ⟨hw, ⟨.of_eq rfl rfl, List.Subset.refl _⟩, rfl⟩
  obtain ⟨target, hh, ht⟩ := hw.hooks
  obtain ⟨h, hput⟩ : ∃ h, h = w.heap.put root p v := ⟨_, rfl⟩
  have hup : w.Upholds K ⟨h, w.client⟩ := ⟨hput ▸ .of_eq rfl rfl, List.Subset.refl _⟩
  have hhandlers : ∀ t, h.handlersFor root t p = w.heap.handlersFor root t p := fun t => by
    rw [hput, Heap.handlersFor_put]
  rw [← hput, hhandlers]
  change Completes K base (stepNotify ⟨.pass .done, .announcing root p _ v :: base, h, w.client⟩ root _ _) _
  refine .call (State.suffix_notify ⟨_, _ :: base, _⟩ ..) (completes_notify (w := ⟨h, w.client⟩) hK root
    (fun x hx => .inl (hw.looks_of_before hx)) (hh.congr (hput ▸ rfl) (hput ▸ rfl)) _ _) ?_
  rintro _ w₁ ⟨hr₁, hc₁, hseen₁, target₁, hh₁, ht₁⟩
  refine .back ?_
  have hafter : w₁.heap.handlersFor root .after p = w.heap.handlersFor root .after p := by
    rw [← hhandlers]
    simp only [Heap.handlersFor, hr₁.objects]
  have hv₁ : w₁.heap.Flat (K.refs w₁.client) v := (hup.trans hc₁).flat hv
  simp only [stepFrame, hafter]
  change Completes K base (stepNotify ⟨.pass .done, .changed root _ v :: base, w₁⟩ root _ _) _
  refine .call (State.suffix_notify ⟨_, _ :: base, _⟩ ..) (completes_notify hK root (fun x hx =>
    (hw.looks_or_hook_of_after hx).imp_right fun h => ⟨h.1, hv₁, h.2⟩) hh₁ _ _) ?_
  rintro _ w₂ ⟨hr₂, hc₂, hseen₂, target₂, hh₂, ht₂⟩
  have hobjects : w₂.heap.objects = h.objects := hr₂.objects.trans hr₁.objects
  have hc : w.Upholds K w₂ := hup.trans (hc₁.trans hc₂)
  have hget : ∀ q, w₂.heap.get root q = if q = p then v else w.heap.get root q := fun q => by
    have hq : w₂.heap.get root q = h.get root q := by simp only [Heap.get, hobjects]
    rw [hq, hput, w.heap.get_put root root p q v hw.exist]
    simp only [true_and]
  refine .back (.pass (w := w₂) ⟨hw.of_hooks ?_ ?_ ?_ hh₂ (fun a ha => ?_) (fun a ha => ?_), hc, hseen₂.trans hseen₁⟩)
  · rw [hobjects, hput, Heap.size_put]
  · rw [← w.heap.supports_put root root p v, ← hput]
    simp only [Heap.supports, hobjects]
  · rw [← w.heap.handlers_put root root p v, ← hput]
    simp only [Heap.handlers, hobjects]
  -- the inlets of the property have turned to its new value, and the others are where they were
  · rw [hget]
    split
    · next hp =>
      obtain ⟨id, hm⟩ := hw.registered a ha
      rw [(ht₂ a.switch).1 ⟨a.handler id code, (w.heap.mem_handlersFor root p .after).2
        ⟨hw.supports, hm, rfl, .inr hp⟩, rfl⟩, hv₁.subjectOf?_eq hc₂.heap]
    · next hp =>
      rw [(ht₂ a.switch).2 fun x hx he => hp (hw.eq_of_mem_handlersFor ha hx he),
        (ht₁ a.switch).2 fun x hx he => (he ▸ hw.looks_of_before hx).not_hook, ht a ha,
        (hw.flat a ha).subjectOf?_eq hc.heap]
  · rw [hget]
    split
    · exact hc.flat hv
    · exact hc.flat (hw.flat a ha)

/-! ## Values that are pushed -/

omit hw in
/-- A value is given to observers that look on or are hooked: those of the code are given it once each. -/
theorem completes_publish [DecidableEq C] (hK : K.Extends seen) (hnotes : K.Notes seen code fun v => [v])
    (j : SubjectId) (v : Value) {switches : List Nat} {target : Nat → Option SubjectId}
    {l : List (Observer F C)} (hl : ∀ x ∈ l, x.Looks K seen code ∨ ∃ i ∈ switches, x = w.heap.hooked i code)
    (hh : w.heap.Hooks (Observer.Looks K seen code) code switches target) (c : Control F C)
    (base : List (Frame F C)) :
    Completes K base (stepPublish ⟨c, base, w⟩ j v l) fun _ w' => w.heap.Undisturbed w'.heap ∧
      K.refs w.client ⊆ K.refs w'.client ∧
      seen w'.client = seen w.client ++ List.replicate (l.countP fun x => x.code? = some code) v := by
  induction l generalizing w c with
  | nil => exact .pass ⟨.refl _, List.Subset.refl _, by simp [World.withHeap]⟩
  | cons x rest ih =>
    obtain ⟨hx, hrest⟩ := List.forall_mem_cons.1 hl
    -- one observer is given the value
    have hgiven : Completes K (.publishing x rest j v :: base) ⟨.run (.deliver x v),
        .publishing x rest j v :: base, w⟩ fun _ w' => w.heap.Undisturbed w'.heap ∧
          K.refs w.client ⊆ K.refs w'.client ∧
          seen w'.client = seen w.client ++ List.replicate (if x.code? = some code then 1 else 0) v := by
      rcases hx with hlooks | ⟨i, hi, rfl⟩
      · refine (hlooks.deliver hK _ _ w).mono fun _ w' hw' => ⟨hw'.heap, hw'.held, ?_⟩
        rw [if_neg hlooks.code?_ne, hw'.seen]
        simp
      · obtain ⟨w', hret, hheap, hseen⟩ := hnotes v w
        refine .step id ?_
        rw [Heap.hooked, step_inner (hh.on i hi) rfl]
        refine .step id (.resume hret ⟨?_, hret.held hK, ?_⟩)
        · rw [hheap]
          exact .refl _
        · simpa [Observer.code?] using hseen
    refine .call (List.suffix_refl _) hgiven ?_
    rintro signal w₁ ⟨hs, hheld, hseen⟩
    refine .back ?_
    have hrest' : ∀ y ∈ rest, y.Looks K seen code ∨ ∃ i ∈ switches, y = w₁.heap.hooked i code := by
      simpa only [Heap.hooked, Heap.switch, hs.switches] using hrest
    refine (ih hrest' (hh.congr hs.switches hs.subjects) _).mono ?_
    rintro _ w' ⟨hs', hheld', hseen'⟩
    refine ⟨hs.trans hs', List.Subset.trans hheld hheld', ?_⟩
    rw [hseen', hseen, List.append_assoc, ← List.replicate_add, List.countP_cons, Nat.add_comm]
    simp only [decide_eq_true_eq]

omit hw in
/-- The observers of a subject look on, or are hooked to it. -/
theorem observers {target : Nat → Option SubjectId}
    (hh : w.heap.Hooks (Observer.Looks K seen code) code (inlets.map Inlet.switch) target) (j : SubjectId) :
    ∀ x ∈ w.heap.observers j, x.Looks K seen code ∨
      ∃ i ∈ inlets.map Inlet.switch, x = w.heap.hooked i code := by
  intro x hx
  obtain ⟨id, hm⟩ := Heap.exists_mem_roster hx
  exact (hh.listed j _ hm).imp_right fun ⟨i, hi, he, _⟩ => ⟨i, hi, he⟩

/-- The code is registered with a subject as often as the properties hold a stream of it. -/
theorem registrations_eq [DecidableEq C] (j : SubjectId) :
    w.heap.registrations code j = w.heap.holding root (inlets.map Inlet.property) j := by
  obtain ⟨target, hh, ht⟩ := hw.hooks
  unfold Heap.registrations Heap.holding
  rw [hh.countP_observers hw.nodup (fun x hx => hx.code?_ne) j, List.countP_map, List.countP_map]
  refine List.countP_congr fun a ha => ?_
  simp only [Function.comp_apply, ht a ha]

/-- A value is pushed into a subject: it is delivered once for each property that holds a stream of it. -/
theorem next [DecidableEq C] (hK : K.Extends seen) (hnotes : K.Notes seen code fun v => [v]) (j : SubjectId)
    (v : Value) (base : List (Frame F C)) :
    Completes K base ⟨.run (.next j v), base, w⟩ fun _ w' =>
      w'.Flattens K seen code root inlets ∧ w.Upholds K w' ∧ seen w'.client = seen w.client ++
        List.replicate (w.heap.holding root (inlets.map Inlet.property) j) v := by
  obtain ⟨target, hh, ht⟩ := hw.hooks
  refine .step id ?_
  refine (completes_publish hK hnotes j v (observers hh j) hh _ base).mono fun _ w' ⟨hs, hheld, hseen⟩ => ?_
  have hc : w.Upholds K w' := ⟨hs.rehooks.toUpholds, hheld⟩
  have hget : ∀ q, w'.heap.get root q = w.heap.get root q := fun q => by simp only [Heap.get, hs.objects]
  refine ⟨hw.of_hooks (by rw [hs.objects]) (by simp only [Heap.supports, hs.objects])
    (by simp only [Heap.handlers, hs.objects]) (hh.congr hs.switches hs.subjects) (fun a ha => ?_) (fun a ha => ?_),
    hc, ?_⟩
  · rw [hget, (hw.flat a ha).subjectOf?_eq hc.heap]
    exact ht a ha
  · rw [hget]
    exact hc.flat (hw.flat a ha)
  · rw [hseen, ← hw.registrations_eq]
    rfl

end World.Flattens

end DataBinding
