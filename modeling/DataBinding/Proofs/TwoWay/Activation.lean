import DataBinding.Proofs.Machine.Sessions
import DataBinding.Proofs.Machine.Steps
import DataBinding.Proofs.TwoWay.InStep
import DataBinding.Proofs.TwoWay.Wiring
/-!
# Two-way bindings

When a two-way binding between two properties is activated, the source is written into the target, and
the first value that is read back is left out (`stores_activation`). From then on the two are in step.

`CallSite.binding_keeps_in_step`: they are after every assignment to one of them, in whatever order these
are made, and no call stores a property twice.
-/

namespace DataBinding

variable {F C S : Type} {K : Client F C S}

open State

/-! ## Heaps on the way -/

namespace Heap

variable {h : Heap F C} {o : ObjectId} {p : String} {t : Timing} {x : Observer F C}

/-- From the first heap to the second this property may have changed, and nothing else. -/
structure Spares (o : ObjectId) (p : String) (h h' : Heap F C) : Prop where
  size : h'.objects.size = h.objects.size
  handlers : ∀ a, h'.handlers a = h.handlers a
  supports : ∀ a t, h'.supports a t = h.supports a t
  subjects : h'.subjects = h.subjects
  get : ∀ a q, ¬ (a = o ∧ q = p) → h'.get a q = h.get a q

theorem Spares.refl (o : ObjectId) (p : String) (h : Heap F C) : h.Spares o p h :=
  ⟨rfl, fun _ => rfl, fun _ _ => rfl, rfl, fun _ _ _ => rfl⟩

theorem spares_put (ho : o < h.objects.size) (v : Value) : h.Spares o p (h.put o p v) where
  size := size_put ..
  handlers _ := handlers_put ..
  supports _ _ := supports_put ..
  subjects := rfl
  get a q hn := by
    rw [get_put _ _ _ _ _ _ ho]
    exact if_neg hn

/-- A property is watched by an observer that has left out one value. -/
def watchedLater (h : Heap F C) (o : ObjectId) (p : String) (t : Timing) (x : Observer F C) : Heap F C :=
  ((h.newCounter 1).2.addHandler o t p false (.skip h.counters.size x)).2.setCounter h.counters.size 0

@[simp] theorem size_watchedLater : (h.watchedLater o p t x).objects.size = h.objects.size :=
  size_addHandler ..

@[simp] theorem supports_watchedLater (a : ObjectId) (t' : Timing) :
    (h.watchedLater o p t x).supports a t' = h.supports a t' := supports_addHandler ..

@[simp] theorem get_watchedLater (a : ObjectId) (q : String) :
    (h.watchedLater o p t x).get a q = h.get a q := get_addHandler ..

theorem handlers_watchedLater (ho : o < h.objects.size) (a : ObjectId) :
    (h.watchedLater o p t x).handlers a = if a = o then
      h.handlers o ++ [⟨h.nextHandler o, t, p, false, .skip h.counters.size x⟩] else h.handlers a :=
  handlers_addHandler (h.newCounter 1).2 o a p t false _ ho

theorem counter_watchedLater : (h.watchedLater o p t x).counter h.counters.size = 0 := by
  simp [watchedLater, counter, setCounter, addHandler, newCounter]

end Heap

/-! ## Subscriptions -/

section Subscribe
variable {h : Heap F C} {k : S} {o : ObjectId} {p : String} {t : Timing}

/-- Watching a property through mappings leads to the first delivery. -/
theorem stores_subscribe_watch (maps : List (Mapping F)) (y : Observer F C) (hp : p ≠ "")
    (ho : Node.object o ∈ K.refs k) (fs : List (Frame F C)) :
    Stores K ⟨.run (.subscribe ((Stream.watch o p t).mapped maps) y), fs, h, k⟩ []
      ⟨.run (.deliver (.mapped maps y) (h.get o p)),
        .subscribed (.mapped maps y) (.handler o (h.nextHandler o)) :: fs,
        (h.addHandler o t p false (.mapped maps y)).2, k⟩ := by
  have halive : (⟨.run (.subscribe (.watch o p t) (.mapped maps y)), fs, h, k⟩ : State F C S).alive K
      (.object o) = true := alive_of_kept K (fun _ hm => hm) (.inl ho)
  have hempty : p.isEmpty = false := by simp [hp]
  refine (stores_subscribe_mapped maps _ y fs ⟨h, k⟩).after (.go id rfl ?_)
  rw [step_watch halive, hempty]
  simp only [Heap.read, hempty, Bool.false_eq_true, if_false, Heap.get_addHandler]
  exact .refl _

/-- The first value of a watched property is left out. -/
theorem stores_subscribe_skip (maps : List (Mapping F)) (y : Observer F C) (hp : p ≠ "")
    (ho : Node.object o ∈ K.refs k) (fs : List (Frame F C)) :
    Stores K ⟨.run (.subscribe ((Stream.skip (.watch o p t) 1).mapped maps) y), fs, h, k⟩ []
      ⟨.pass (.subscription (.handler o (h.nextHandler o))), fs,
        h.watchedLater o p t (.mapped maps y), k⟩ := by
  refine (stores_subscribe_mapped maps _ y fs ⟨h, k⟩).after (.go id rfl ?_)
  have hwatch := stores_subscribe_watch (h := (h.newCounter 1).2) (t := t) []
    (.skip h.counters.size (.mapped maps y)) hp ho fs
  refine Stores.after hwatch (.go id rfl ?_)
  have hone : ((h.newCounter 1).2.addHandler o t p false
      (.skip h.counters.size (.mapped maps y))).2.counter h.counters.size = 1 := by
    simp [Heap.counter, Heap.addHandler, Heap.newCounter]
  simp only [State.step, stepCommand, Observer.mapped, List.foldr_nil, stepDeliver] at hone ⊢
  rw [hone]
  exact .back (.refl _)

/-- Nobody hears of an assignment, and afterwards the property holds the value or one equal to it. -/
theorem stores_set_free {v : Value} (ho : o < h.objects.size) (hh : h.handlers o = [])
    (hv : v.eqv v = true) (fs : List (Frame F C)) :
    ∃ log h' b, Stores K ⟨.run (.set o p v), fs, h, k⟩ log ⟨.pass (.flag b), fs, h', k⟩ ∧
      (log = [] ∨ log = [(o, p)]) ∧ (h'.get o p).eqv v = true ∧ h.Spares o p h' := by
  have hnone : ∀ t, h.handlersFor o t p = [] := fun t => by simp [Heap.handlersFor_eq, hh]
  cases heq : (h.get o p).eqv v with
  | true => exact ⟨_, h, _, stores_set_equal heq, .inl rfl, heq, .refl ..⟩
  | false =>
    refine ⟨_, _, _, stores_set_unheard heq (hnone _) (hnone _), .inr rfl, ?_, Heap.spares_put ho v⟩
    rw [Heap.get_put _ _ _ _ _ _ ho, if_pos ⟨rfl, rfl⟩]
    exact hv

end Subscribe

/-! ## Activation -/

section Activation
variable {h : Heap F C} {k : S} {o o' : ObjectId} {p p' : String} {conv back : Value → Value}
  {maps maps' : List (Mapping F)} {x y : Observer F C}

/-- A property is watched, and each value is written into another one, to begin with the present one. -/
theorem stores_forward (hp : p ≠ "") (hne : o ≠ o') (hk : Node.object o ∈ K.refs k)
    (hk' : Node.object o' ∈ K.refs k) (ho : o < h.objects.size) (ho' : o' < h.objects.size)
    (hh' : h.handlers o' = [])
    (hx : (Observer.mapped maps x).Carries K (h.addHandler o .after p false (.mapped maps x)).2 o' p' conv)
    (hconv : (conv (h.get o p)).eqv (conv (h.get o p)) = true) (fs : List (Frame F C)) :
    ∃ log h', Stores K ⟨.run (.subscribe ((Stream.watch o p .after).mapped maps) x), fs, h, k⟩ log
        ⟨.pass (.subscription (.handler o (h.nextHandler o))), fs, h', k⟩ ∧
      (log = [] ∨ log = [(o', p')]) ∧ (h'.get o' p').eqv (conv (h.get o p)) = true ∧
      (h.addHandler o .after p false (.mapped maps x)).2.Spares o' p' h' := by
  obtain ⟨h₁, hh₁⟩ : ∃ h₁, h₁ = (h.addHandler o .after p false (Observer.mapped maps x)).2 := ⟨_, rfl⟩
  have hwatch := stores_subscribe_watch (h := h) (t := .after) maps x hp hk fs
  rw [← hh₁] at hwatch hx ⊢
  have hfree : h₁.handlers o' = [] := by
    rw [hh₁, Heap.handlers_addHandler _ _ _ _ _ _ _ ho, if_neg hne.symm]
    exact hh'
  have hexist : o' < h₁.objects.size := by
    rw [hh₁, Heap.size_addHandler]
    exact ho'
  obtain ⟨log, h₂, b, hset, hlog, hequal, hspares⟩ := stores_set_free (K := K) (p := p') (k := k)
    hexist hfree hconv (.writing o' :: .subscribed (.mapped maps x) (.handler o (h.nextHandler o)) :: fs)
  refine ⟨log, h₂, ?_, hlog, hequal, hspares⟩
  have hwrite := hx.stores hk' (.subscribed (.mapped maps x) (.handler o (h.nextHandler o)) :: fs)
    (h.get o p)
  have hend := hset.trans (.back (.back (.refl _)))
  rw [List.append_nil] at hend
  exact hwatch.after (hwrite.after hend)

/-- One property is watched and written into another one, which is then watched and written back,
except for its first value: the two are in step. -/
theorem stores_activation (hp : p ≠ "") (hp' : p' ≠ "") (hne : o ≠ o')
    (hx : ∀ h' : Heap F C, h'.subjects = h.subjects → (Observer.mapped maps x).Carries K h' o' p' conv)
    (hy : ∀ h' : Heap F C, h'.subjects = h.subjects → (Observer.mapped maps' y).Carries K h' o p back)
    (hends : ∀ a ∈ [o, o'], a < h.objects.size ∧ h.supports a .after = true ∧ h.handlers a = [] ∧
      Node.object a ∈ K.refs k)
    (hself : (h.get o p).eqv (h.get o p) = true)
    (hconv : (conv (h.get o p)).eqv (conv (h.get o p)) = true) :
    ∃ log t h', Stores K ⟨.run (.subscribeAll [] [((Stream.watch o p .after).mapped maps, x),
        ((Stream.skip (.watch o' p' .after) 1).mapped maps', y)]), [], h, k⟩ log
        ⟨.pass (.subscription t), [], h', k⟩ ∧
      (log = [] ∨ log = [(o', p')]) ∧ InStep K conv back o p o' p' ⟨h', k⟩ := by
  obtain ⟨ho, hs, hh, hk⟩ := hends o (by simp)
  obtain ⟨ho', hs', hh', hk'⟩ := hends o' (by simp)
  obtain ⟨log, h₁, hforward, hlog, hequal, hspares⟩ := stores_forward hp hne hk hk' ho ho' hh'
    (hx _ rfl) hconv [.gathering x [] [((Stream.skip (.watch o' p' .after) 1).mapped maps', y)]]
  have hskip := stores_subscribe_skip (h := h₁) (t := .after) maps' y hp' hk'
    [.gathering y [.handler o (h.nextHandler o)] []]
  refine ⟨log, .all [.handler o (h.nextHandler o), .handler o' (h₁.nextHandler o')],
    h₁.watchedLater o' p' .after (.mapped maps' y), ?_, hlog, ?_⟩
  -- one after the other is subscribed to
  · have hend := hforward.trans (.back (.go id rfl (hskip.after (.back (.go id rfl (.refl _))))))
    rw [List.append_nil] at hend
    exact .after (.go id rfl (.refl _)) hend
  · have hsize : h₁.objects.size = h.objects.size := by rw [hspares.size, Heap.size_addHandler]
    have hsupports : ∀ a, h₁.supports a .after = h.supports a .after := fun a => by
      rw [hspares.supports, Heap.supports_addHandler]
    have hhandlers : ∀ a, h₁.handlers a = if a = o then
        h.handlers o ++ [⟨h.nextHandler o, .after, p, false, .mapped maps x⟩] else h.handlers a :=
      fun a => by rw [hspares.handlers, Heap.handlers_addHandler _ _ _ _ _ _ _ ho]
    have hget : h₁.get o p = h.get o p := by
      rw [hspares.get o p fun he => hne he.1, Heap.get_addHandler]
    refine ⟨⟨?_, ?_, hne, hk, hk'⟩, ?_, ?_⟩
    · refine Heap.carries_of_handlers (i := h.nextHandler o) (y := .mapped maps x) ?_ ?_ ?_
        (hx _ hspares.subjects)
      · simpa [hsize] using ho
      · simpa [hsupports] using hs
      · rw [Heap.handlers_watchedLater (hsize ▸ ho'), if_neg hne, hhandlers, if_pos rfl, hh]
        rfl
    · refine Heap.carries_of_handlers (i := h₁.nextHandler o') ?_ ?_ ?_
        (.skip Heap.counter_watchedLater (hy _ hspares.subjects))
      · simpa [hsize] using ho'
      · simpa [hsupports] using hs'
      · rw [Heap.handlers_watchedLater (hsize ▸ ho'), if_pos rfl, hhandlers, if_neg hne.symm, hh']
        rfl
    · simpa [hget] using hequal
    · simpa [hget] using hself

end Activation

/-! ## Bindings in step -/

/-- The assignment is to this end of a binding. -/
def Assignment.To (s : Assignment) (o : ObjectId) (path : Path) : Prop :=
  s.object = o ∧ s.property = path.root.property

/-- Assignments to two properties in step keep them so. -/
theorem InStep.each {conv back : Value → Value} (hi : Value.Inverse conv back) {o o' : ObjectId}
    {p p' : String} (edits : List Assignment) :
    ∀ w : World F C S, InStep K conv back o p o' p' w →
      (∀ s ∈ edits, s.value.eqv s.value = true ∧
        ((s.object = o ∧ s.property = p) ∨ (s.object = o' ∧ s.property = p'))) →
      w.Each K (fun s l w' => (w'.heap.get o' p').eqv (conv (w'.heap.get o p)) = true ∧
        (w'.heap.get s.object s.property).eqv s.value = true ∧ (l.filterMap stored?).Nodup) edits := by
  induction edits with
  | nil => exact fun w _ _ => .nil
  | cons s rest ih =>
    intro w h hs
    obtain ⟨⟨hv, hend⟩, hrest⟩ := List.forall_mem_cons.1 hs
    obtain ⟨a, q, v⟩ := s
    obtain ⟨rfl, rfl⟩ | ⟨rfl, rfl⟩ := hend
    · obtain ⟨l, signal, w', he, h', hget, hnodup⟩ := h.set hi hv
      exact .cons he ⟨h'.equal, hget, hnodup⟩ (ih w' h' hrest)
    · obtain ⟨l, signal, w', he, h', hget, hnodup⟩ := (h.symm hi).set hi.symm hv
      have h'' := h'.symm hi.symm
      exact .cons he ⟨h''.equal, hget, hnodup⟩ (ih w' h'' hrest)

/-- A two-way binding between single properties of two objects that nothing else listens to, with
conversions that undo each other: after it is activated, and after each assignment to one of the two
properties, the target holds what the source converts to and the property assigned what it was given, and
no call has stored a property twice. -/
theorem CallSite.binding_keeps_in_step {w : World F C S} (s : CallSite) {caps : Capabilities}
    {b : BindingPlan} (hb : s.bindingPlan caps = .ok b)
    (hkind : s.kind = .twoWayBind ∨ s.kind = .taggedBind) (hsched : s.features.scheduler = false)
    (hpaths : ∀ p ∈ s.paths,
      p.links = [] ∧ p.root.property ≠ "" ∧ caps.supports p.rootType .after = true)
    {source target : ObjectId} (hne : source ≠ target)
    (hends : ∀ o ∈ [source, target], o < w.heap.objects.size ∧ w.heap.supports o .after = true ∧
      w.heap.handlers o = [] ∧ Node.object o ∈ K.refs w.client)
    (hself : (w.heap.get source b.sourcePath.root.property).eqv
      (w.heap.get source b.sourcePath.root.property) = true)
    (a : Arguments F) {conv back : Value → Value}
    (hconv : a.Supplies K s.features.conversion .converter conv)
    (hback : a.Supplies K s.features.conversion .backConverter back)
    (hi : Value.Inverse conv back) (edits : List Assignment)
    (hedits : ∀ e ∈ edits, e.value.eqv e.value = true ∧
      (e.To source b.sourcePath ∨ e.To target b.targetPath)) :
    ∃ x h l t w₁, b.activate source target a w.heap = (.ok x, h) ∧
      Ends K [] (World.start ⟨h, w.client⟩ (.subscribeAll [] x.subscriptions)) l
        ⟨.pass (.subscription t), [], w₁⟩ ∧
      ((w₁.heap.get target b.targetPath.root.property).eqv
        (conv (w₁.heap.get source b.sourcePath.root.property)) = true ∧
        (l.filterMap stored?).Nodup) ∧
      w₁.Each K (fun e l w' => (w'.heap.get target b.targetPath.root.property).eqv
          (conv (w'.heap.get source b.sourcePath.root.property)) = true ∧
        (w'.heap.get e.object e.property).eqv e.value = true ∧ (l.filterMap stored?).Nodup) edits := by
  obtain ⟨mode, -, -, hp, -⟩ := bindingPlan_eq hb
  obtain ⟨hsl, hsn, hsc⟩ := hpaths b.sourcePath (by simp [hp])
  obtain ⟨htl, htn, htc⟩ := hpaths b.targetPath (by simp [hp])
  have hbi : s.kind.isBidirectional = true := by
    obtain hk | hk := hkind <;> rw [hk] <;> rfl
  obtain ⟨pipeline, changes, hactivate⟩ := BindingPlan.activate_eq hb hbi hsched hsl hsc htl htc hconv
    hback source target w.heap
  have hobjects := BindingPlan.objects_prepared (b := b) w.heap
  have hget : ∀ o q, (b.prepared w.heap).get o q = w.heap.get o q := fun o q => by
    simp only [Heap.get, hobjects]
  -- both directions carry converted values, wherever the subjects are as they are now
  have hforward : ∀ h' : Heap F C, h'.subjects = (b.prepared w.heap).subjects → (Observer.mapped
      (Mapping.stages (a.supplied? s.features.conversion .converter) (b.tag w.heap .source))
      (.write target b.targetPath)).Carries K h' target b.targetPath.root.property conv :=
    fun h' hs => Observer.carries_mapped htl htn (fun f hf => hconv.apply_of_some hf) hconv.eq_of_none
      fun t => BindingPlan.observers_of_tag hs
  have hbackward : ∀ h' : Heap F C, h'.subjects = (b.prepared w.heap).subjects → (Observer.mapped
      (Mapping.stages (a.supplied? s.features.conversion .backConverter) (b.tag w.heap .target))
      (.write source b.sourcePath)).Carries K h' source b.sourcePath.root.property back :=
    fun h' hs => Observer.carries_mapped hsl hsn (fun f hf => hback.apply_of_some hf) hback.eq_of_none
      fun t => BindingPlan.observers_of_tag hs
  obtain ⟨log, t, h₁, hstores, hlog, hstep⟩ := stores_activation (k := w.client) hsn htn hne hforward
    hbackward (by simpa only [Heap.supports, Heap.handlers, hobjects] using hends)
    (by rw [hget]; exact hself) (by rw [hget]; exact hi.respects _ _ hself)
  obtain ⟨l, hl, rfl⟩ := hstores.ends
  refine ⟨_, _, l, t, _, hactivate, hl, ⟨hstep.equal, ?_⟩, InStep.each hi edits _ hstep hedits⟩
  obtain hlog | hlog := hlog <;> rw [hlog] <;> simp

/-! ## A switch and a lamp -/

/-- The opposite of a truth value; any other value is left as it is. -/
def Value.opposite : Value → Value
  | .bool b => .bool (!b)
  | v => v

theorem Value.inverse_opposite : Value.Inverse opposite opposite := by
  have hrespects : ∀ v v' : Value, v.eqv v' = true → v.opposite.eqv v'.opposite = true := by
    intro v v' h
    cases v with
    | bool b =>
      cases v' with
      | bool b' => simpa [opposite, eqv] using h
      | _ => cases h
    | _ =>
      cases v' with
      | bool b' => cases h
      | _ => exact h
  have hundoes : ∀ v : Value, v.eqv v = true → v.opposite.opposite.eqv v = true := by
    intro v h
    cases v with
    | bool b => simp [opposite, eqv]
    | _ => exact h
  exact ⟨hrespects, hrespects, hundoes, hundoes⟩

/-- The one function there is yields the opposite; of a client that holds these things. -/
def Client.opposing (held : List Node) : Client Unit Empty Unit where
  apply _ v w := (v.opposite, w)
  resume := nofun
  functionRefs _ := []
  codeRefs := nofun
  refs _ := held

/-- A switch that is on, and a lamp. -/
def Heap.switchAndLamp : Heap Unit Empty :=
  { Heap.empty with objects := #[⟨"Switch", .full, [("On", .bool true)], [], 0⟩,
      ⟨"Lamp", .full, [], [], 0⟩] }

/-- Whether a switch is on is bound to whether a lamp is dark, in both directions. -/
def CallSite.lamp : CallSite where
  kind := .taggedBind
  owner := ⟨"Lamp", false⟩
  paths := [.single ⟨"On", ⟨"bool", false⟩, ⟨"Switch", false⟩⟩,
    .single ⟨"Dark", ⟨"bool", false⟩, ⟨"Lamp", false⟩⟩]
  result := ⟨"bool", false⟩
  features := { (default : Features) with conversion := true }
  location := ⟨"lamp.rs", 1⟩
  texts := []

theorem CallSite.lamp_keeps_in_step :
    ∃ b, CallSite.lamp.bindingPlan ⟨[("Switch", .full), ("Lamp", .full)]⟩ = .ok b ∧
    ∃ x h l t w₁, b.activate 0 1 ⟨none, some (), some (), none⟩ Heap.switchAndLamp = (.ok x, h) ∧
      Ends (Client.opposing [.object 0, .object 1])
        [] (World.start ⟨h, ()⟩ (.subscribeAll [] x.subscriptions)) l
        ⟨.pass (.subscription t), [], w₁⟩ ∧
      ((w₁.heap.get 1 b.targetPath.root.property).eqv
        (w₁.heap.get 0 b.sourcePath.root.property).opposite = true ∧
        (l.filterMap stored?).Nodup) ∧
      w₁.Each (.opposing [.object 0, .object 1])
        (fun e l w' => (w'.heap.get 1 b.targetPath.root.property).eqv
          (w'.heap.get 0 b.sourcePath.root.property).opposite = true ∧
        (w'.heap.get e.object e.property).eqv e.value = true ∧ (l.filterMap stored?).Nodup)
        [⟨0, "On", .bool false⟩, ⟨1, "Dark", .bool false⟩] := by
  have hplan : CallSite.lamp.bindingPlan ⟨[("Switch", .full), ("Lamp", .full)]⟩ = .ok _ := rfl
  refine ⟨_, hplan, ?_⟩
  refine binding_keeps_in_step (K := .opposing [.object 0, .object 1]) (w := ⟨.switchAndLamp, ()⟩)
    CallSite.lamp hplan (.inr rfl) rfl ?_ ?_ ?_ ?_ _ ?_ ?_ Value.inverse_opposite _ ?_
  · decide
  · decide
  · decide
  · decide
  · exact ⟨fun _ => ⟨(), rfl, fun _ _ => rfl⟩, nofun⟩
  · exact ⟨fun _ => ⟨(), rfl, fun _ _ => rfl⟩, nofun⟩
  · simp [Assignment.To, Value.eqv, Path.single]

end DataBinding
