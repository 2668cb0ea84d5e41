import DataBinding.Proofs.TwoWay.Activation
import DataBinding.Proofs.TwoWay.Effects
/-!
# No echo

When a two-way binding without a scheduler is activated, the value of the source is converted and written
into the target. What is then read back from the target is one value, and it is left out.

`CallSite.activation_spares_others`: so no property changes but the one at the end of the target path, and
nothing is converted back.
-/

namespace DataBinding

variable {F C S : Type} {K : Client F C S} {k : S} {g h h' : Heap F C}
  {taps : List (ObjectId × String)} {v : Value} {x y : Stream F} {fs : List (Frame F C)}

open State

/-! ## Writing -/

/-- A value is converted, published to nobody, and passed on. -/
theorem logs_mapped {convert : Option F} {tag : Option (SubjectId × Side)} {conv : Value → Value}
    (hsome : ∀ f, convert = some f → ∀ v w, K.apply f v w = (conv v, w))
    (hnone : convert = none → ∀ v, conv v = v) (htag : ∀ t, tag = some t → h.observers t.1 = [])
    (o : Observer F C) (v : Value) (fs : List (Frame F C)) :
    Logs K effect? ⟨.run (.deliver (.mapped (Mapping.stages convert tag) o) v), fs, h, k⟩
      (convert.toList.map .applies) ⟨.run (.deliver o (conv v)), fs, h, k⟩ := by
  have hpublish : ∀ u, Logs K effect? ⟨.run (.deliver (.mapped (Mapping.stages none tag) o) u), fs, h, k⟩ []
      ⟨.run (.deliver o u), fs, h, k⟩ := by
    intro u
    cases tag with
    | none => exact .refl _
    | some t =>
      change Logs K effect? ⟨.run (.deliver (.map (.publish t.1 t.2) o) u), fs, h, k⟩ [] _
      refine .go id rfl (.go id rfl ?_)
      simp only [step, stepCommand, stepDeliver, stepMap, under, World.withHeap, htag t rfl, stepPublish]
      exact .back rfl (.refl _)
  cases convert with
  | none =>
    rw [hnone rfl v]
    exact hpublish v
  | some f =>
    change Logs K effect? ⟨.run (.deliver (.map (.apply f) (.mapped (Mapping.stages none tag) o)) v), fs,
      h, k⟩ [.applies f] _
    refine .act id rfl ?_
    simp only [step, stepCommand, stepDeliver, stepMap, hsome f rfl]
    exact hpublish (conv v)

/-- A value is written through a path, and nobody hears of it. -/
theorem logs_write {root : ObjectId} {path : Path} (hc : h.Closed) (hr : root < h.objects.size)
    (hk : Node.object root ∈ K.refs k)
    (hh : ∀ o p, h.target? root path = some (o, p) → ∀ t, h.handlersFor o t p = []) (v : Value)
    (fs : List (Frame F C)) :
    ∃ log h', h.Assigned v (h.target? root path) log h' ∧
      Logs K effect? ⟨.run (.deliver (.write root path) v), fs, h, k⟩
        (log.map fun x => .stores x.1 x.2) ⟨.pass .done, fs, h', k⟩ := by
  have halive : (⟨.run (.deliver (.write root path) v), fs, h, k⟩ : State F C S).alive K (.object root) =
      true := alive_of_kept K (fun _ hm => hm) (.inl hk)
  have hwrite : ∀ {log : List (Effect F)} {e : State F C S}, Logs K effect?
      (stepWrite ⟨.run (.write root path v), .writing root :: fs, h, k⟩ root path v) log e →
      Logs K effect? ⟨.run (.deliver (.write root path) v), fs, h, k⟩ log e := by
    intro log e hl
    refine .go id rfl ?_
    simp only [step, stepCommand, stepDeliver]
    rw [if_pos halive]
    exact .go id rfl hl
  cases he : h.target? root path with
  | none =>
    refine ⟨[], h, h.assigned_none v, hwrite ?_⟩
    simp only [stepWrite, he]
    exact .back rfl (.refl _)
  | some x =>
    obtain ⟨o, p⟩ := x
    have hset : stepWrite ⟨.run (.write root path v), .writing root :: fs, h, k⟩ root path v =
        (⟨.run (.set o p v), .writing root :: fs, h, k⟩ : State F C S) := by
      simp only [stepWrite, he]
      rfl
    cases heq : (h.get o p).eqv v with
    | true =>
      refine ⟨[], h, Heap.assigned_same heq, hwrite ?_⟩
      rw [hset]
      exact (logs_set_equal heq (by simp [effect?, stored?, heq])).after (.back rfl (.refl _))
    | false =>
      have hput : Logs K effect? ⟨.run (.set o p v), .writing root :: fs, h, k⟩ [.stores o p]
          ⟨.pass (.flag true), .writing root :: fs, h.put o p v, k⟩ :=
        logs_set_unheard heq (hh o p he) (by simp [effect?, stored?, heq]) fun _ _ _ => rfl
      refine ⟨_, _, Heap.assigned_put (hc.target?_lt hr he), hwrite ?_⟩
      rw [hset]
      exact hput.trans (.back rfl (.refl _))

/-! ## Both directions -/

/-- What a stream yields is converted and written. -/
theorem logs_forward {convert : Option F} {tag : Option (SubjectId × Side)} {conv : Value → Value}
    {start root : ObjectId} {path : Path} (hx : x.Yields K k h start taps v) (hs : Node.object start ∈ K.refs k)
    (hnames : ∀ e ∈ taps, e.2 ≠ "") (hsome : ∀ f, convert = some f → ∀ v w, K.apply f v w = (conv v, w))
    (hnone : convert = none → ∀ v, conv v = v) (htag : ∀ t, tag = some t → h.observers t.1 = [])
    (hc : h.Closed) (hr : root < h.objects.size) (hk : Node.object root ∈ K.refs k)
    (hh : ∀ o p, h.target? root path = some (o, p) → (o, p) ∉ taps ∧ ∀ t, h.handlersFor o t p = [])
    (fs : List (Frame F C)) :
    ∃ log t h', h.Assigned (conv v) (h.target? root path) log h' ∧
      Logs K effect? ⟨.run (.subscribe (x.mapped (Mapping.stages convert tag)) (.write root path)), fs, h, k⟩
        (convert.toList.map .applies ++ log.map fun x => .stores x.1 x.2)
        ⟨.pass (.subscription t), fs, h', k⟩ := by
  obtain ⟨h₁, gs, ht, hb, hp⟩ := hx h (.mapped (Mapping.stages convert tag) (.write root path)) fs (.refl h)
    (.of_kept hs)
  have hl := hp.logs (List.suffix_refl _)
  have htarget := ht.agrees.target? root path
  have htag' : ∀ t, tag = some t → h₁.observers t.1 = [] := fun t he => by
    simpa only [Heap.observers, ht.subjects] using htag t he
  have hh' : ∀ o p, h₁.target? root path = some (o, p) → ∀ t, h₁.handlersFor o t p = [] := by
    intro o p he t
    obtain ⟨hm, hn⟩ := hh o p (htarget.symm.trans he)
    rw [ht.heard hnames t hm, hn t]
  obtain ⟨log, h₂, ha, hw⟩ := logs_write (ht.agrees.closed hc) (ht.agrees.size ▸ hr) hk hh' (conv v) (gs ++ fs)
  obtain ⟨t, h₃, ha₃, hback⟩ := hb.handsBack (K := K) (k := k) .done fs h₂
  have hd := hback.logs (List.suffix_append ..)
  rw [htarget] at ha
  have hfirst := logs_mapped hsome hnone htag' (.write root path) v (gs ++ fs) (k := k)
  have hsub : Logs K effect? ⟨.run (.subscribe (x.mapped (Mapping.stages convert tag)) (.write root path)),
      fs, h, k⟩ [] ⟨.run (.subscribe x (.mapped (Mapping.stages convert tag) (.write root path))), fs, h, k⟩ :=
    logs_subscribe_mapped _ _ _ _ _ fun _ _ => rfl
  refine ⟨log, t, h₃, ha.congr ht.agrees ha₃, hsub.after (hl.after (hfirst.trans ?_))⟩
  have hlast := hw.trans hd
  rw [List.append_nil] at hlast
  exact hlast

/-- The value that a stream yields is left out. -/
theorem logs_backward {root : ObjectId} (hy : y.Yields K k h root taps v) (hk : Node.object root ∈ K.refs k)
    (maps : List (Mapping F)) (o : Observer F C) (fs : List (Frame F C)) :
    ∃ t h', h.Agrees h' ∧
      Logs K effect? ⟨.run (.subscribe ((Stream.skip y 1).mapped maps) o), fs, h, k⟩ []
        ⟨.pass (.subscription t), fs, h', k⟩ := by
  obtain ⟨h₁, gs, ht, hb, hp⟩ := hy (h.newCounter 1).2 (.skip h.counters.size (.mapped maps o)) fs
    (.of_objects rfl) (.of_kept hk)
  have hl := hp.logs (List.suffix_refl _)
  have hone : h₁.counter h.counters.size = 1 := by
    rw [Heap.counter, ht.counters]
    simp [Heap.newCounter]
  obtain ⟨t, h₂, ha, hback⟩ := hb.handsBack (K := K) (k := k) .done fs (h₁.setCounter h.counters.size 0)
  have hd := hback.logs (List.suffix_append ..)
  have hnew : h.Agrees (h.newCounter 1).2 := .of_objects rfl
  have hset : h₁.Agrees (h₁.setCounter h.counters.size 0) := .of_objects rfl
  refine ⟨t, h₂, hnew.trans (ht.agrees.trans (hset.trans ha)), ?_⟩
  refine (logs_subscribe_mapped maps _ o fs ⟨h, k⟩ fun _ _ => rfl).after (.go id rfl (hl.after ?_))
  refine .go id rfl ?_
  simp only [step, stepCommand, stepDeliver, hone]
  exact hd

/-! ## Activation -/

/-- The source is written into the target, and what is then read back from the target is left out. -/
theorem logs_activation {convert : Option F} {tag : Option (SubjectId × Side)} {conv : Value → Value}
    {start root : ObjectId} {path : Path} (hx : x.Yields K k h start taps v) (hs : Node.object start ∈ K.refs k)
    (hnames : ∀ e ∈ taps, e.2 ≠ "") (hy : ∀ h', h'.Closed → ∃ taps u, y.Yields K k h' root taps u)
    (hsome : ∀ f, convert = some f → ∀ v w, K.apply f v w = (conv v, w))
    (hnone : convert = none → ∀ v, conv v = v) (htag : ∀ t, tag = some t → h.observers t.1 = [])
    (hc : h.Closed) (hv : ∀ o, conv v = .object o → o < h.objects.size)
    (hr : root < h.objects.size) (hk : Node.object root ∈ K.refs k)
    (hh : ∀ o p, h.target? root path = some (o, p) → (o, p) ∉ taps ∧ ∀ t, h.handlersFor o t p = [])
    (maps : List (Mapping F)) (o : Observer F C) :
    ∃ log t h', h.Assigned (conv v) (h.target? root path) log h' ∧
      Logs K effect? ⟨.run (.subscribeAll [] [(x.mapped (Mapping.stages convert tag), .write root path),
          ((Stream.skip y 1).mapped maps, o)]), [], h, k⟩
        (convert.toList.map .applies ++ log.map fun x => .stores x.1 x.2)
        ⟨.pass (.subscription t), [], h', k⟩ := by
  obtain ⟨log, t, h₁, ha, hforward⟩ := logs_forward hx hs hnames hsome hnone htag hc hr hk hh
    [.gathering (.write root path) [] [((Stream.skip y 1).mapped maps, o)]]
  obtain ⟨taps', u, hyields⟩ := hy h₁ (ha.closed hc hv)
  obtain ⟨t', h₂, ha₂, hbackward⟩ := logs_backward hyields hk maps o [.gathering o [t] []]
  refine ⟨log, .all [t, t'], h₂, ha.congr (.refl h) ha₂, .go id rfl ?_⟩
  have hend := hforward.trans (.back rfl (.go id rfl
    (hbackward.after (.back rfl (.go id rfl (.refl _))))))
  rw [List.append_nil] at hend
  exact hend

/-- When a two-way binding without a scheduler is activated, and nobody hears of the property at the end of
the target path, which is none of those that the source path reads: no other property changes, that one
holds what the source converts to, and the one function applied is the converter, once. -/
theorem CallSite.activation_spares_others {w : World F C S} (s : CallSite) {caps : Capabilities}
    {b : BindingPlan} (hb : s.bindingPlan caps = .ok b)
    (hkind : s.kind = .twoWayBind ∨ s.kind = .taggedBind) (hsched : s.features.scheduler = false)
    (hpaths : ∀ p ∈ s.paths, ∀ x ∈ p.segments, x.property ≠ "") {source target : ObjectId}
    (hroots : ∀ o ∈ [source, target], o < w.heap.objects.size ∧ Node.object o ∈ K.refs w.client)
    (hclosed : w.heap.Closed) (a : Arguments F) {conv back : Value → Value}
    (hconv : a.Supplies K s.features.conversion .converter conv)
    (hback : a.Supplies K s.features.conversion .backConverter back)
    (hvalid : ∀ o, conv (w.heap.readPath source b.sourcePath) = .object o → o < w.heap.objects.size)
    (hleaf : ∀ o p, w.heap.target? target b.targetPath = some (o, p) →
      (o, p) ∉ w.heap.readsFrom (.object source) b.sourcePath.segments ∧
        ∀ t, w.heap.handlersFor o t p = []) :
    ∃ x h l t h', b.activate source target a w.heap = (.ok x, h) ∧
      Ends K [] (World.start ⟨h, w.client⟩ (.subscribeAll [] x.subscriptions)) l
        ⟨.pass (.subscription t), [], h', w.client⟩ ∧
      h'.objects.size = w.heap.objects.size ∧
      (∀ o p, w.heap.target? target b.targetPath ≠ some (o, p) → h'.get o p = w.heap.get o p) ∧
      (∀ o p, w.heap.target? target b.targetPath = some (o, p) →
        (conv (h'.readPath source b.sourcePath)).eqv (conv (h'.readPath source b.sourcePath)) = true →
        (h'.get o p).eqv (conv (h'.readPath source b.sourcePath)) = true) ∧
      ∃ log, l.filterMap effect? =
          (a.supplied? s.features.conversion .converter).toList.map .applies ++ log ∧
        (log = [] ∨ ∃ o p, w.heap.target? target b.targetPath = some (o, p) ∧ log = [.stores o p]) := by
  obtain ⟨mode, -, -, hp, -⟩ := bindingPlan_eq hb
  have hsource := hpaths b.sourcePath (by simp [hp])
  have htarget := hpaths b.targetPath (by simp [hp])
  obtain ⟨-, hsk⟩ := hroots source (by simp)
  obtain ⟨hto, htk⟩ := hroots target (by simp)
  have hbi : s.kind.isBidirectional = true := by
    obtain hk | hk := hkind <;> rw [hk] <;> rfl
  have hobserve : (b.sourcePath.pipeline .after caps).observe source a =
      .ok (b.sourcePath.observed .after caps source) :=
    Path.observe_eq_observed (hsource _ List.getLastD_mem_cons) a
  have hobserve' : (b.targetPath.pipeline .after caps).observe target a =
      .ok (b.targetPath.observed .after caps target) :=
    Path.observe_eq_observed (htarget _ List.getLastD_mem_cons) a
  obtain ⟨pipeline, changes, hactivate⟩ := BindingPlan.activate_of_observe hb hbi hsched hobserve hobserve' hconv
    hback w.heap
  -- but for a new subject the binding is activated in the heap as it is
  have hobjects : (b.prepared w.heap).objects = w.heap.objects := BindingPlan.objects_prepared _
  have hagree : w.heap.Agrees (b.prepared w.heap) := .of_objects hobjects
  have hquiet : ∀ o p, (b.prepared w.heap).target? target b.targetPath = some (o, p) →
      (o, p) ∉ (b.prepared w.heap).readsFrom (.object source) b.sourcePath.segments ∧
        ∀ t, (b.prepared w.heap).handlersFor o t p = [] := by
    intro o p he
    rw [hagree.readsFrom]
    simpa only [Heap.handlersFor, hobjects] using hleaf o p ((hagree.target? ..).symm.trans he)
  obtain ⟨log, t, h', ha, hl⟩ := logs_activation
    (Path.yields_pipeline (hagree.closed hclosed) hobserve) hsk
    (fun e he => Heap.name_of_mem_readsFrom hsource he) (fun h' hc => ⟨_, _, Path.yields_pipeline hc hobserve'⟩)
    (fun f hf => hconv.apply_of_some hf) hconv.eq_of_none
    (fun t => BindingPlan.observers_of_tag rfl) (hagree.closed hclosed)
    (fun o ho => by
      rw [hagree.size]
      exact hvalid o (by rwa [Heap.readPath, hagree.readFrom] at ho)) (hagree.size ▸ hto) htk hquiet _ _
  obtain ⟨l, hends, hlog⟩ := hl.ends
  have ha := ha.congr hagree (.refl h')
  rw [hagree.target?, Heap.readPath, hagree.readFrom] at ha
  -- the source reads the same afterwards, since the target is none of what it reads
  have hread : h'.readPath source b.sourcePath = w.heap.readPath source b.sourcePath :=
    Heap.readFrom_of_readsFrom _ hsource fun x hx => ha.others x.1 x.2 fun he => (hleaf _ _ he).1 hx
  refine ⟨_, _, l, t, h', hactivate, hends, ha.size, ha.others, ?_, _, hlog, ?_⟩
  · rw [hread]
    exact ha.equal
  · obtain rfl | ⟨⟨o, p⟩, he, rfl⟩ := ha.stored
    · exact .inl rfl
    · exact .inr ⟨o, p, he, rfl⟩

/-! ## A room and a hall -/

/-- One function yields the opposite, and the other one null whatever it is given; of a client that holds
these things. -/
def Client.forgetting (held : List Node) : Client Bool Empty Unit where
  apply f v w := (if f then v.opposite else .null, w)
  resume := nofun
  functionRefs _ := []
  codeRefs := nofun
  refs _ := held

/-- The switch of a room, and the lamp of a hall. -/
def Heap.roomAndHall : Heap Bool Empty :=
  { Heap.empty with objects := #[
      ⟨"Room", .full, [("Switch", .object 1)], [], 0⟩,
      ⟨"Switch", .full, [("On", .bool true)], [], 0⟩,
      ⟨"Hall", .full, [("Lamp", .object 3)], [], 0⟩,
      ⟨"Lamp", .full, [("Dark", .bool true)], [], 0⟩] }

/-- Whether the switch of a room is on is bound to whether the lamp of a hall is dark, in both directions. -/
def CallSite.hall : CallSite where
  kind := .twoWayBind
  owner := ⟨"Hall", false⟩
  paths := [⟨⟨"Switch", ⟨"Switch", false⟩, ⟨"Room", false⟩⟩,
      [⟨"On", ⟨"bool", false⟩, ⟨"Switch", false⟩⟩], by decide⟩,
    ⟨⟨"Lamp", ⟨"Lamp", false⟩, ⟨"Hall", false⟩⟩, [⟨"Dark", ⟨"bool", false⟩, ⟨"Lamp", false⟩⟩], by decide⟩]
  result := ⟨"bool", false⟩
  features := { (default : Features) with conversion := true }
  location := ⟨"hall.rs", 1⟩
  texts := []

/-- The hall raises no notifications, so its lamp is read back only once; then it is not forgotten whether
the switch is on. -/
theorem CallSite.hall_spares_room :
    ∃ b, CallSite.hall.bindingPlan ⟨[("Room", .full)]⟩ = .ok b ∧
    ∃ x h l t h', b.activate 0 2 ⟨none, some true, some false, none⟩ Heap.roomAndHall = (.ok x, h) ∧
      Ends (Client.forgetting [.object 0, .object 2])
        [] (World.start ⟨h, ()⟩ (.subscribeAll [] x.subscriptions)) l
        ⟨.pass (.subscription t), [], h', ()⟩ ∧
      h'.objects.size = 4 ∧
      (∀ o p, some (3, "Dark") ≠ some (o, p) → h'.get o p = Heap.roomAndHall.get o p) ∧
      (∀ o p, some (3, "Dark") = some (o, p) →
        (h'.readPath 0 b.sourcePath).opposite.eqv (h'.readPath 0 b.sourcePath).opposite = true →
        (h'.get o p).eqv (h'.readPath 0 b.sourcePath).opposite = true) ∧
      ∃ log, l.filterMap effect? = [.applies true] ++ log ∧
        (log = [] ∨ ∃ o p, some (3, "Dark") = some (o, p) ∧ log = [.stores o p]) := by
  have hplan : CallSite.hall.bindingPlan ⟨[("Room", .full)]⟩ = .ok _ := rfl
  refine ⟨_, hplan, ?_⟩
  have hback : Arguments.Supplies (Client.forgetting [.object 0, .object 2])
      ⟨none, some true, some false, none⟩ true .backConverter fun _ => .null :=
    ⟨fun _ => ⟨false, rfl, fun _ _ => rfl⟩, nofun⟩
  refine activation_spares_others (w := ⟨.roomAndHall, ()⟩) CallSite.hall hplan (.inl rfl) rfl ?_ ?_ ?_ _
    ?_ hback ?_ ?_
  · decide
  · decide
  · exact Heap.closed_of_forall (by decide)
  · exact ⟨fun _ => ⟨true, rfl, fun _ _ => rfl⟩, nofun⟩
  · rintro o ⟨⟩
  · rintro o p ⟨⟩
    exact ⟨by decide, fun t => by cases t <;> rfl⟩

end DataBinding
