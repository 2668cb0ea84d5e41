import DataBinding.Proofs.Tagged.Wiring
import DataBinding.Proofs.TwoWay.Activation
/-!
# Tagged bindings and their changes

A tagged binding does what the two-way binding does, and tells of it: after everything that is done with
either, all properties hold the same values, and whoever observes the changes has been given just what was
written, in order and with the side it came from (`CallSite.taggedBind_follows`).

This asks of those who observe the changes that they keep nothing alive. One who keeps the objects it is given
is enough to tell the two bindings apart, without changing anything itself (`CallSite.window_kept`): what
is written into an object that nothing else holds is lost with the two-way binding.
-/

namespace DataBinding

variable {F C S : Type} {K : Client F C S} {Like : S → S → Prop}

/-- The world in which a tagged binding is activated has one subject more. -/
theorem World.shadow_newSubject {w : World F C S} {ends : Side → ObjectId × Path}
    (hw : w.heap.Within (.below w.heap.subjects.size)) (hl : Like w.client w.client) :
    World.Shadow ⟨w.heap.subjects.size, ends⟩ Like [] w (w.withHeap w.heap.newSubject.2) := by
  refine ⟨Heap.bare_newSubject hw rfl, hl, hw, ?_, ?_⟩
  · simp [World.withHeap, Heap.newSubject]
  · simp [World.withHeap, Heap.newSubject, Heap.observers]

/-- Commands that differ by their tags come to ends without and with the tags. -/
theorem Shadow.matches_command [DecidableEq C] {w w' : World F C S} {g : Tagging} {c c' : Command F C}
    (h : Shadow K g Like [] (w.start c) (w'.start c')) (hK : K.Blind g Like) (hc : K.Confined (.below g.subject)) :
    w.Matches K [c] w' [c'] fun _ => True := by
  refine ⟨fun l es hu => ?_, fun l es hu => ?_⟩
  · cases hu with
    | cons he hrest =>
      cases hrest
      obtain ⟨l', e', he', hs, -⟩ := h.ends hK hc (by simp) .nil he
      exact ⟨_, _, .cons he' .nil, .cons (hs.agrees he'.isAnswer) .nil, trivial⟩
  · cases hu with
    | cons he hrest =>
      cases hrest
      obtain ⟨l', e', he', -⟩ := Shadow.ends_bare hK hc (by simp) .nil he h
      exact ⟨_, _, .cons he' .nil⟩

/-- A tagged binding and the two-way binding between the same properties: both are activated or neither is, and
both activations come to the same end. From then on properties are set, queues drained and the binding disposed
with the same outcome, and all properties hold the same values after each of these. Whoever has observed the
changes since the activation, only noting them, is given just the values that are handed to the two writers, in
the same order, with the side they come from; if nothing else writes to the same places, these are all values
delivered there. -/
theorem CallSite.taggedBind_follows [DecidableEq C] {w : World F C S} (s : CallSite) {caps : Capabilities}
    {b b' : BindingPlan} (hk : s.kind = .twoWayBind) (hb : s.bindingPlan caps = .ok b)
    (hb' : { s with kind := .taggedBind }.bindingPlan caps = .ok b') (source target : ObjectId) (a : Arguments F)
    (hw : w.heap.Within (.below w.heap.subjects.size)) (hK : K.Confined (.below w.heap.subjects.size))
    (hblind : K.Blind (b.tagging source target w.heap) Like) (hlike : Like w.client w.client) :
    (∀ r, (b'.activate source target a w.heap).1 = .error r ↔ (b.activate source target a w.heap).1 = .error r) ∧
    ∀ x h, b.activate source target a w.heap = (.ok x, h) → ∃ forward backward x' h',
      b'.activate source target a w.heap = (.ok x', h') ∧ x'.changes = some (.subject w.heap.subjects.size) ∧
      x.subscriptions = [(forward, .write target b.targetPath), (backward, .write source b.sourcePath)] ∧
      x'.subscriptions = [(.map forward (.publish w.heap.subjects.size .source), .write target b.targetPath),
        (.map backward (.publish w.heap.subjects.size .target), .write source b.sourcePath)] ∧
      World.Matches K ⟨h, w.client⟩ [.subscribeAll [] x.subscriptions]
        ⟨h', w.client⟩ [.subscribeAll [] x'.subscriptions] (fun _ => True) ∧
      ∀ l t w₁ l' t' w₁',
        State.Ends K [] (World.start ⟨h, w.client⟩ (.subscribeAll [] x.subscriptions)) l
          ⟨.pass (.subscription t), [], w₁⟩ →
        State.Ends K [] (World.start ⟨h', w.client⟩ (.subscribeAll [] x'.subscriptions)) l'
          ⟨.pass (.subscription t'), [], w₁'⟩ →
        ∀ codes : List C, (∀ c ∈ codes, K.Listens Like c) → codes.Nodup → ∀ m w₂,
          (w₁'.keeping t').Traces K
            (codes.map fun c => .subscribe (.subject w.heap.subjects.size) (.client c)) m w₂ →
          w₂.heap.observers w.heap.subjects.size = codes.map .client → ∀ errands : List Errand,
            (w₁.keeping t).Matches K (errands.map (·.command w₁.heap.handles.size))
              w₂ (errands.map (·.command w₁'.heap.handles.size)) fun l =>
                Faithful (b.tagging source target w.heap) codes (State.handed? (b.tagging source target w.heap)) l ∧
                ((b.tagging source target w.heap).Reserves K →
                  w.heap.Within (b.tagging source target w.heap).reserved →
                  Faithful (b.tagging source target w.heap) codes
                    (State.written? (b.tagging source target w.heap)) l) := by
  obtain ⟨herror, hok⟩ := activate_tagged (a := a) hk hb hb' source target w.heap
  refine ⟨herror, fun x h hx => ?_⟩
  obtain ⟨rfl, forward, backward, x', hwithin, hsubs, hx', hsubs', hchanges⟩ := hok x h hx
  refine ⟨forward, backward, x', _, hx', hchanges, hsubs, hsubs', ?_⟩
  have hshadow : World.Shadow (b.tagging source target w.heap) Like [] w (w.withHeap w.heap.newSubject.2) :=
    World.shadow_newSubject hw hlike
  have hbare : x'.subscriptions.map (b.tagging source target w.heap).bare = x.subscriptions := by
    rw [hsubs, hsubs']
    have hforward := Tagging.bare_publish (C := C) (g := b.tagging source target w.heap) forward .source
    have hbackward := Tagging.bare_publish (C := C) (g := b.tagging source target w.heap) backward .target
    exact congrArg₂ (fun e e' => [e, e']) hforward hbackward
  have hmembers : ∀ e ∈ x.subscriptions, Vocabulary.Pair (.below w.heap.subjects.size) e.1 e.2 := by
    rw [hsubs]
    refine List.forall_mem_cons.2 ⟨.inr ⟨(hwithin _).1, trivial⟩, ?_⟩
    exact List.forall_mem_singleton.2 (.inr ⟨(hwithin _).2, trivial⟩)
  have hstart : Shadow K (b.tagging source target w.heap) Like [] (w.start (.subscribeAll [] x.subscriptions))
      ((w.withHeap w.heap.newSubject.2).start (.subscribeAll [] x'.subscriptions)) :=
    hshadow.start (by simp [Command.bare, hbare]) ⟨List.forall_mem_nil _, hmembers⟩
  refine ⟨hstart.matches_command hblind hK, ?_⟩
  intro l t w₁ l' t' w₁' he he' codes hl hn m w₂ hm ho errands
  obtain ⟨l'', e, hend, hs, -, hreserved⟩ := hstart.ends hblind hK (by simp) .nil he
  obtain ⟨-, rfl⟩ := he'.unique hend
  obtain rfl : t' = t := by simpa [State.bare, Control.bare] using congrArg State.control hs.bare
  have hjoins : (w₁'.keeping t').Joins (b.tagging source target w.heap) w₂ := World.joins_of_traces hm
  have hw₂ := (hs.world.keeping hs.below.control).joined hjoins ho
  have hmatches := hw₂.matches_errands hblind hK hl hn w₁.heap.handles.size errands
  rw [hs.world.handles]
  refine ⟨fun l es hu => ?_, hmatches.back⟩
  obtain ⟨l', es', hu', hes, hf, hwritten⟩ := hmatches.forth l es hu
  refine ⟨l', es', hu', hes, hf, fun hg hheap => hwritten hg (hjoins.within ?_)⟩
  have hmembers' : ∀ e ∈ x'.subscriptions, (b.tagging source target w.heap).reserved.Pair e.1 e.2 := by
    rw [hsubs']
    refine List.forall_mem_cons.2 ⟨.inl ⟨forward, _, rfl, (hwithin _).1, ?_⟩, List.forall_mem_singleton.2
      (.inl ⟨backward, _, rfl, (hwithin _).2, ?_⟩)⟩
    · exact Tagging.marks_publish (g := b.tagging source target w.heap) .source
    · exact Tagging.marks_publish (g := b.tagging source target w.heap) .target
  obtain ⟨hend, -⟩ := hreserved hg ⟨⟨List.forall_mem_nil _, hmembers'⟩, List.forall_mem_nil _,
    hheap.newSubject⟩
  exact hend.rests.heap.newHandle hend.control

/-! ## A window -/

/-- The one function there is yields the opposite, and code notes each value it is given; the client holds these
things, and if it keeps what it notes, the objects in it. -/
def Client.clerk (held : List Node) (keeps : Bool) : Client Unit Unit (List Value) where
  apply _ v w := (v.opposite, w)
  resume
    | _, .value v, w => (⟨w.heap, w.client ++ [v]⟩, .finish)
    | _, _, w => (w, .finish)
  functionRefs _ := []
  codeRefs _ := []
  refs notes := held ++ if keeps then notes.flatMap Value.refs else []

/-- A shelf with an article, an empty window, and a queue. The price that is entered at a till is written into the
article, and from there on a label. -/
def Heap.shop : Heap Unit Unit :=
  { Heap.empty with
    objects := #[⟨"Shelf", .full, [("Article", .object 2)], [], 0⟩, ⟨"Window", .full, [], [], 0⟩,
      ⟨"Article", .full, [], [⟨0, .after, "Price", false,
        .write 4 (.single ⟨"Price", ⟨"string", false⟩, ⟨"Label", false⟩⟩)⟩], 1⟩,
      ⟨"Till", .full, [], [⟨0, .after, "Price", false,
        .write 2 (.single ⟨"Price", ⟨"string", false⟩, ⟨"Article", false⟩⟩)⟩], 1⟩,
      ⟨"Label", .full, [], [], 0⟩]
    schedulers := #[.queue []] }

/-- The article on the shelf is bound to the one in the window, in both directions and on a queue. -/
def CallSite.window : CallSite where
  kind := .twoWayBind
  owner := ⟨"Window", false⟩
  paths := [.single ⟨"Article", ⟨"Article", false⟩, ⟨"Shelf", false⟩⟩,
    .single ⟨"Article", ⟨"Article", false⟩, ⟨"Window", false⟩⟩]
  result := ⟨"Article", false⟩
  features := { (default : Features) with conversion := true, scheduler := true }
  location := ⟨"window.rs", 1⟩
  texts := []

/-- The article is shown and taken off the shelf, and then a price is entered. -/
def Errand.clearance : List Errand :=
  [.drain 0, .set ⟨0, "Article", .null⟩, .drain 0, .set ⟨3, "Price", .text "5"⟩]

theorem Client.confined_clerk (held : List Node) (keeps : Bool) (V : Vocabulary Unit Unit) :
    (clerk held keeps).Confined V where
  apply _ _ _ h := h
  resume _ signal _ h _ := by cases signal <;> exact ⟨h, trivial⟩

/-- The clerk goes on in the same way whatever it has noted, if it does not keep it. -/
theorem Client.blind_clerk (held : List Node) (g : Tagging) : (clerk held false).Blind g fun _ _ => True where
  apply _ _ _ k _ := ⟨k, trivial, rfl⟩
  resume _ signal _ k _ := by
    cases signal with
    | value v => exact ⟨k ++ [v], trivial, rfl⟩
    | _ => exact ⟨k, trivial, rfl⟩
  applied _ _ _ _ h := h
  resumed _ signal _ _ h := by cases signal <;> exact h
  refs _ _ _ _ := Iff.rfl

theorem Client.listens_clerk (held : List Node) (keeps : Bool) : (clerk held keeps).Listens (fun _ _ => True) () where
  notes _ _ := ⟨_, .finish rfl, rfl, fun _ _ => trivial⟩
  held _ _ _ := List.nil_subset _

theorem Heap.within_shop {V : Vocabulary Unit Unit} (hV : ∀ o, 2 ≤ o → ∀ p, V.write o p) : shop.Within V := by
  constructor <;> simp [shop, Heap.empty, Observer.Within, Scheduler.Within, hV]

/-- Only what is bound writes into the window, and back onto the shelf. -/
theorem Heap.reserved_shop (b : BindingPlan) : shop.Within (b.tagging 0 1 shop).reserved := by
  refine within_shop fun o ho p side he => ?_
  cases side with
  | source =>
    obtain rfl : o = 1 := congrArg Prod.fst he
    exact absurd ho (by decide)
  | target =>
    obtain rfl : o = 0 := congrArg Prod.fst he
    exact absurd ho (by decide)

/-- The article is shown and taken off the shelf, and then a price is entered. -/
theorem CallSite.window_follows : ∃ b b', CallSite.window.bindingPlan ⟨[("Shelf", .full), ("Window", .full)]⟩ = .ok b ∧
    { CallSite.window with kind := .taggedBind }.bindingPlan ⟨[("Shelf", .full), ("Window", .full)]⟩ = .ok b' ∧
    ∃ x h x' h', b.activate 0 1 ⟨none, some (), some (), some 0⟩ Heap.shop = (.ok x, h) ∧
      b'.activate 0 1 ⟨none, some (), some (), some 0⟩ Heap.shop = (.ok x', h') ∧
    ∃ l t w₁ l' t' w₁',
      State.Ends (.clerk [.object 0, .object 1, .object 3, .object 4] false) []
        (World.start ⟨h, []⟩ (.subscribeAll [] x.subscriptions)) l ⟨.pass (.subscription t), [], w₁⟩ ∧
      State.Ends (.clerk [.object 0, .object 1, .object 3, .object 4] false) []
        (World.start ⟨h', []⟩ (.subscribeAll [] x'.subscriptions)) l' ⟨.pass (.subscription t'), [], w₁'⟩ ∧
    ∃ m w₂, (w₁'.keeping t').Traces (.clerk [.object 0, .object 1, .object 3, .object 4] false)
        [.subscribe (.subject 0) (.client ())] m w₂ ∧ w₂.heap.observers 0 = [.client ()] ∧
    ∃ l es l' es', (w₁.keeping t).Undergoes (.clerk [.object 0, .object 1, .object 3, .object 4] false)
        (Errand.clearance.map (·.command w₁.heap.handles.size)) l es ∧
      w₂.Undergoes (.clerk [.object 0, .object 1, .object 3, .object 4] false)
        (Errand.clearance.map (·.command w₁'.heap.handles.size)) l' es' ∧
      List.Forall₂ State.Agrees es es' ∧
      Faithful (b.tagging 0 1 Heap.shop) [()] (State.handed? (b.tagging 0 1 Heap.shop)) l' ∧
      Faithful (b.tagging 0 1 Heap.shop) [()] (State.written? (b.tagging 0 1 Heap.shop)) l' := by
  have hplan : CallSite.window.bindingPlan ⟨[("Shelf", .full), ("Window", .full)]⟩ = .ok _ := rfl
  have hplan' : { CallSite.window with kind := .taggedBind }.bindingPlan
    ⟨[("Shelf", .full), ("Window", .full)]⟩ = .ok _ := rfl
  have hfollows := taggedBind_follows (K := .clerk [.object 0, .object 1, .object 3, .object 4] false)
    (w := ⟨.shop, []⟩) window rfl hplan hplan' 0 1 ⟨none, some (), some (), some 0⟩ (Heap.within_shop fun _ _ _ => trivial)
    (Client.confined_clerk ..) (Client.blind_clerk ..) trivial
  obtain ⟨forward, backward, x', h', hx', -, -, -, -, hsession⟩ := hfollows.2 _ _ rfl
  cases hx'
  have hmatches := hsession _ _ _ _ _ _ (State.ends_iff_run.2 ⟨60, rfl, rfl, rfl⟩)
    (State.ends_iff_run.2 ⟨60, rfl, rfl, rfl⟩) [()] (fun _ _ => Client.listens_clerk ..) (by simp) _ _
    (World.traces_states 10 (by decide +kernel)) rfl Errand.clearance
  obtain ⟨l', es', hu', hes, hf, hwritten⟩ := hmatches.forth _ _ (World.undergoes_states 100 (by decide +kernel))
  have hwrites := hwritten ⟨Client.confined_clerk .., fun he => absurd (congrArg Prod.fst he) (by decide)⟩
    (Heap.reserved_shop _)
  exact ⟨_, _, hplan, hplan', _, _, _, _, rfl, rfl, _, _, _, _, _, _, State.ends_iff_run.2 ⟨60, rfl, rfl, rfl⟩,
    State.ends_iff_run.2 ⟨60, rfl, rfl, rfl⟩, _, _, World.traces_states 10 (by decide +kernel), rfl,
    _, _, l', es', World.undergoes_states 100 (by decide +kernel), hu', hes, hf, hwrites⟩

/-- One who observes the changes and keeps the article it is given: the label of the article shows the price with
the tagged binding, and does not with the two-way binding. -/
theorem CallSite.window_kept : ∃ b b', CallSite.window.bindingPlan ⟨[("Shelf", .full), ("Window", .full)]⟩ = .ok b ∧
    { CallSite.window with kind := .taggedBind }.bindingPlan ⟨[("Shelf", .full), ("Window", .full)]⟩ = .ok b' ∧
    (∀ f v w, (Client.clerk [.object 0, .object 1, .object 3, .object 4] true).apply f v w = (v.opposite, w)) ∧
    (∀ v w, ∃ w', (Client.clerk [.object 0, .object 1, .object 3, .object 4] true).Returns () (.value v) w w' ∧
      w'.heap = w.heap) ∧
    ∃ x h x' h', b.activate 0 1 ⟨none, some (), some (), some 0⟩ Heap.shop = (.ok x, h) ∧
      b'.activate 0 1 ⟨none, some (), some (), some 0⟩ Heap.shop = (.ok x', h') ∧
    ∃ l t w₁ l' t' w₁',
      State.Ends (.clerk [.object 0, .object 1, .object 3, .object 4] true) []
        (World.start ⟨h, []⟩ (.subscribeAll [] x.subscriptions)) l ⟨.pass (.subscription t), [], w₁⟩ ∧
      State.Ends (.clerk [.object 0, .object 1, .object 3, .object 4] true) []
        (World.start ⟨h', []⟩ (.subscribeAll [] x'.subscriptions)) l' ⟨.pass (.subscription t'), [], w₁'⟩ ∧
    ∃ m w₂, (w₁'.keeping t').Traces (.clerk [.object 0, .object 1, .object 3, .object 4] true)
        [.subscribe (.subject 0) (.client ())] m w₂ ∧ w₂.heap.observers 0 = [.client ()] ∧
    ∃ l es l' es', (w₁.keeping t).Undergoes (.clerk [.object 0, .object 1, .object 3, .object 4] true)
        (Errand.clearance.map (·.command w₁.heap.handles.size)) l es ∧
      w₂.Undergoes (.clerk [.object 0, .object 1, .object 3, .object 4] true)
        (Errand.clearance.map (·.command w₁'.heap.handles.size)) l' es' ∧
      ¬ List.Forall₂ State.Agrees es es' := by
  refine ⟨_, _, rfl, rfl, fun _ _ _ => rfl, fun v w => ⟨_, .finish rfl, rfl⟩, _, _, _, _, rfl, rfl, ?_⟩
  refine ⟨_, _, _, _, _, _, State.ends_iff_run.2 ⟨60, rfl, rfl, rfl⟩, State.ends_iff_run.2 ⟨60, rfl, rfl, rfl⟩, ?_⟩
  refine ⟨_, _, World.traces_states 10 (by decide +kernel), rfl, ?_⟩
  refine ⟨_, _, _, _, World.undergoes_states 100 (by decide +kernel),
    World.undergoes_states 100 (by decide +kernel), fun h => ?_⟩
  have hlabel := congrArg (List.map (·.eqv (.text "5"))) (State.Agrees.map_get h 4 "Price")
  exact absurd hlabel (by decide +kernel)

end DataBinding
