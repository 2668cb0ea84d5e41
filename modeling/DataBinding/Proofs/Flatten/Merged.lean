import DataBinding.Proofs.CallSite.Accepted
import DataBinding.Proofs.Flatten.Inlets
import DataBinding.Proofs.Outcomes
import DataBinding.Proofs.Quiet.Session
/-!
# Observing properties that hold streams

A call site that observes properties that hold streams subscribes to each of them by a switch of its own
and merges what they take. While properties of the object are assigned and values are pushed into
subjects, a value is delivered once for each watched property that holds a stream of its subject at the
time, and nothing else is; and the subscription is registered with each subject as often
(`CallSite.streamObservation_flattens`).
-/

namespace DataBinding

variable {F C S : Type}

/-- The values of the streams that a property holds. -/
def Stream.inlet (root : ObjectId) (p : String) : Stream F :=
  .switch (.map (.watch root p .after) .emptyIfNull) .stream

/-- What happens while a subscription is there. -/
inductive Event where
  /-- A property of the object is assigned. -/
  | set (property : String) (v : Value)
  /-- A value is pushed into a subject. -/
  | push (j : SubjectId) (v : Value)

namespace Event

def command (root : ObjectId) : Event → Command F C
  | set p v => .set root p v
  | push j v => .next j v

/-- What is assigned is a stream of a subject that the client holds, or no stream. -/
def Valid (K : Client F C S) (w : World F C S) : Event → Prop
  | set _ v => w.heap.Flat (K.refs w.client) v
  | push .. => True

/-- The values that the subscription delivers then: one for each of these properties that holds a stream of
the subject. -/
def delivers (h : Heap F C) (root : ObjectId) (properties : List String) : Event → List Value
  | set .. => []
  | push j v => List.replicate (h.holding root properties j) v

end Event

/-- The object exists, is held, and tells of completed changes; its observers and those of the subjects
look on and lead to other code than this, which notes each value it is given. -/
structure World.Idle (K : Client F C S) (seen : S → List Value) (code : C) (root : ObjectId)
    (w : World F C S) : Prop where
  functions : K.Extends seen
  notes : K.Notes seen code fun v => [v]
  exist : root < w.heap.objects.size
  held : Node.object root ∈ K.refs w.client
  supports : w.heap.supports root .after = true
  handlers : ∀ x ∈ w.heap.handlers root, x.observer.Looks K seen code
  observers : ∀ j, ∀ e ∈ w.heap.roster (.subject j), e.2.Looks K seen code ∧ e.1 < w.heap.nextId (.subject j)
  nodup : ∀ j, ((w.heap.roster (.subject j)).map Prod.fst).Nodup

variable {K : Client F C S} {seen : S → List Value} {code : C} {root : ObjectId} {inlets : List Inlet}
  {w w' : World F C S} {p : String}

/-- A property is watched for an inlet, whose switch is new. -/
def Heap.withInlet (h : Heap F C) (root : ObjectId) (p : String) (code : C) : Heap F C :=
  (h.newSwitch.2.addHandler root .after p false (.hook h.switches.size (.client code))).2

namespace Heap

variable {h : Heap F C}

@[simp] theorem get_withInlet (o : ObjectId) (q : String) : (h.withInlet root p code).get o q = h.get o q :=
  get_addHandler ..

@[simp] theorem size_withInlet : (h.withInlet root p code).objects.size = h.objects.size := size_addHandler ..

@[simp] theorem supports_withInlet (o : ObjectId) (t : Timing) :
    (h.withInlet root p code).supports o t = h.supports o t := supports_addHandler ..

theorem handlers_withInlet (hroot : root < h.objects.size) : (h.withInlet root p code).handlers root =
    h.handlers root ++ [Inlet.handler ⟨p, h.switches.size⟩ (h.nextHandler root) code] := by
  have hexist : root < h.newSwitch.2.objects.size := hroot
  rw [withInlet, handlers_addHandler _ _ _ _ _ _ _ hexist, if_pos rfl]
  rfl

theorem upholds_withInlet : h.Upholds (h.withInlet root p code) := .of_eq rfl rfl

theorem Hooks.withInlet {Other : Observer F C → Prop} {switches : List Nat} {target : Nat → Option SubjectId}
    (hh : h.Hooks Other code switches target) : (h.withInlet root p code).Hooks Other code
      (switches ++ [h.switches.size]) (Function.update target h.switches.size none) :=
  hh.newSwitch.congr rfl rfl

end Heap

/-- There are no inlets yet. -/
theorem World.Idle.flattens (hw : w.Idle K seen code root) : w.Flattens K seen code root [] where
  nodup := List.nodup_nil
  hooks := ⟨fun _ => none, ⟨nofun, nofun, nofun, fun j e he => .inl (hw.observers j e he).1, hw.nodup,
    fun j e he => (hw.observers j e he).2⟩, nofun⟩
  handlers x hx := .inl (hw.handlers x hx)
  registered := nofun
  named := nofun
  flat := nofun
  exist := hw.exist
  supports := hw.supports

open State

/-! ## Subscribing -/

/-- Subscribing to an inlet watches its property, and turns its switch to what the property holds now. -/
theorem completes_inlet {Other : Observer F C → Prop} {switches : List Nat} {target : Nat → Option SubjectId}
    (hh : w.heap.Hooks Other code switches target) (hp : p ≠ "") (hheld : Node.object root ∈ K.refs w.client)
    (hflat : w.heap.Flat (K.refs w.client) (w.heap.get root p)) (base : List (Frame F C)) :
    Completes K base ⟨.run (.subscribe (.inlet root p) (.client code)), base, w⟩ fun signal w' =>
      (∃ t, signal = .subscription t) ∧ w'.client = w.client ∧ (w.heap.withInlet root p code).Rehooks w'.heap ∧
        w'.heap.Hooks Other code (switches ++ [w.heap.switches.size])
          (Function.update target w.heap.switches.size (w.heap.subjectOf? (w.heap.get root p))) := by
  obtain ⟨i, hi⟩ : ∃ i, i = w.heap.switches.size := ⟨_, rfl⟩
  obtain ⟨h, hnew⟩ : ∃ h, h = w.heap.newSwitch.2 := ⟨_, rfl⟩
  have hh' : (w.heap.withInlet root p code).Hooks Other code (switches ++ [i]) (Function.update target i none) :=
    hi ▸ hh.withInlet
  have hany : p.isEmpty = false := by simpa using hp
  have ha : (⟨.run (.subscribe (.watch root p .after) (.hook i (.client code))), .opening i :: base, h,
      w.client⟩ : State F C S).alive K (.object root) = true :=
    alive_of_kept K (List.nil_subset _) (.inl hheld)
  have hadd : (h.addHandler root .after p false (.hook i (.client code))).2 = w.heap.withInlet root p code := by
    rw [hi, hnew]
    rfl
  have hread : (w.heap.withInlet root p code).read root p = w.heap.get root p := by
    simp only [Heap.read, hany, Bool.false_eq_true, if_false, Heap.get_withInlet]
  refine .step id (.step (s := ⟨.run (.subscribe (.map (.watch root p .after) .emptyIfNull)
    (.outer w.heap.switches.size .stream (.client code))), .opening w.heap.switches.size :: base,
    w.heap.newSwitch.2, w.client⟩) id ?_)
  rw [← hi, ← hnew]
  refine .step (s := ⟨.run (.subscribe (.watch root p .after) (.hook i (.client code))), .opening i :: base, h,
    w.client⟩) id ?_
  rw [step_watch ha, hany, hadd, hread]
  -- the present value of the property turns the new switch
  have hturned := hh'.deliver (K := K) (k := w.client) (i := i) (by simp)
    (hflat.upholds Heap.upholds_withInlet (List.Subset.refl _))
    (.subscribed (.hook i (.client code)) (.handler root (h.nextHandler root)) :: .opening i :: base)
  rw [Function.update_idem, hflat.subjectOf?_eq Heap.upholds_withInlet] at hturned
  refine .call (f := .opening i) (List.suffix_cons _ _) (.call (List.suffix_refl _) hturned
    fun _ w₁ hw₁ => .back (.pass (w := w₁) hw₁)) fun signal w₁ hw₁ => .back (.pass (w := w₁) ⟨⟨_, rfl⟩, hw₁⟩)

namespace World.Flattens

/-- One inlet more, whose handler comes last, with a switch that none of the others has. -/
theorem concat (hw : w.Flattens K seen code root inlets) {a : Inlet} (id : Nat) {target : Nat → Option SubjectId}
    (hnew : a.switch ∉ inlets.map Inlet.switch) (hnamed : a.property ≠ "")
    (hsize : w'.heap.objects.size = w.heap.objects.size)
    (hsupports : w'.heap.supports root .after = w.heap.supports root .after)
    (hhandlers : w'.heap.handlers root = w.heap.handlers root ++ [a.handler id code])
    (hh : w'.heap.Hooks (Observer.Looks K seen code) code ((inlets ++ [a]).map Inlet.switch) target)
    (ht : ∀ b ∈ inlets ++ [a], target b.switch = w'.heap.subjectOf? (w'.heap.get root b.property))
    (hflat : ∀ b ∈ inlets ++ [a], w'.heap.Flat (K.refs w'.client) (w'.heap.get root b.property)) :
    w'.Flattens K seen code root (inlets ++ [a]) where
  nodup := by
    rw [List.map_append, List.nodup_append]
    refine ⟨hw.nodup, List.nodup_singleton _, ?_⟩
    rintro i hi _ hi' rfl
    exact hnew (List.mem_singleton.1 hi' ▸ hi)
  hooks := ⟨target, hh, ht⟩
  handlers := by
    rw [hhandlers]
    refine List.forall_mem_append.2 ⟨fun x hx => ?_, List.forall_mem_singleton.2 (.inr ⟨a, by simp, rfl⟩)⟩
    exact (hw.handlers x hx).imp_right fun ⟨b, hb, he⟩ => ⟨b, List.mem_append_left _ hb, he⟩
  registered := by
    rw [hhandlers]
    refine List.forall_mem_append.2 ⟨fun b hb => ?_, List.forall_mem_singleton.2
      ⟨id, List.mem_append_right _ (List.mem_singleton_self _)⟩⟩
    obtain ⟨id', hm⟩ := hw.registered b hb
    exact ⟨id', List.mem_append_left _ hm⟩
  named := List.forall_mem_append.2 ⟨hw.named, List.forall_mem_singleton.2 hnamed⟩
  flat := hflat
  exist := hsize ▸ hw.exist
  supports := hsupports.trans hw.supports

/-- One property more is watched. Nothing is delivered. -/
theorem subscribe (hw : w.Flattens K seen code root inlets) (hp : p ≠ "")
    (hheld : Node.object root ∈ K.refs w.client) (hflat : w.heap.Flat (K.refs w.client) (w.heap.get root p))
    (base : List (Frame F C)) :
    Completes K base ⟨.run (.subscribe (.inlet root p) (.client code)), base, w⟩ fun signal w' =>
      (∃ t, signal = .subscription t) ∧
      w'.Flattens K seen code root (inlets ++ [⟨p, w.heap.switches.size⟩]) ∧ w.Upholds K w' ∧
      seen w'.client = seen w.client ∧ ∀ q, w'.heap.get root q = w.heap.get root q := by
  obtain ⟨target, hh, ht⟩ := hw.hooks
  refine (completes_inlet hh hp hheld hflat base).mono fun signal w₁ ⟨hsignal, hk, hr, hh₁⟩ => ?_
  have hup : w.Upholds K w₁ := ⟨Heap.upholds_withInlet.trans hr.toUpholds, hk ▸ List.Subset.refl _⟩
  have hget : ∀ q, w₁.heap.get root q = w.heap.get root q := fun q => by
    have hsame : w₁.heap.get root q = (w.heap.withInlet root p code).get root q := by simp only [Heap.get, hr.objects]
    rw [hsame, Heap.get_withInlet]
  have hne : ∀ a ∈ inlets, a.switch ≠ w.heap.switches.size := fun a ha =>
    Nat.ne_of_lt (Heap.lt_size_of_not_stopped _ (hh.on _ (List.mem_map_of_mem ha)))
  refine ⟨hsignal, hw.concat (w.heap.nextHandler root) ?_ hp ?_ ?_ ?_ (by rwa [List.map_append])
    (List.forall_mem_append.2 ⟨fun a ha => ?_, List.forall_mem_singleton.2 ?_⟩)
    (List.forall_mem_append.2 ⟨fun a ha => ?_, List.forall_mem_singleton.2 ?_⟩), hup, congrArg seen hk, hget⟩
  · rw [List.mem_map]
    rintro ⟨a, ha, he⟩
    exact hne a ha he
  · rw [hr.objects, Heap.size_withInlet]
  · have hs : w₁.heap.supports root .after = (w.heap.withInlet root p code).supports root .after := by
      simp only [Heap.supports, hr.objects]
    rw [hs, Heap.supports_withInlet]
  · rw [← Heap.handlers_withInlet hw.exist]
    simp only [Heap.handlers, hr.objects]
  -- the switches there were have not turned
  · rw [Function.update_of_ne (hne a ha), hget, (hw.flat a ha).subjectOf?_eq hup.heap]
    exact ht a ha
  · rw [Function.update_self, hget, hflat.subjectOf?_eq hup.heap]
  · rw [hget]
    exact hup.flat (hw.flat a ha)
  · rw [hget]
    exact hup.flat hflat

/-- Properties are watched one after the other. Nothing is delivered. -/
theorem subscribeAll (todo : List String) (htodo : ∀ p ∈ todo, p ≠ "") (hw : w.Flattens K seen code root inlets)
    (hheld : Node.object root ∈ K.refs w.client)
    (hflat : ∀ p ∈ todo, w.heap.Flat (K.refs w.client) (w.heap.get root p)) (members : List (Teardown C))
    (base : List (Frame F C)) :
    Completes K base ⟨.run (.subscribeAll members (todo.map fun p => (.inlet root p, .client code))), base, w⟩
      fun signal w' => (∃ t, signal = .subscription t) ∧
        (∃ inlets', w'.Flattens K seen code root inlets' ∧
          inlets'.map Inlet.property = inlets.map Inlet.property ++ todo) ∧
        w.Upholds K w' ∧ seen w'.client = seen w.client ∧ ∀ q, w'.heap.get root q = w.heap.get root q := by
  induction todo generalizing inlets w members with
  | nil =>
    refine .step id (.pass (w := w) ⟨⟨_, rfl⟩, ⟨inlets, hw, by simp⟩, ⟨.of_eq rfl rfl, List.Subset.refl _⟩, rfl,
      fun _ => rfl⟩)
  | cons p rest ih =>
    obtain ⟨hp, hrest⟩ := List.forall_mem_cons.1 htodo
    obtain ⟨hflatp, hflat⟩ := List.forall_mem_cons.1 hflat
    refine .step id (.call (f := .gathering _ members _) (List.suffix_refl _)
      (hw.subscribe hp hheld hflatp _) ?_)
    rintro _ w₁ ⟨⟨t, rfl⟩, hw₁, hc, hseen, hget⟩
    refine .back ?_
    refine (ih hrest hw₁ (hc.held hheld) (fun q hq => ?_) (members ++ [t])).mono ?_
    · rw [hget]
      exact hc.flat (hflat q hq)
    · rintro _ w' ⟨ht, ⟨inlets', hw', hmap⟩, hc', hseen', hget'⟩
      refine ⟨ht, ⟨inlets', hw', by simpa using hmap⟩, hc.trans hc', hseen'.trans hseen, fun q => ?_⟩
      rw [hget', hget]

/-! ## What happens then -/

/-- Properties are assigned and values are pushed, one after the other. -/
theorem performs [DecidableEq C] (hw : w.Flattens K seen code root inlets) (hK : K.Extends seen)
    (hnotes : K.Notes seen code fun v => [v]) (events : List Event) (hevents : ∀ e ∈ events, e.Valid K w) :
    ∃ ws, w.Performs K (events.map (·.command root)) ws ∧ ∀ x ∈ (w :: ws).zip (events.zip ws),
      seen x.2.2.client = seen x.1.client ++
        x.2.1.delivers x.1.heap root (inlets.map Inlet.property) ∧
      ∀ j, x.2.2.heap.registrations code j = x.2.2.heap.holding root (inlets.map Inlet.property) j := by
  induction events generalizing w with
  | nil => exact ⟨[], .nil, by simp⟩
  | cons e rest ih =>
    obtain ⟨he, hrest⟩ := List.forall_mem_cons.1 hevents
    have hone : Completes K [] (w.start (e.command root)) fun _ w' =>
        w'.Flattens K seen code root inlets ∧ w.Upholds K w' ∧ seen w'.client = seen w.client ++
          e.delivers w.heap root (inlets.map Inlet.property) := by
      cases e with
      | set p v =>
        refine (hw.set hK p he []).mono fun _ w' ⟨hw', hc, hseen⟩ => ⟨hw', hc, ?_⟩
        rw [hseen, Event.delivers, List.append_nil]
      | push j v => exact hw.next hK hnotes j v []
    obtain ⟨signal, w', hans, hw', hc, hseen⟩ := hone.answers
    have hvalid : ∀ e ∈ rest, e.Valid K w' := by
      intro e he
      have := hrest e he
      cases e with
      | set p v => exact hc.flat this
      | push j v => trivial
    obtain ⟨ws, hws, hall⟩ := ih hw' hvalid
    exact ⟨w' :: ws, .cons hans hws, List.forall_mem_cons.2 ⟨⟨hseen, hw'.registrations_eq⟩, hall⟩⟩

end World.Flattens

/-! ## Call sites -/

namespace CallSite

variable {s : CallSite} {strategy : Strategy} {caps : Capabilities}

/-- The streams of the properties that a call site watches, merged if there are several. -/
def flattened (s : CallSite) (root : ObjectId) : Stream F :=
  match s.paths.map fun p => (Stream.inlet root p.root.property : Stream F) with
  | [x] => x
  | xs => .merge xs

/-- Properties that hold streams are watched directly. -/
theorem links_of_whenAnyObservable (hs : s.check .whenAnyObservable strategy = .ok ()) {p : Path}
    (hp : p ∈ s.paths) : p.links = [] := by
  obtain ⟨hkind, -, -, -, -, -, hchain, -⟩ := check_eq_ok_iff.1 hs
  obtain ⟨i, hi⟩ := List.getElem?_of_mem hp
  have hm : (p, i) ∈ s.paths.zipIdx := by
    rw [List.mem_zipIdx_iff_getElem?]
    exact hi
  have hnot := List.find?_eq_none.1 (hchain hkind) (p, i) hm
  simpa [Path.isChain] using hnot

/-- What a call site without selector and scheduler observes. -/
theorem observe_streamObservation (hs : s.check .whenAnyObservable strategy = .ok ())
    (hselector : s.features.selector = false) (hscheduler : s.features.scheduler = false)
    (hcaps : ∀ p ∈ s.paths, caps.supports p.rootType .after = true) (root : ObjectId) (a : Arguments F) :
    (s.streamObservation caps).observe root a = .ok (s.flattened root) := by
  obtain ⟨hkind, -, -, -, -, hbefore, -⟩ := check_eq_ok_iff.1 hs
  have htiming : s.timing = .after := by
    have : s.features.beforeChange ≠ true := fun hb => by simpa [hkind, CallKind.allowsBeforeChange] using hbefore hb
    simp [timing, this]
  obtain ⟨pipe, hpipe⟩ : ∃ pipe : Path → Pipeline, pipe = fun p =>
      ⟨.watch p.root .after, [.emptyIfNull, .switch]⟩ := ⟨_, rfl⟩
  have hpipelines : (s.pathPipelines caps).map (fun x => (x.2.andThen .emptyIfNull).andThen .switch) =
      s.paths.map pipe := by
    unfold pathPipelines
    rw [List.map_map]
    refine List.map_congr_left fun p hp => ?_
    simp [hpipe, Path.pipeline, htiming, hcaps p hp, links_of_whenAnyObservable hs hp, Staged.andThen]
  have hone : ∀ p, (pipe p).observe root a = .ok (.inlet root p.root.property) := fun p => by
    rw [hpipe]
    rfl
  have hinputs : ∀ l : List Path, observeInputs root a (l.map pipe) =
      .ok (l.map fun p => .inlet root p.root.property) := fun l => by
    rw [observeInputs_eq_ok_iff, List.forall₂_map_left_iff, List.forall₂_map_right_iff, List.forall₂_same]
    exact fun p _ => hone p
  unfold streamObservation finish
  simp only [hpipelines, hselector, hscheduler, Staged.andThenIf, Bool.false_eq_true, if_false, flattened]
  rcases s.paths with - | ⟨p, - | ⟨q, rest⟩⟩
  · rfl
  · exact hone p
  · simp only [List.map_cons, joined, Staged.observe, observePipeline, Stage.start]
    have := hinputs (p :: q :: rest)
    simp only [List.map_cons] at this
    rw [this]
    rfl

end CallSite

/-- Subscribing to the streams of a call site watches each of its properties. -/
theorem World.Idle.subscribe (hw : w.Idle K seen code root) {s : CallSite}
    (hnames : ∀ p ∈ s.paths, p.root.property ≠ "")
    (hflat : ∀ p ∈ s.paths, w.heap.Flat (K.refs w.client) (w.heap.get root p.root.property)) :
    Completes K [] (w.start (.subscribe (s.flattened root) (.client code))) fun signal w' =>
      (∃ t, signal = .subscription t) ∧
      (∃ inlets, w'.Flattens K seen code root inlets ∧
        inlets.map Inlet.property = s.paths.map (·.root.property)) ∧
      w.Upholds K w' ∧ seen w'.client = seen w.client ∧ ∀ q, w'.heap.get root q = w.heap.get root q := by
  have hall := hw.flattens.subscribeAll (s.paths.map (·.root.property)) (by simpa using hnames) hw.held
    (by simpa using hflat) [] []
  unfold CallSite.flattened
  split
  · next x hx =>
    obtain ⟨p, hp, rfl⟩ : ∃ p, s.paths = [p] ∧ Stream.inlet root p.root.property = x := by
      simpa [List.map_eq_singleton_iff] using hx
    rw [hp] at hnames hflat
    refine (hw.flattens.subscribe (hnames p (by simp)) hw.held (hflat p (by simp)) []).mono ?_
    rintro signal w' ⟨ht, hw', h⟩
    exact ⟨ht, ⟨_, hw', by simp [hp]⟩, h⟩
  · refine .step id ?_
    simpa [World.start, State.step, stepCommand, stepSubscribe, State.goOn, World.withHeap, Function.comp_def]
      using hall

/-- A call site observes properties that hold streams, without a selector. Its subscription delivers nothing
at first. Then properties of the object are assigned and values are pushed into subjects: an assignment
delivers nothing, and a push delivers the value once for each watched property that holds a stream of the
subject. At each time the subscription is registered with a subject once for each watched property that
holds a stream of it. -/
theorem CallSite.streamObservation_flattens [DecidableEq C] {s : CallSite} {strategy : Strategy}
    (hs : s.check .whenAnyObservable strategy = .ok ()) (hselector : s.features.selector = false)
    (hscheduler : s.features.scheduler = false) (hnames : ∀ p ∈ s.paths, p.root.property ≠ "")
    {caps : Capabilities} (hcaps : ∀ p ∈ s.paths, caps.supports p.rootType .after = true)
    (hw : w.Idle K seen code root)
    (hflat : ∀ p ∈ s.paths, w.heap.Flat (K.refs w.client) (w.heap.get root p.root.property))
    (events : List Event) (hevents : ∀ e ∈ events, e.Valid K w) (a : Arguments F) :
    ∃ plan stream teardown w₁ ws, s.plan caps = .ok (.observation plan) ∧
      plan.observe root a = .ok stream ∧
      w.Answers K (.subscribe stream (.client code)) (.subscription teardown) w₁ ∧
      seen w₁.client = seen w.client ∧ (∀ q, w₁.heap.get root q = w.heap.get root q) ∧
      (∀ j, w₁.heap.registrations code j = w₁.heap.holding root (s.paths.map (·.root.property)) j) ∧
      w₁.Performs K (events.map (·.command root)) ws ∧ ∀ x ∈ (w₁ :: ws).zip (events.zip ws),
        seen x.2.2.client = seen x.1.client ++
          x.2.1.delivers x.1.heap root (s.paths.map (·.root.property)) ∧
        ∀ j, x.2.2.heap.registrations code j =
          x.2.2.heap.holding root (s.paths.map (·.root.property)) j := by
  obtain ⟨hkind, -⟩ := check_eq_ok_iff.1 hs
  obtain ⟨_, w₁, hans, ⟨t, rfl⟩, ⟨inlets, hw₁, hmap⟩, hc, hseen, hget⟩ := (hw.subscribe hnames hflat).answers
  have hvalid : ∀ e ∈ events, e.Valid K w₁ := by
    intro e he
    have := hevents e he
    cases e with
    | set p v => exact hc.flat this
    | push j v => trivial
  obtain ⟨ws, hws, hall⟩ := hw₁.performs hw.functions hw.notes events hvalid
  rw [hmap] at hall
  refine ⟨_, _, t, w₁, ws, by simp only [plan, hkind],
    observe_streamObservation hs hselector hscheduler hcaps root a, hans, hseen, hget, fun j => ?_, hws, hall⟩
  rw [hw₁.registrations_eq, hmap]

/-! ## A radio -/

/-- A call site that observes the news and the music of a radio. -/
def CallSite.radio : CallSite where
  kind := .whenAnyObservable
  owner := ⟨"Radio", false⟩
  paths := [.single ⟨"News", ⟨"stream", false⟩, ⟨"Radio", false⟩⟩,
    .single ⟨"Music", ⟨"stream", false⟩, ⟨"Radio", false⟩⟩]
  result := ⟨"text", false⟩
  features := default
  location := ⟨"radio.rs", 1⟩
  texts := []

/-- A radio whose news is the first of two stations, and that has no music. -/
def Heap.radio : Heap F C :=
  { Heap.empty with
    objects := #[⟨"Radio", .full, [("News", .stream 0)], [], 0⟩]
    subjects := #[⟨[], 0⟩, ⟨[], 0⟩]
    streams := #[.subject 0, .subject 1] }

/-- The music is taken from the station of the news, then from the other one, and the news is turned off. -/
def Event.tuning : List Event :=
  [.push 0 (.int 1), .set "Music" (.stream 0), .push 0 (.int 2), .set "Music" (.stream 1), .push 1 (.int 3),
    .set "News" .null, .push 0 (.int 4)]

theorem Heap.flat_radio (j : SubjectId) (hj : j < 2) :
    (radio : Heap F C).Flat [.object 0, .subject 0, .subject 1] (.stream j) := by
  rintro _ ⟨⟩
  match j, hj with
  | 0, _ => exact ⟨0, rfl, by simp [radio], by decide⟩
  | 1, _ => exact ⟨1, rfl, by simp [radio], by decide⟩

theorem World.idle_radio : World.Idle (Client.recorder [.object 0, .subject 0, .subject 1]) id () 0
    ⟨.radio, []⟩ where
  functions := ⟨fun f => f.elim, fun f => f.elim, fun f => f.elim, fun _ _ _ => List.Subset.refl _⟩
  notes _ _ := ⟨_, .finish rfl, rfl, rfl⟩
  exist := by decide
  held := by simp [Client.recorder]
  supports := by decide
  handlers := by simp [Heap.handlers, Heap.radio]
  observers j e he := by
    have hnone : (Heap.radio : Heap Empty Unit).roster (.subject j) = [] := by
      rcases j with - | - | j <;> rfl
    rw [hnone] at he
    cases he
  nodup j := by rcases j with - | - | j <;> exact List.nodup_nil

theorem CallSite.streamObservation_flattens_radio :
    ∃ plan stream teardown w₁ ws, radio.plan ⟨[("Radio", .full)]⟩ = .ok (.observation plan) ∧
      plan.observe 0 (default : Arguments Empty) = .ok stream ∧
      World.Answers (.recorder [.object 0, .subject 0, .subject 1]) ⟨.radio, []⟩
        (.subscribe stream (.client ())) (.subscription teardown) w₁ ∧
      w₁.client = [] ∧ (∀ q, w₁.heap.get 0 q = (Heap.radio : Heap Empty Unit).get 0 q) ∧
      (∀ j, w₁.heap.registrations () j = w₁.heap.holding 0 ["News", "Music"] j) ∧
      w₁.Performs (.recorder [.object 0, .subject 0, .subject 1]) (Event.tuning.map (·.command 0)) ws ∧
      ∀ x ∈ (w₁ :: ws).zip (Event.tuning.zip ws),
        x.2.2.client = x.1.client ++ x.2.1.delivers x.1.heap 0 ["News", "Music"] ∧
        ∀ j, x.2.2.heap.registrations () j = x.2.2.heap.holding 0 ["News", "Music"] j :=
  have hs : radio.check .whenAnyObservable .positional = .ok () := rfl
  streamObservation_flattens hs rfl rfl (by decide) (by decide) World.idle_radio
    (by
      simp only [radio, List.forall_mem_cons, List.not_mem_nil, false_imp_iff, implies_true, and_true]
      exact ⟨Heap.flat_radio 0 (by decide), nofun⟩)
    Event.tuning
    (by
      simp only [Event.tuning, List.forall_mem_cons, List.not_mem_nil, false_imp_iff, implies_true, and_true]
      exact ⟨trivial, Heap.flat_radio 0 (by decide), trivial, Heap.flat_radio 1 (by decide), trivial, nofun,
        trivial⟩) _

end DataBinding
