import DataBinding.Proofs.Feed.Latest
import DataBinding.Proofs.Feed.Subscribe
import DataBinding.Proofs.Machine.Sessions
import DataBinding.Proofs.Quiet.Session
import DataBinding.Proofs.TwoWay.Activation
/-!
# One-way bindings

A feed whose end writes each value, mapped, into a property of an object that is not among those along its
path (`Feed.Pushes`). That property holds what the last value is mapped to, and nothing else is written.

`CallSite.oneWay_follows`: so once a one-way binding is active, its target holds what the source path
reads, mapped, after each assignment, and the binding changes no other property.
-/

namespace DataBinding

variable {F C S : Type}

open State

/-! ## Writing at the end of a feed -/

namespace Heap

/-- The heap after a value has been assigned, if nobody does anything: an equal one is left out. -/
def stored (h : Heap F C) (o : ObjectId) (p : String) (v : Value) : Heap F C :=
  if (h.get o p).eqv v then h else h.put o p v

variable {h : Heap F C} {o a : ObjectId} {p q : String} {v : Value}

@[simp] theorem memories_stored : (h.stored o p v).memories = h.memories := by
  unfold stored
  split <;> rfl

variable (ho : o < h.objects.size)
include ho

theorem eqv_get_stored (hv : v.eqv v = true) : ((h.stored o p v).get o p).eqv v = true := by
  unfold stored
  split
  · assumption
  · rwa [get_put _ _ _ _ _ _ ho, if_pos ⟨rfl, rfl⟩]

theorem get_stored_of_ne (hne : ¬ (a = o ∧ q = p)) : (h.stored o p v).get a q = h.get a q := by
  unfold stored
  split
  · rfl
  · rw [get_put _ _ _ _ _ _ ho, if_neg hne]

theorem bypasses_stored {G : ObjectId → Prop} (hG : ¬ G o) : h.Bypasses G (h.stored o p v) := by
  unfold stored
  split
  · exact .refl _
  · exact .put ho hG _ _

theorem Closed.stored (hc : h.Closed) (hv : ∀ b, v = .object b → b < h.objects.size) :
    (h.stored o p v).Closed := by
  unfold Heap.stored
  split
  · exact hc
  · intro a q b hb
    rw [get_put _ _ _ _ _ _ ho] at hb
    rw [size_put]
    split at hb
    · exact hv b hb
    · exact hc a q b hb

end Heap

section Write
variable {K : Client F C S} {h : Heap F C} {k : S} {o : ObjectId} {p : String}

/-- An assignment that nobody hears of. -/
theorem completes_set_unheard (hh : ∀ t, h.handlersFor o t p = []) (base : List (Frame F C)) (v : Value) :
    Completes K base ⟨.run (.set o p v), base, h, k⟩ fun _ w' => w' = ⟨h.stored o p v, k⟩ := by
  refine .step id ?_
  simp only [State.step, stepCommand, stepSet, Heap.stored]
  split
  · exact .pass rfl
  · simp only [Heap.handlersFor_put, hh, stepNotify]
    refine .back ?_
    simp only [stepFrame, under, goOn, World.withHeap, Heap.handlersFor_put, hh, stepNotify]
    exact .back (.pass rfl)

/-- What is delivered is written, mapped, if it does not equal what is there. -/
theorem Observer.Carries.completes {x : Observer F C} {map : Value → Value} (hc : x.Carries K h o p map)
    (ho : Node.object o ∈ K.refs k) (hh : ∀ t, h.handlersFor o t p = []) (base : List (Frame F C))
    (v : Value) :
    Completes K base ⟨.run (.deliver x v), base, h, k⟩ fun _ w' => w' = ⟨h.stored o p (map v), k⟩ := by
  induction hc generalizing base v with
  | @write path hl hp hn =>
    have halive : (⟨.run (.deliver (.write o path) v), base, h, k⟩ : State F C S).alive K (.object o) =
        true := alive_of_kept K (fun _ hm => hm) (.inl ho)
    have htarget : h.target? o path = some (o, p) := by
      rw [h.target?_of_single o hl (hp.symm ▸ hn), hp]
    refine .step id ?_
    simp only [State.step, stepCommand, stepDeliver]
    rw [if_pos halive]
    refine .step id ?_
    simp only [State.step, stepCommand, under, World.withHeap, stepWrite, htarget, goOn]
    exact .call (List.suffix_refl _) (completes_set_unheard hh _ v) fun _ w' hw' => .back (.pass hw')
  | @apply f x g map hf _ ih =>
    refine .step id ?_
    simp only [State.step, stepCommand, stepDeliver, stepMap, hf]
    exact ih base (g v)
  | @publish i side x map hn _ ih =>
    refine .step id (.step (s := ⟨.run (.next i (.tagged side v)), .passing x v :: base, h, k⟩) id ?_)
    simp only [State.step, stepCommand, hn, stepPublish]
    exact .back (ih base v)
  | @skip i x map hz _ ih =>
    refine .step id ?_
    simp only [State.step, stepCommand, stepDeliver, hz]
    exact ih base v

end Write

/-- An observer writes what it is given, mapped, into a property of an object that is not one of these. -/
structure Push (K : Client F C S) (k : S) (G : ObjectId → Prop) (size : Nat) (target : ObjectId)
    (prop : String) (map : Value → Value) (next : Observer F C) : Prop where
  carries : ∀ h, next.Carries K h target prop map
  held : Node.object target ∈ K.refs k
  outside : ¬ G target
  exist : target < size
  respects : ∀ v v' : Value, v.eqv v' = true → (map v).eqv (map v') = true
  values : ∀ v : Value, (∀ b, v = .object b → b < size) → ∀ b, map v = .object b → b < size

/-- The end of a feed writes with this observer. If nobody else writes there (`alone`), the target holds what
the last value is mapped to. -/
def Feed.Pushes (k : S) (size : Nat) (target : ObjectId) (prop : String) (map : Value → Value)
    (next : Observer F C) (alone : Prop) (f : Feed F C) (last : Option Value) (w : World F C S) : Prop :=
  w.client = k ∧ w.heap.objects.size = size ∧ ∃ memory, f.tail = next.filtered memory ∧
    w.heap.Passed memory
      (fun u => ∀ v, u = some v → alone → (w.heap.get target prop).eqv (map v) = true) last

/-- Only this property may hold something else. -/
def World.Only (target : ObjectId) (prop : String) (w w' : World F C S) : Prop :=
  ∀ o q, ¬ (o = target ∧ q = prop) → w'.heap.get o q = w.heap.get o q

/-- Feeds along these objects, with nobody else around. -/
def Net.within (G : ObjectId → Prop) (feeds : List (Feed F C)) : Net F C :=
  ⟨feeds, G, fun _ => False, fun _ => False⟩

section Push
variable {K : Client F C S} {k : S} {G : ObjectId → Prop} {size : Nat} {target : ObjectId} {prop : String}
  {map : Value → Value} {next : Observer F C} {alone : Prop} {f : Feed F C} {w w' w'' : World F C S}

theorem World.Only.trans (a : w.Only target prop w') (b : w'.Only target prop w'') : w.Only target prop w'' :=
  fun o q hne => (b o q hne).trans (a o q hne)

/-- Where the cells, the target and the client are as they were, so is the end of a feed. -/
theorem Feed.Pushes.congr {last : Option Value} (hf : f.Pushes k size target prop map next alone last w)
    (hs : w'.heap.objects.size = w.heap.objects.size) (hc : w'.client = w.client)
    (hm : w.heap.memories.size ≤ w'.heap.memories.size)
    (hmemory : ∀ m < w.heap.memories.size, w'.heap.memory m = w.heap.memory m)
    (hget : alone → w'.heap.get target prop = w.heap.get target prop) :
    f.Pushes k size target prop map next alone last w' := by
  obtain ⟨hk, hsize, memory, htail, hp⟩ := hf
  refine ⟨hc.trans hk, hs.trans hsize, memory, htail, hp.congr hm (fun m _ => hmemory m) fun u hu v hv ha => ?_⟩
  rw [hget ha]
  exact hu v hv ha

/-- A value has been remembered and stored, mapped, in the target: it is taken. -/
theorem Push.took (hp : Push K k G size target prop map next) {memory : Option Nat} {last : Option Value}
    (hsize : w.heap.objects.size = size) (htail : f.tail = next.filtered memory)
    (hpassed : w.heap.Passed memory
      (fun u => ∀ v, u = some v → alone → (w.heap.get target prop).eqv (map v) = true) last)
    {v : Value} (hv : (Net.within G [f]).Admits w.heap v) {h₁ : Heap F C} (hh₁ : h₁ = w.heap.remembering memory v) :
    (Net.within G [f]).Took (Feed.Pushes k size target prop map next alone) (World.Only target prop) f v w
      ⟨h₁.stored target prop (map v), k⟩ := by
  have hlt : target < h₁.objects.size := by
    rw [hh₁, Heap.objects_remembering, hsize]
    exact hp.exist
  have hremember : w.heap.Bypasses G h₁ := hh₁ ▸ Heap.bypasses_remembering
  have hget : ∀ o q, h₁.get o q = w.heap.get o q := fun o q => hh₁ ▸ Heap.get_remembering o q
  have hbypass : w.heap.Bypasses G (h₁.stored target prop (map v)) :=
    hremember.trans (Heap.bypasses_stored hlt hp.outside)
  refine ⟨hbypass, fun hc => (hc.congr hremember.size hget).stored hlt fun b hb => ?_, ⟨rfl,
    hbypass.size.trans hsize, memory, htail, hpassed.remember hv.1 hbypass.memories (fun m _ => ?_) fun u hu _ => ?_⟩,
    fun f' hf' hne => absurd (List.mem_singleton.1 hf') hne,
    fun o q hne => (Heap.get_stored_of_ne hlt hne).trans (hget o q)⟩
  · rw [hremember.size, hsize]
    exact hp.values v (fun b hb => hsize ▸ (hv.2 b hb).2) b hb
  · simp only [Heap.memory, Heap.memories_stored, hh₁]
  · cases hu
    exact Heap.eqv_get_stored hlt (hp.respects v v hv.1)

/-- What is delivered at the end of the feed is written, or left out since it equals what was written. -/
theorem Push.takes (hp : Push K k G size target prop map next) {f : Feed F C} (hroot : G f.root) :
    (Net.within G [f]).Takes K (Feed.Pushes k size target prop map next alone)
      (fun w w' => w.heap.Aside w'.heap ∧ w'.client = w.client) fun _ => World.Only target prop where
  aside _ _ ha hc := ⟨ha, hc⟩
  keeps f' _ u w w' hb he := he.congr hb.1.size hb.2 (Nat.le_of_eq (by rw [hb.1.memories]))
    (fun m _ => hb.1.memory m) fun _ => hb.1.get ..
  takes f' hf' base v last w hv hcovers he := by
    obtain rfl := List.mem_singleton.1 hf'
    obtain ⟨hk, hsize, memory, htail, hpassed⟩ := he
    rw [htail]
    refine completes_filtered (fun m u hm hu heq => ?_) ?_
    · subst hm
      exact ⟨.refl _, id, ⟨hk, hsize, _, htail, hpassed.leave hu heq⟩, fun _ _ _ _ h => h, fun _ _ _ => rfl⟩
    -- nobody hears of the target
    have hquiet : ∀ t, (w.heap.remembering memory v).handlersFor target t prop = [] := fun t => by
      simp only [Heap.handlersFor, Heap.objects_remembering]
      refine List.eq_nil_iff_forall_not_mem.2 fun x hx => ?_
      obtain ⟨f'', hf'', howns⟩ | hother := hcovers target x ((Heap.mem_handlersFor ..).1 hx).2.1
      · obtain rfl := List.mem_singleton.1 hf''
        exact hp.outside (howns.within hroot)
      · exact hother
    refine ((hp.carries _).completes (hk ▸ hp.held) hquiet base v).mono fun _ w' hw' => ?_
    rw [hw', hk]
    exact hp.took hsize htail hpassed hv rfl

/-- A path whose values are pushed: it has been subscribed to by a feed, and all that is registered is the
feed's. -/
structure Feed.Pushing (K : Client F C S) (k : S) (G : ObjectId → Prop) (size : Nat) (target : ObjectId)
    (prop : String) (map : Value → Value) (next : Observer F C) (alone : Prop) (root : ObjectId) (p : Path)
    (f : Feed F C) (w : World F C S) : Prop where
  apart : (Net.within G [f]).Apart
  runs : (Net.within G [f]).Runs (Feed.Pushes k size target prop map next alone) (fun _ _ => False) w
  along : f.Along root p

variable {root : ObjectId} {p : Path} {s : Assignment}

/-- The property that an assignment is made to, after it, if nobody does anything. -/
def Assignment.made (s : Assignment) (h : Heap F C) : Heap F C :=
  if (s.old h).eqv s.value then h else h.put s.object s.property s.value

namespace Feed.Pushing

variable (hf : f.Pushing K k G size target prop map next alone root p w)
include hf

theorem client_eq : w.client = k ∧ w.heap.objects.size = size := by
  obtain ⟨u, -, hk, hsize, -⟩ := hf.runs.feeds f (List.mem_singleton.2 rfl)
  exact ⟨hk, hsize⟩

/-- The target holds what the path reads, mapped. -/
theorem eqv_readPath (hp : Push K k G size target prop map next) (hnames : ∀ s ∈ p.segments, s.property ≠ "")
    (ha : alone) :
    (w.heap.get target prop).eqv (map (w.heap.readPath root p)) = true := by
  obtain ⟨u, hu, -, hsize, memory, -, hpassed⟩ := hf.runs.feeds f (List.mem_singleton.2 rfl)
  obtain rfl := hu.eq_readPath hf.along hnames
  obtain ⟨u, hwritten, rfl | hrel⟩ := hpassed.held
  · exact hwritten _ rfl ha
  · cases hrel with
    | some he => exact Value.eqv_trans (hwritten _ rfl ha) (hp.respects _ _ he)

/-- A property is assigned. Besides, nothing changes but the target. -/
theorem set (hp : Push K k G size target prop map next) (hs : s.Valid w.heap)
    (hin : G s.object → s.value.eqv s.value = true ∧ ∀ b, s.value = .object b → G b)
    (hne : alone → ¬ (s.object = target ∧ s.property = prop)) (base : List (Frame F C)) :
    Completes K base ⟨.run s.command, base, w⟩ fun _ w' =>
      f.Pushing K k G size target prop map next alone root p w' ∧
        World.Only target prop ⟨s.made w.heap, w.client⟩ w' := by
  have hroot : G f.root := hf.apart.roots f (List.mem_singleton.2 rfl)
  refine (hf.runs.set hf.apart (hp.takes hroot) (fun x hx => hx.elim) (fun w w' hb o q _ => hb.1.get o q)
    (fun w w' w'' => World.Only.trans) hs.1 (fun h => (hin h).1) hs.2 (fun h => (hin h).2) fun f' _ u he => he.congr (Heap.size_put ..) rfl
      (Nat.le_refl _) (fun _ _ => rfl) fun ha => ?_).mono fun _ w' ⟨hruns, hw'⟩ =>
    ⟨⟨hf.apart, hruns, hf.along⟩, ?_⟩
  · rw [Heap.get_put _ _ _ _ _ _ hs.1, if_neg fun he => hne ha ⟨he.1.symm, he.2.symm⟩]
  · rw [Assignment.made, Assignment.old]
    split at hw'
    · next he =>
      rw [if_pos he, hw']
      exact fun _ _ _ => rfl
    · next he =>
      rw [if_neg he]
      exact hw'.did

end Feed.Pushing

/-- Properties are assigned one after the other. -/
theorem Feed.Pushing.performs (hp : Push K k G size target prop map next)
    (hnames : ∀ s ∈ p.segments, s.property ≠ "") (sets : List Assignment)
    (hf : f.Pushing K k G size target prop map next alone root p w)
    (hsets : ∀ s ∈ sets, s.Valid w.heap ∧
      (G s.object → s.value.eqv s.value = true ∧ ∀ b, s.value = .object b → G b) ∧
      (alone → ¬ (s.object = target ∧ s.property = prop))) :
    ∃ ws, w.Performs K (sets.map Assignment.command) ws ∧
      (∀ x ∈ (w :: ws).zip (sets.zip ws), ∀ o q, ¬ (o = target ∧ q = prop) →
        x.2.2.heap.get o q = (x.2.1.made x.1.heap).get o q) ∧
      (alone → ∀ x ∈ w :: ws, (x.heap.get target prop).eqv (map (x.heap.readPath root p)) = true) := by
  induction sets generalizing w with
  | nil => exact ⟨[], .nil, by simp, fun ha => by simpa using hf.eqv_readPath hp hnames ha⟩
  | cons s rest ih =>
    obtain ⟨⟨hs, hin, hne⟩, hrest⟩ := List.forall_mem_cons.1 hsets
    obtain ⟨signal, w', hans, hf', honly⟩ := (hf.set hp hs hin hne []).answers
    have hsize : w'.heap.objects.size = w.heap.objects.size := hf'.client_eq.2.trans hf.client_eq.2.symm
    obtain ⟨ws, hws, hothers, heqv⟩ := ih hf' fun s hs => by
      rw [Assignment.Valid, hsize]
      exact hrest s hs
    refine ⟨w' :: ws, .cons hans hws, List.forall_mem_cons.2 ⟨honly, hothers⟩, fun ha => ?_⟩
    exact List.forall_mem_cons.2 ⟨hf.eqv_readPath hp hnames ha, heqv ha⟩

/-- Where nobody listens yet, a path is subscribed to, and its values are pushed from then on. -/
theorem Push.subscribe (hp : Push K w.client G w.heap.objects.size target prop map next)
    (hnames : ∀ s ∈ p.segments, s.property ≠ "") (hhandlers : ∀ o, w.heap.handlers o = [])
    (hn : w.heap.Numbered) (hc : w.heap.Closed)
    (hsupports : ∀ o < w.heap.objects.size, G o → w.heap.supports o .after = true)
    (hG : ∀ o q b, G o → w.heap.get o q = .object b → G b)
    (hequal : ∀ o q, G o → (w.heap.get o q).eqv (w.heap.get o q) = true) (hroot : root < w.heap.objects.size)
    (hin : G root) (hheld : Node.object root ∈ K.refs w.client) (alone : Prop) (base : List (Frame F C)) :
    Completes K base ⟨.run (.subscribe (p.stream .after root) next), base, w⟩ fun signal w' =>
      (∃ t, signal = .subscription t) ∧ w.Only target prop w' ∧
        ∃ f : Feed F C, f.Pushing K w.client G w.heap.objects.size target prop map next alone root p w' := by
  have hnone : (Net.within G ([] : List (Feed F C))).Runs
      (Feed.Pushes w.client w.heap.objects.size target prop map next alone) (fun _ _ => False) w :=
    ⟨⟨hn, hc, hsupports, hG, hequal, fun o x hx => by simp [hhandlers] at hx⟩, nofun⟩
  have hapart : (Net.within G ([] : List (Feed F C))).Apart :=
    .of_nil rfl fun _ _ _ h => h.elim
  have hinner : ∀ i g y, next ≠ .inner i g y := by
    rintro i g y rfl
    cases hp.carries w.heap
  have hadd : (Net.within G [p.feed root w.heap next]).Apart :=
    hnone.apart_add hapart hnames hin (fun _ h => h.elim) hinner nofun
  have hempty : (p.feed root w.heap next).Pushes w.client w.heap.objects.size target prop map next alone none
      ⟨p.withCells .after w.heap, w.client⟩ :=
    ⟨rfl, by simp, _, rfl, Path.passed_withCells nofun⟩
  refine (Net.Runs.subscribe (n := .within G []) hadd (hp.takes hin) hnone hroot hheld nofun hempty).mono
    fun signal w' ⟨ht, _, hruns, _, h₁, w₂, ha₁, htook, ha₂, _⟩ =>
    ⟨ht, fun o q hne => ?_, _, hadd, hruns, Path.along_feed⟩
  rw [ha₂.get, htook.did o q hne, ha₁.get, Path.get_withCells]

end Push

/-! ## Plans of one-way bindings -/

/-- What is subscribed to behind mappings is subscribed to with the mappings in front of the observer. -/
theorem State.Completes.mapped {K : Client F C S} {base : List (Frame F C)} {w : World F C S}
    {Q : Signal C → World F C S → Prop} (maps : List (Mapping F)) (x : Stream F) (y : Observer F C)
    (h : Completes K base ⟨.run (.subscribe x (.mapped maps y)), base, w⟩ Q) :
    Completes K base ⟨.run (.subscribe (x.mapped maps) y), base, w⟩ Q := by
  induction maps generalizing x with
  | nil => exact h
  | cons f rest ih => exact ih (.map x f) (.step id h)

/-- The last of several subscriptions. -/
theorem State.Completes.subscribe_last {K : Client F C S} {base : List (Frame F C)} {w : World F C S}
    {members : List (Teardown C)} {x : Stream F} {y : Observer F C} {R : World F C S → Prop}
    (h : Completes K (.gathering y members [] :: base) ⟨.run (.subscribe x y), .gathering y members [] :: base, w⟩
      fun signal w' => (∃ t, signal = .subscription t) ∧ R w') :
    Completes K base ⟨.run (.subscribeAll members [(x, y)]), base, w⟩
      fun signal w' => (∃ t, signal = .subscription t) ∧ R w' := by
  refine .step id (.call (List.suffix_refl _) h ?_)
  rintro _ w' ⟨⟨t, rfl⟩, hR⟩
  exact .back (.step id (.pass ⟨⟨_, rfl⟩, hR⟩))

/-- The functions that a one-way binding applies: the selector, and then the converter. -/
def CallSite.functions (s : CallSite) (a : Arguments F) : List F :=
  (a.supplied? s.features.selector .selector).toList ++ (a.supplied? s.features.conversion .converter).toList

section Activate
variable {K : Client F C S} {s : CallSite} {caps : Capabilities} {b : BindingPlan} {a : Arguments F}
  {sel conv : Value → Value} (hsel : a.Supplies K s.features.selector .selector sel)
  (hconv : a.Supplies K s.features.conversion .converter conv)
include hsel hconv

/-- A one-way binding subscribes to the source, and writes what comes out of its functions. -/
theorem BindingPlan.activate_of_oneWay (hb : s.bindingPlan caps = .ok b) (hk : s.kind = .oneWayBind)
    (hs : s.features.scheduler = false) {source : ObjectId} {x : Stream F}
    (hx : (b.sourcePath.pipeline .after caps).observe source a = .ok x) (target : ObjectId) (h : Heap F C) :
    ∃ pipeline, b.activate source target a h =
      (.ok ⟨[(x.mapped ((s.functions a).map .apply), .write target b.targetPath)], pipeline, none⟩, h) := by
  obtain ⟨mode, hm, -, -, hmode, hsource, hto, htarget, hfrom⟩ := CallSite.bindingPlan_eq hb
  obtain rfl : mode = .oneWay := by
    rw [hk] at hm
    exact (Option.some.inj hm).symm
  have hoperators : applyOperators source a x b.toTarget = .ok (x.mapped ((s.functions a).map .apply), none) := by
    have hfun : ∀ slot f, a.slot? slot = some f → a.function slot = .ok f := fun slot f hf => by
      simp [Arguments.function, hf]
    rw [hto, CallSite.toTarget, hs, CallSite.functions]
    cases hselector : s.features.selector with
    | false =>
      cases hconversion : s.features.conversion with
      | false => rfl
      | true =>
        obtain ⟨g, hg, -⟩ := hconv.some hconversion
        simp [applyOperators, Stage.applyTo, hfun _ _ hg, hg, Arguments.supplied?, Stream.mapped]
    | true =>
      obtain ⟨f, hf, -⟩ := hsel.some hselector
      cases hconversion : s.features.conversion with
      | false => simp [applyOperators, Stage.applyTo, hfun _ _ hf, hf, Arguments.supplied?, Stream.mapped]
      | true =>
        obtain ⟨g, hg, -⟩ := hconv.some hconversion
        simp [applyOperators, Stage.applyTo, hfun _ _ hf, hf, hfun _ _ hg, hg, Arguments.supplied?,
          Stream.mapped, bind, Except.bind, pure, Except.pure]
  have hmode' : b.mode ≠ .tagged := by simp [hmode]
  refine ⟨x.mapped ((s.functions a).map .apply), ?_⟩
  simp [BindingPlan.activate, BindingPlan.wire, direction, hsource, hx, hoperators, htarget, hmode',
    BindingPlan.subscriptions, Except.map, bind, Except.bind, pure, Except.pure]

/-- Its end writes what the selector and then the converter make of a value. -/
theorem CallSite.carries_functions {path : Path} (hl : path.links = []) (hn : path.root.property ≠ "")
    (target : ObjectId) (h : Heap F C) :
    (Observer.mapped ((s.functions a).map .apply) (.write target path)).Carries K h target path.root.property
      (conv ∘ sel) := by
  have hwrite : (Observer.write target path : Observer F C).Carries K h target path.root.property id :=
    .write hl rfl hn
  have hcarries := (hwrite.converted (fun f hf => hconv.apply_of_some hf) hconv.eq_of_none).converted
    (fun f hf => hsel.apply_of_some hf) hsel.eq_of_none
  rwa [Observer.mapped, Observer.mapped, ← List.foldr_append, ← List.map_append] at hcarries

end Activate

/-- A one-way binding without a scheduler, from a path along some objects to a property of another object,
where nobody else listens, while properties are assigned that keep to those objects. The binding changes
no property but that one. If nobody else assigns it, then once the binding is active and after each
assignment it holds what the source path reads, passed through the selector and the converter. -/
theorem CallSite.oneWay_follows {K : Client F C S} {w : World F C S} (s : CallSite) {caps : Capabilities}
    {b : BindingPlan} (hb : s.bindingPlan caps = .ok b) (hkind : s.kind = .oneWayBind)
    (hsched : s.features.scheduler = false) (hnames : ∀ x ∈ b.sourcePath.segments, x.property ≠ "")
    (hsingle : b.targetPath.links = []) (hname : b.targetPath.root.property ≠ "")
    (hcaps : caps.supports b.sourcePath.rootType .after = true) {source target : ObjectId}
    {G : ObjectId → Prop} (hsource : G source) (htarget : ¬ G target)
    (hroots : ∀ o ∈ [source, target], o < w.heap.objects.size ∧ Node.object o ∈ K.refs w.client)
    (hhandlers : ∀ o, w.heap.handlers o = []) (hnumbered : w.heap.Numbered) (hclosed : w.heap.Closed)
    (hsupports : ∀ o < w.heap.objects.size, G o → w.heap.supports o .after = true)
    (hG : ∀ o q x, G o → w.heap.get o q = .object x → G x)
    (hequal : ∀ o q, G o → (w.heap.get o q).eqv (w.heap.get o q) = true) (a : Arguments F)
    {sel conv : Value → Value} (hsel : a.Supplies K s.features.selector .selector sel)
    (hconv : a.Supplies K s.features.conversion .converter conv)
    (hselrespects : ∀ u v : Value, u.eqv v = true → (sel u).eqv (sel v) = true)
    (hconvrespects : ∀ u v : Value, u.eqv v = true → (conv u).eqv (conv v) = true)
    (hvalues : ∀ v : Value, (∀ x, v = .object x → x < w.heap.objects.size) →
      ∀ x, conv (sel v) = .object x → x < w.heap.objects.size)
    (sets : List Assignment) (hsets : ∀ x ∈ sets, x.Valid w.heap ∧
      (G x.object → x.value.eqv x.value = true ∧ ∀ y, x.value = .object y → G y)) :
    ∃ x h t w₁ ws, b.activate source target a w.heap = (.ok x, h) ∧
      World.Answers K ⟨h, w.client⟩ (.subscribeAll [] x.subscriptions) (.subscription t) w₁ ∧
      w₁.Performs K (sets.map Assignment.command) ws ∧
      (∀ o q, ¬ (o = target ∧ q = b.targetPath.root.property) → w₁.heap.get o q = w.heap.get o q) ∧
      (∀ x ∈ (w₁ :: ws).zip (sets.zip ws), ∀ o q, ¬ (o = target ∧ q = b.targetPath.root.property) →
        x.2.2.heap.get o q = (x.2.1.made x.1.heap).get o q) ∧
      ((∀ x ∈ sets, ¬ (x.object = target ∧ x.property = b.targetPath.root.property)) →
        ∀ x ∈ w₁ :: ws, (x.heap.get target b.targetPath.root.property).eqv
          (conv (sel (x.heap.readPath source b.sourcePath))) = true) := by
  obtain ⟨hso, hsk⟩ := hroots source (by simp)
  obtain ⟨hto, htk⟩ := hroots target (by simp)
  obtain ⟨pipeline, hactivate⟩ := BindingPlan.activate_of_oneWay hsel hconv hb hkind hsched
    (Path.observe_pipeline _ _ source hcaps (hnames _ List.getLastD_mem_cons) a) target w.heap
  have hp : Push K w.client G w.heap.objects.size target b.targetPath.root.property (conv ∘ sel)
      (Observer.mapped ((s.functions a).map .apply) (.write target b.targetPath)) :=
    ⟨carries_functions hsel hconv hsingle hname target, htk, htarget, hto,
      fun u v he => hconvrespects _ _ (hselrespects _ _ he), hvalues⟩
  have hsubscribe := hp.subscribe hnames hhandlers hnumbered hclosed hsupports hG hequal hso hsource hsk
    (∀ x ∈ sets, ¬ (x.object = target ∧ x.property = b.targetPath.root.property))
    [.gathering (.write target b.targetPath) [] []]
  obtain ⟨signal, w₁, hans, ⟨t, rfl⟩, honly, f, hf⟩ := (State.Completes.subscribe_last
    (hsubscribe.mapped _ (b.sourcePath.stream .after source) _)).answers
  obtain ⟨ws, hws, hothers, hfollows⟩ := hf.performs hp hnames sets fun x hx => by
    obtain ⟨hvalid, hin⟩ := hsets x hx
    rw [Assignment.Valid, hf.client_eq.2]
    exact ⟨hvalid, hin, fun halone => halone x hx⟩
  exact ⟨_, _, t, w₁, ws, hactivate, hans, hws, honly, hothers, hfollows⟩

/-! ## A person and a label -/

/-- One function tells whether a value is null, and the other one yields the opposite; of a client that holds
these things. -/
def Client.labelling (held : List Node) : Client Bool Empty Unit where
  apply f v w := (if f then .bool v.isNull else v.opposite, w)
  resume := nofun
  functionRefs _ := []
  codeRefs := nofun
  refs _ := held

/-- A person, the addresses in one city, and a label. -/
def Heap.homesAndLabel : Heap F C :=
  { Heap.homes with objects := Heap.homes.objects.push ⟨"Label", .full, [], [], 0⟩ }

namespace Heap

theorem get_homesAndLabel (o : ObjectId) (p : String) :
    (homesAndLabel : Heap F C).get o p = (homes : Heap F C).get o p := by
  rcases o with _ | _ | _ | _ | _ | o <;> rfl

theorem handlers_homesAndLabel (o : ObjectId) : (homesAndLabel : Heap F C).handlers o = [] := by
  rcases o with _ | _ | _ | _ | _ | o <;> rfl

theorem numbered_homesAndLabel : (homesAndLabel : Heap F C).Numbered where
  sorted o := by simp [handlers_homesAndLabel]
  below o := by simp [handlers_homesAndLabel]
  undoes _ := trivial

end Heap

/-- Whether the city of a person is known is bound to a property of a label. -/
def CallSite.label : CallSite where
  kind := .oneWayBind
  owner := ⟨"Label", false⟩
  paths := [.city, .single ⟨"Known", ⟨"bool", false⟩, ⟨"Label", false⟩⟩]
  result := ⟨"bool", false⟩
  features := { (default : Features) with selector := true, conversion := true }
  location := ⟨"label.rs", 1⟩
  texts := []

/-- The person moves, and the new address is left without a city. -/
theorem CallSite.oneWay_follows_label :
    ∃ b, CallSite.label.bindingPlan ⟨[("Person", .full)]⟩ = .ok b ∧
    ∃ x h t w₁ ws, b.activate 3 4 ⟨some true, some false, none, none⟩ Heap.homesAndLabel = (.ok x, h) ∧
      World.Answers (.labelling [.object 3, .object 4]) ⟨h, ()⟩ (.subscribeAll [] x.subscriptions)
        (.subscription t) w₁ ∧
      w₁.Performs (.labelling [.object 3, .object 4]) [.set 3 "Address" (.object 1), .set 1 "City" .null] ws ∧
      ∀ x ∈ w₁ :: ws, (x.heap.get 4 "Known").eqv
        (Value.opposite (.bool (x.heap.readPath 3 .city).isNull)) = true := by
  have hplan : CallSite.label.bindingPlan ⟨[("Person", .full)]⟩ = .ok _ := rfl
  have hsel : Arguments.Supplies (Client.labelling [.object 3, .object 4])
      ⟨some true, some false, none, none⟩ true .selector fun v => .bool v.isNull :=
    ⟨fun _ => ⟨true, rfl, fun _ _ => rfl⟩, nofun⟩
  have hconv : Arguments.Supplies (Client.labelling [.object 3, .object 4])
      ⟨some true, some false, none, none⟩ true .converter Value.opposite :=
    ⟨fun _ => ⟨false, rfl, fun _ _ => rfl⟩, nofun⟩
  have hin : ∀ o q x, o < 4 → (Heap.homesAndLabel : Heap Bool Empty).get o q = .object x → x < 4 :=
    fun o q x _ hx => Heap.closed_homes (F := Bool) (C := Empty) o q x (Heap.get_homesAndLabel o q ▸ hx)
  have hequal : ∀ o q, o < 4 → ((Heap.homesAndLabel : Heap Bool Empty).get o q).eqv
      ((Heap.homesAndLabel : Heap Bool Empty).get o q) = true := fun o q _ => by
    rw [Heap.get_homesAndLabel]
    exact Heap.eqv_homes o q
  obtain ⟨x, h, t, w₁, ws, hactivate, hans, hws, -, -, hfollows⟩ := CallSite.oneWay_follows
    (w := ⟨.homesAndLabel, ()⟩) (G := (· < 4)) CallSite.label hplan rfl rfl (by decide) rfl (by decide) (by decide)
    (show (3 : Nat) < 4 by decide) (show ¬ (4 : Nat) < 4 by decide) (by decide) Heap.handlers_homesAndLabel
    Heap.numbered_homesAndLabel (Heap.closed_of_forall (by decide)) (by decide) hin hequal _ hsel hconv
    (fun u v he => by cases u <;> cases v <;> simp_all [Value.eqv, Value.isNull])
    Value.inverse_opposite.respects nofun [⟨3, "Address", .object 1⟩, ⟨1, "City", .null⟩] (by
      simp [Assignment.Valid, Heap.homesAndLabel, Heap.homes, Value.eqv])
  exact ⟨_, hplan, x, h, t, w₁, ws, hactivate, hans, hws, hfollows (by decide)⟩

end DataBinding
