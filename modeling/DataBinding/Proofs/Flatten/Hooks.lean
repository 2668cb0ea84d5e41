import Mathlib.Data.List.Nodup
import DataBinding.Proofs.Flatten.Lookers
import DataBinding.Proofs.Heap.Rosters
/-!
# Switches that take the streams of properties

A switch that is shown the values of a property takes the stream that such a value is, and the empty
stream for anything else. `Heap.Hooks` says of several such switches which subject each of them is
subscribed to (its target), and that they are subscribed to nothing else. A value that is delivered to one
of them turns it to the subject that the value is a stream of (`Heap.Hooks.deliver`).
-/

namespace DataBinding

variable {F C S : Type}

/-- What is shown the values of a property, and takes the streams that they are. -/
def Observer.hook (i : Nat) (next : Observer F C) : Observer F C := .map .emptyIfNull (.outer i .stream next)

/-! ## Values that are streams of subjects -/

namespace Heap

variable (h : Heap F C)

/-- The subject that a value is a stream of. -/
def subjectOf? : Value → Option SubjectId
  | .stream id =>
    match h.stream id with
    | .subject j => some j
    | _ => none
  | _ => none

/-- A stream of a subject that is held, or no stream at all. -/
def Flat (held : List Node) (v : Value) : Prop :=
  ∀ id, v = .stream id → ∃ j, h.stream id = .subject j ∧ j < h.subjects.size ∧ .subject j ∈ held

/-- What receives the values of the stream that a switch has taken last, for this code. -/
def hooked (i : Nat) (code : C) : Observer F C := .inner i (h.switch i).generation (.client code)

/-- Of these switches each is on, and subscribed to its target, if it has one, and to nothing else; the
other observers of subjects are of this kind. -/
structure Hooks (Other : Observer F C → Prop) (code : C) (switches : List Nat)
    (target : Nat → Option SubjectId) : Prop where
  on : ∀ i ∈ switches, (h.switch i).stopped = false
  idle : ∀ i ∈ switches, target i = none → (h.switch i).current.getD .nothing = .nothing
  tied : ∀ i ∈ switches, ∀ j, target i = some j → ∃ id, (h.switch i).current = some (.observer j id) ∧
    (id, h.hooked i code) ∈ h.roster (.subject j)
  listed : ∀ j, ∀ e ∈ h.roster (.subject j), Other e.2 ∨
    ∃ i ∈ switches, e.2 = h.hooked i code ∧ (h.switch i).current = some (.observer j e.1)
  nodup : ∀ j, ((h.roster (.subject j)).map Prod.fst).Nodup
  below : ∀ j, ∀ e ∈ h.roster (.subject j), e.1 < h.nextId (.subject j)

/-- As many subjects, and the streams there were. -/
structure Upholds (h' : Heap F C) : Prop where
  subjects : h'.subjects.size = h.subjects.size
  streams : ∃ xs, h'.streams = h.streams ++ xs

/-- And the same objects. -/
structure Rehooks (h' : Heap F C) : Prop extends h.Upholds h' where
  objects : h'.objects = h.objects

variable {h} {h' h'' : Heap F C} {held held' : List Node} {v : Value} {j : SubjectId}

theorem Upholds.of_eq (hj : h'.subjects.size = h.subjects.size) (hx : h'.streams = h.streams) : h.Upholds h' :=
  ⟨hj, #[], by simp [hx]⟩

theorem Upholds.trans (a : h.Upholds h') (b : h'.Upholds h'') : h.Upholds h'' := by
  obtain ⟨xs, hxs⟩ := a.streams
  obtain ⟨ys, hys⟩ := b.streams
  exact ⟨b.subjects.trans a.subjects, xs ++ ys, by rw [hys, hxs, Array.append_assoc]⟩

theorem Rehooks.refl (h : Heap F C) : h.Rehooks h := ⟨.of_eq rfl rfl, rfl⟩

theorem Rehooks.trans (a : h.Rehooks h') (b : h'.Rehooks h'') : h.Rehooks h'' :=
  ⟨a.toUpholds.trans b.toUpholds, b.objects.trans a.objects⟩

theorem Undisturbed.rehooks (a : h.Undisturbed h') : h.Rehooks h' :=
  ⟨⟨congrArg Array.size a.subjects, a.streams⟩, a.objects⟩

/-- The stream of a subject is one that there is, and stays. -/
theorem Upholds.stream_eq (a : h.Upholds h') {id : StreamId} (hid : h.stream id = .subject j) :
    h'.stream id = .subject j := by
  have hlt : id < h.streams.size := by
    refine Nat.lt_of_not_le fun hle => ?_
    simp [Heap.stream, Array.getElem?_eq_none hle] at hid
  obtain ⟨xs, hxs⟩ := a.streams
  simp only [Heap.stream, hxs, Array.getElem?_append_left hlt]
  exact hid

theorem Flat.upholds (a : h.Upholds h') (hv : h.Flat held v) (hs : held ⊆ held') : h'.Flat held' v := by
  intro id he
  obtain ⟨j, hj, hlt, hm⟩ := hv id he
  exact ⟨j, a.stream_eq hj, a.subjects ▸ hlt, hs hm⟩

/-- What is flat goes on to be a stream of the same subject. -/
theorem Flat.subjectOf?_eq (hv : h.Flat held v) (a : h.Upholds h') : h'.subjectOf? v = h.subjectOf? v := by
  cases v with
  | stream id =>
    obtain ⟨j, hj, -⟩ := hv id rfl
    simp only [subjectOf?, hj, a.stream_eq hj]
  | _ => rfl

end Heap

/-! ## Hooks before and after an operation -/

namespace Heap

variable {h h' : Heap F C} {Other : Observer F C → Prop} {code : C} {switches : List Nat}
  {target : Nat → Option SubjectId} {i i' : Nat} {j : SubjectId}

/-- What a hook is subscribed to is its target. -/
theorem Hooks.of_current (hh : h.Hooks Other code switches target) (hi : i ∈ switches) {id : Nat}
    (hc : (h.switch i).current = some (.observer j id)) :
    target i = some j ∧ (id, h.hooked i code) ∈ h.roster (.subject j) := by
  cases ht : target i with
  | none =>
    have := hh.idle i hi ht
    simp [hc] at this
  | some j' =>
    obtain ⟨id', hc', hm⟩ := hh.tied i hi j' ht
    obtain ⟨rfl, rfl⟩ : j = j' ∧ id = id' := by simpa [hc] using hc'
    exact ⟨rfl, hm⟩

/-- A hook that is subscribed to something is not one without a target. -/
theorem Hooks.ne_of_current (hh : h.Hooks Other code switches target) (ht : target i = none)
    (hi' : i' ∈ switches) {id : Nat} (hc : (h.switch i').current = some (.observer j id)) : i' ≠ i := by
  rintro rfl
  rw [(hh.of_current hi' hc).1] at ht
  cases ht

/-- Two hooks are not subscribed under one number. -/
theorem Hooks.eq_of_current (hh : h.Hooks Other code switches target) (hi : i ∈ switches)
    (hi' : i' ∈ switches) {id : Nat} (hc : (h.switch i).current = some (.observer j id))
    (hc' : (h.switch i').current = some (.observer j id)) : i = i' := by
  have he : (id, h.hooked i code) = (id, h.hooked i' code) :=
    List.inj_on_of_nodup_map (hh.nodup j) (hh.of_current hi hc).2 (hh.of_current hi' hc').2 rfl
  exact (Observer.inner.inj (Prod.mk.inj he).2).1

section Unhooked

/-- An observer of a subject is taken off. -/
def struck (h : Heap F C) : Teardown C → Heap F C
  | .observer j id => h.removeObserver j id
  | _ => h

/-- A switch has begun a new generation, and its observer is taken off the subject. -/
def unhooked (h : Heap F C) (i : Nat) : Heap F C :=
  (h.setSwitch i { h.switch i with generation := (h.switch i).generation + 1, current := none }).struck
    ((h.switch i).current.getD .nothing)

theorem rehooks_unhooked : h.Rehooks (h.unhooked i) := by
  unfold unhooked struck
  split
  · exact ⟨.of_eq (by simp [removeObserver, setSwitch]) rfl, rfl⟩
  · exact ⟨.of_eq rfl rfl, rfl⟩

theorem switches_struck (t : Teardown C) : (h.struck t).switches = h.switches := by
  unfold struck
  split <;> rfl

theorem switch_unhooked (hi : i < h.switches.size) : (h.unhooked i).switch i' =
    if i' = i then { h.switch i with generation := (h.switch i).generation + 1, current := none }
    else h.switch i' := by
  have hsw := switch_setSwitch h i i' { h.switch i with
    generation := (h.switch i).generation + 1, current := none }
  simp only [hi, and_true] at hsw
  rw [← hsw]
  simp only [switch, unhooked, switches_struck]

theorem roster_setSwitch (x : Switch C) (n : Node) : (h.setSwitch i x).roster n = h.roster n := by
  cases n <;> rfl

/-- What the switch was subscribed to is gone from the roster, and nothing else. -/
theorem mem_roster_unhooked {e : Nat × Observer F C} : e ∈ (h.unhooked i).roster (.subject j) ↔
    e ∈ h.roster (.subject j) ∧ (h.switch i).current ≠ some (.observer j e.1) := by
  unfold unhooked struck
  split
  · next j' id he =>
    have hc : (h.switch i).current = some (.observer j' id) := by
      cases hc : (h.switch i).current with
      | none => simp [hc] at he
      | some t => simpa [hc] using he
    rw [(strikes_removeObserver _ j' id).roster, roster_setSwitch, roster_setSwitch, hc]
    by_cases hj : j = j'
    · subst hj
      simp [List.mem_filter, Eq.comm (a := id)]
    · simp [hj, Ne.symm hj]
  · next hne =>
    rw [roster_setSwitch]
    refine ⟨fun hm => ⟨hm, fun hc => hne j e.1 (by simp [hc])⟩, fun hm => hm.1⟩

theorem roster_unhooked_sublist :
    ((h.unhooked i).roster (.subject j)).Sublist (h.roster (.subject j)) := by
  unfold unhooked struck
  split
  · next j' id _ =>
    rw [(strikes_removeObserver _ j' id).roster, roster_setSwitch, roster_setSwitch]
    split
    · next he => exact he ▸ List.filter_sublist
    · exact List.Sublist.refl _
  · exact List.Sublist.refl _

theorem nextId_unhooked : (h.unhooked i).nextId (.subject j) = h.nextId (.subject j) := by
  unfold unhooked struck
  split
  · exact (strikes_removeObserver _ _ _).nextId _
  · rfl

/-- A hook lets go of its subject. -/
theorem Hooks.unhooked (hh : h.Hooks Other code switches target) (hi : i ∈ switches) :
    (h.unhooked i).Hooks Other code switches (Function.update target i none) := by
  have hlt : i < h.switches.size := lt_size_of_not_stopped h (hh.on i hi)
  have hswitch : ∀ i', i' ≠ i → (h.unhooked i).switch i' = h.switch i' := fun i' hne => by
    rw [switch_unhooked hlt, if_neg hne]
  have hsame : (h.unhooked i).switch i = { h.switch i with
      generation := (h.switch i).generation + 1, current := none } := by
    rw [switch_unhooked hlt, if_pos rfl]
  refine ⟨fun i' hi' => ?_, fun i' hi' ht => ?_, fun i' hi' j ht => ?_, fun j e he => ?_, fun j => ?_,
    fun j e he => ?_⟩
  -- of the hooks only this one is not subscribed any more
  · by_cases hne : i' = i
    · subst hne
      rw [hsame]
      exact hh.on i' hi
    · rw [hswitch i' hne]
      exact hh.on i' hi'
  · by_cases hne : i' = i
    · subst hne
      rw [hsame]
      rfl
    · rw [hswitch i' hne]
      rw [Function.update_of_ne hne] at ht
      exact hh.idle i' hi' ht
  · have hne : i' ≠ i := by
      rintro rfl
      simp at ht
    rw [Function.update_of_ne hne] at ht
    obtain ⟨id, hc, hm⟩ := hh.tied i' hi' j ht
    refine ⟨id, by rw [hswitch i' hne]; exact hc, mem_roster_unhooked.2 ⟨?_, fun hc' => ?_⟩⟩
    · rw [hooked, hswitch i' hne]
      exact hm
    · exact hne (hh.eq_of_current hi' hi hc hc')
  · obtain ⟨hm, hc⟩ := mem_roster_unhooked.1 he
    rcases hh.listed j e hm with ho | ⟨i', hi', heq, hc'⟩
    · exact .inl ho
    · have hne : i' ≠ i := by
        rintro rfl
        exact hc hc'
      refine .inr ⟨i', hi', ?_, by rw [hswitch i' hne]; exact hc'⟩
      rw [hooked, hswitch i' hne]
      exact heq
  · exact (hh.nodup j).sublist (roster_unhooked_sublist.map _)
  · rw [nextId_unhooked]
    exact hh.below j e (mem_roster_unhooked.1 he).1

end Unhooked

section Attached

/-- A switch keeps what it is subscribed to now. -/
def attached (h : Heap F C) (i : Nat) (t : Teardown C) : Heap F C :=
  h.setSwitch i { h.switch i with current := some t }

theorem switch_attached (hi : i < h.switches.size) (t : Teardown C) : (h.attached i t).switch i' =
    if i' = i then { h.switch i with current := some t } else h.switch i' := by
  rw [attached, switch_setSwitch]
  simp only [hi, and_true]

theorem hooked_attached (t : Teardown C) : (h.attached i t).hooked i' code = h.hooked i' code := by
  unfold hooked attached
  rw [switch_setSwitch]
  split
  · next he => rw [he.1]
  · rfl

theorem roster_attached (t : Teardown C) (n : Node) : (h.attached i t).roster n = h.roster n :=
  roster_setSwitch _ n

theorem rehooks_attached {t : Teardown C} : h.Rehooks (h.attached i t) :=
  ⟨.of_eq rfl rfl, rfl⟩

theorem rehooks_addObserver {x : Observer F C} : h.Rehooks (h.addObserver j x).2 :=
  ⟨.of_eq (by simp [addObserver]) rfl, rfl⟩

/-- A hook stays without a subject. -/
theorem Hooks.attached_nothing (hh : h.Hooks Other code switches target) (hi : i ∈ switches)
    (ht : target i = none) : (h.attached i .nothing).Hooks Other code switches target := by
  have hlt : i < h.switches.size := lt_size_of_not_stopped h (hh.on i hi)
  refine ⟨fun i' hi' => ?_, fun i' hi' ht' => ?_, fun i' hi' j ht' => ?_, fun j e he => ?_, fun j => ?_,
    fun j e he => ?_⟩
  · rw [switch_attached hlt]
    split
    · exact hh.on i hi
    · exact hh.on i' hi'
  · rw [switch_attached hlt]
    split
    · rfl
    · exact hh.idle i' hi' ht'
  · obtain ⟨id, hc, hm⟩ := hh.tied i' hi' j ht'
    refine ⟨id, ?_, ?_⟩
    · rw [switch_attached hlt, if_neg (hh.ne_of_current ht hi' hc)]
      exact hc
    · rw [hooked_attached, roster_attached]
      exact hm
  · rw [roster_attached] at he
    refine (hh.listed j e he).imp_right fun ⟨i', hi', heq, hc⟩ => ⟨i', hi', ?_, ?_⟩
    · rw [hooked_attached]
      exact heq
    · rw [switch_attached hlt, if_neg (hh.ne_of_current ht hi' hc)]
      exact hc
  · rw [roster_attached]
    exact hh.nodup j
  · rw [roster_attached] at he
    exact hh.below j e he

/-- A hook without a subject is subscribed to this one. -/
theorem Hooks.attached_observer (hh : h.Hooks Other code switches target) (hi : i ∈ switches)
    (ht : target i = none) (hj : j < h.subjects.size) :
    ((h.addObserver j (h.hooked i code)).2.attached i (.observer j (h.nextId (.subject j)))).Hooks Other code
      switches (Function.update target i (some j)) := by
  obtain ⟨h₁, hh₁⟩ : ∃ h₁, h₁ = (h.addObserver j (h.hooked i code)).2 := ⟨_, rfl⟩
  have a : h.Enrolls (.subject j) (h.hooked i code) h₁ := hh₁ ▸ enrolls_addObserver h hj _
  have hswitch : ∀ i', h₁.switch i' = h.switch i' := fun i' => by simp only [switch, a.switches]
  have hhooked : ∀ i', h₁.hooked i' code = h.hooked i' code := fun i' => by simp only [hooked, hswitch]
  have hlt : i < h₁.switches.size := a.switches ▸ lt_size_of_not_stopped h (hh.on i hi)
  rw [← hh₁]
  refine ⟨fun i' hi' => ?_, fun i' hi' ht' => ?_, fun i' hi' j' ht' => ?_, fun j' e he => ?_, fun j' => ?_,
    fun j' e he => ?_⟩
  -- of the hooks only this one is subscribed to something else now
  · rw [switch_attached hlt, hswitch, hswitch]
    split
    · exact hh.on i hi
    · exact hh.on i' hi'
  · have hne : i' ≠ i := by
      rintro rfl
      simp at ht'
    rw [Function.update_of_ne hne] at ht'
    rw [switch_attached hlt, if_neg hne, hswitch]
    exact hh.idle i' hi' ht'
  · rw [hooked_attached, roster_attached, hhooked]
    by_cases hne : i' = i
    · subst hne
      obtain rfl : j = j' := by simpa using ht'
      exact ⟨_, by rw [switch_attached hlt, if_pos rfl], a.mem_new⟩
    · rw [Function.update_of_ne hne] at ht'
      obtain ⟨id, hc, hm⟩ := hh.tied i' hi' j' ht'
      exact ⟨id, by rw [switch_attached hlt, if_neg hne, hswitch]; exact hc, a.roster_subset _ hm⟩
  · rw [roster_attached] at he
    obtain hm | ⟨hj', rfl⟩ := a.mem_roster he
    · refine (hh.listed j' e hm).imp_right ?_
      rintro ⟨i', hi', heq, hc⟩
      refine ⟨i', hi', ?_, ?_⟩
      · rw [hooked_attached, hhooked]
        exact heq
      · rw [switch_attached hlt, if_neg (hh.ne_of_current ht hi' hc), hswitch]
        exact hc
    · obtain rfl : j' = j := Node.subject.inj hj'
      refine .inr ⟨i, hi, ?_, by rw [switch_attached hlt, if_pos rfl]⟩
      rw [hooked_attached, hhooked]
  · rw [roster_attached]
    exact a.nodup (hh.below j') (hh.nodup j')
  · rw [roster_attached] at he
    change e.1 < h₁.nextId (.subject j')
    exact a.below (hh.below j') he

end Attached

/-- Only the switches and the rosters matter. -/
theorem Hooks.congr (hh : h.Hooks Other code switches target) (hs : h'.switches = h.switches)
    (hj : h'.subjects = h.subjects) : h'.Hooks Other code switches target := by
  have hswitch : ∀ i, h'.switch i = h.switch i := fun i => by simp only [switch, hs]
  have hroster : ∀ j, h'.roster (.subject j) = h.roster (.subject j) := fun j => by simp only [roster, hj]
  have hnext : ∀ j, h'.nextId (.subject j) = h.nextId (.subject j) := fun j => by simp only [nextId, hj]
  refine ⟨fun i hi => ?_, fun i hi => ?_, fun i hi j ht => ?_, fun j e he => ?_, fun j => ?_, fun j e he => ?_⟩
  · rw [hswitch]
    exact hh.on i hi
  · rw [hswitch]
    exact hh.idle i hi
  · simp only [hooked, hswitch, hroster]
    exact hh.tied i hi j ht
  · simp only [hooked, hswitch]
    exact hh.listed j e (hroster j ▸ he)
  · rw [hroster]
    exact hh.nodup j
  · rw [hnext]
    exact hh.below j e (hroster j ▸ he)

/-- A new switch has no target yet. -/
theorem Hooks.newSwitch (hh : h.Hooks Other code switches target) :
    h.newSwitch.2.Hooks Other code (switches ++ [h.switches.size])
      (Function.update target h.switches.size none) := by
  have hne : ∀ i ∈ switches, i ≠ h.switches.size := fun i hi =>
    Nat.ne_of_lt (lt_size_of_not_stopped h (hh.on i hi))
  have hold : ∀ i ∈ switches, h.newSwitch.2.switch i = h.switch i := fun i hi => by
    rw [switch_newSwitch, if_neg (hne i hi)]
  have hnew : h.newSwitch.2.switch h.switches.size = ⟨0, none, false⟩ := by
    rw [switch_newSwitch, if_pos rfl]
  have hhooked : ∀ i ∈ switches, h.newSwitch.2.hooked i code = h.hooked i code := fun i hi => by
    simp only [hooked, hold i hi]
  refine ⟨List.forall_mem_append.2 ⟨fun i hi => ?_, List.forall_mem_singleton.2 ?_⟩,
    List.forall_mem_append.2 ⟨fun i hi => ?_, List.forall_mem_singleton.2 fun _ => ?_⟩,
    List.forall_mem_append.2 ⟨fun i hi j ht => ?_, List.forall_mem_singleton.2 fun j ht => ?_⟩,
    fun j e he => ?_, hh.nodup, hh.below⟩
  · rw [hold i hi]
    exact hh.on i hi
  · rw [hnew]
  · rw [hold i hi, Function.update_of_ne (hne i hi)]
    exact hh.idle i hi
  · rw [hnew]
    rfl
  · rw [hold i hi, hhooked i hi]
    rw [Function.update_of_ne (hne i hi)] at ht
    exact hh.tied i hi j ht
  · simp at ht
  · refine (hh.listed j e he).imp_right fun ⟨i, hi, heq, hc⟩ => ⟨i, List.mem_append_left _ hi, ?_, ?_⟩
    · rw [hhooked i hi]
      exact heq
    · rw [hold i hi]
      exact hc

end Heap

/-! ## Counting observers -/

/-- The switch that an observer receives the inner streams of. -/
def Observer.switch? : Observer F C → Option Nat
  | .inner i _ _ => some i
  | _ => none

namespace Heap

variable {h : Heap F C} {Other : Observer F C → Prop} {code : C} {switches : List Nat}
  {target : Nat → Option SubjectId}

/-- A subject has one observer of the code for each hook that it is the target of. -/
theorem Hooks.countP_observers [DecidableEq C] (hh : h.Hooks Other code switches target)
    (hnodup : switches.Nodup) (hother : ∀ x, Other x → x.code? ≠ some code) (j : SubjectId) :
    (h.observers j).countP (fun x => x.code? = some code) = switches.countP fun i => target i = some j := by
  have hhooked : ∀ e ∈ (h.roster (.subject j)).filter (fun e => e.2.code? = some code),
      e ∈ h.roster (.subject j) ∧ ∃ i ∈ switches, e.2 = h.hooked i code ∧
        (h.switch i).current = some (.observer j e.1) := by
    intro e he
    obtain ⟨hm, hcode⟩ := List.mem_filter.1 he
    refine ⟨hm, (hh.listed j e hm).resolve_left fun ho => hother _ ho (by simpa using hcode)⟩
  -- each of them is told by its switch
  have hperm : (((h.roster (.subject j)).filter fun e => e.2.code? = some code).map fun e => e.2.switch?).Perm
      ((switches.filter fun i => target i = some j).map some) := by
    refine (List.perm_ext_iff_of_nodup ?_ ?_).2 fun o => ⟨fun ho => ?_, fun ho => ?_⟩
    · refine List.Nodup.map_on (fun e he e' he' heq => ?_) ((hh.nodup j).of_map _ |>.filter _)
      obtain ⟨hm, i, hi, hx, hc⟩ := hhooked e he
      obtain ⟨hm', i', hi', hx', hc'⟩ := hhooked e' he'
      obtain rfl : i = i' := by simpa [hx, hx', hooked, Observer.switch?] using heq
      have hid : e.1 = e'.1 := by simpa [hc] using hc'
      exact List.inj_on_of_nodup_map (hh.nodup j) hm hm' hid
    · exact (hnodup.filter _).map fun _ _ => Option.some.inj
    · obtain ⟨e, he, rfl⟩ := List.mem_map.1 ho
      obtain ⟨hm, i, hi, hx, hc⟩ := hhooked e he
      refine List.mem_map.2 ⟨i, List.mem_filter.2 ⟨hi, ?_⟩, by rw [hx]; rfl⟩
      exact decide_eq_true (hh.of_current hi hc).1
    · obtain ⟨i, hi, rfl⟩ := List.mem_map.1 ho
      obtain ⟨hi, ht⟩ := List.mem_filter.1 hi
      obtain ⟨id, -, hm⟩ := hh.tied i hi j (of_decide_eq_true ht)
      exact List.mem_map.2 ⟨_, List.mem_filter.2 ⟨hm, by simp [hooked, Observer.code?]⟩, rfl⟩
  have hlen := hperm.length_eq
  rw [List.length_map, List.length_map] at hlen
  rw [observers_eq_map_roster, List.countP_map, List.countP_eq_length_filter, List.countP_eq_length_filter]
  exact hlen

end Heap

/-! ## Delivering a value of the property -/

section Deliver
variable {K : Client F C S} {h : Heap F C} {k : S} {Other : Observer F C → Prop} {code : C}
  {switches : List Nat} {target : Nat → Option SubjectId} {i : Nat}

open State

/-- The switch lets go of its subject, and is then subscribed to the next stream. -/
theorem Heap.Hooks.turns (hh : h.Hooks Other code switches target) (hi : i ∈ switches) (v : Value)
    {base : List (Frame F C)} {Q : Signal C → World F C S → Prop}
    (hnext : Completes K base ⟨.run (.subscribe (Selection.stream.inner h v) ((h.unhooked i).hooked i code)),
      .entering i ((h.unhooked i).switch i).generation (Selection.stream.inner h v) :: base,
      h.unhooked i, k⟩ Q) :
    Completes K base ⟨.run (.deliver (.outer i .stream (.client code)) v), base, h, k⟩ Q := by
  obtain ⟨t, ht⟩ : ∃ t, t = (h.switch i).current.getD .nothing := ⟨_, rfl⟩
  obtain ⟨x, hx⟩ : ∃ x, x = Selection.stream.inner h v := ⟨_, rfl⟩
  have hswitch : (h.unhooked i).switch i = { h.switch i with
      generation := (h.switch i).generation + 1, current := none } := by
    rw [switch_unhooked (lt_size_of_not_stopped h (hh.on i hi)), if_pos rfl]
  have hundo : State.step K ⟨.run (.undo t), .switching i ((h.switch i).generation + 1) x
      (.client code) :: base, h.setSwitch i { h.switch i with
        generation := (h.switch i).generation + 1, current := none }, k⟩ =
      ⟨.pass .done, .switching i ((h.switch i).generation + 1) x (.client code) :: base,
        h.unhooked i, k⟩ := by
    unfold Heap.unhooked
    rw [← ht]
    cases hti : target i with
    | none =>
      obtain rfl : t = .nothing := ht.trans (hh.idle i hi hti)
      rfl
    | some j =>
      obtain ⟨id', hc, -⟩ := hh.tied i hi j hti
      obtain rfl : t = .observer j id' := by rw [ht, hc]; rfl
      rfl
  rw [← hx] at hnext
  refine .step id ?_
  simp only [State.step, stepCommand, stepDeliver, stepSwitch, under_mk, ← ht, ← hx]
  refine .step id (hundo ▸ .back ?_)
  simp only [stepFrame, hswitch, hh.on i hi, Bool.false_eq_true, if_false, under_mk]
  simp only [Heap.hooked, hswitch] at hnext
  exact hnext

/-- What the switch is subscribed to then is kept. -/
theorem completes_entering {g : Heap F C} (x : Stream F) (signal : Signal C) {Q : Signal C → World F C S → Prop}
    (hq : Q .done ⟨g.attached i signal.teardown, k⟩) (base : List (Frame F C)) :
    Completes K base ⟨.pass signal, .entering i (g.switch i).generation x :: base, g, k⟩ Q := by
  refine .back ?_
  simp only [stepFrame, if_true]
  exact .pass hq

/-- A switch that is given a stream of a subject, or an empty stream, turns to it. -/
theorem Heap.Hooks.deliver_outer (hh : h.Hooks Other code switches target) (hi : i ∈ switches) {n : StreamId}
    (hn : h.stream n = .empty ∨ h.Flat (K.refs k) (.stream n)) (base : List (Frame F C)) :
    Completes K base ⟨.run (.deliver (.outer i .stream (.client code)) (.stream n)), base, h, k⟩
      fun _ w' => w'.client = k ∧ h.Rehooks w'.heap ∧
        w'.heap.Hooks Other code switches (Function.update target i (h.subjectOf? (.stream n))) := by
  have hu := hh.unhooked hi
  have hnone : Function.update target i none i = none := Function.update_self ..
  refine hh.turns hi (.stream n) (.step id ?_)
  simp only [Selection.inner]
  rcases hn with hempty | hflat
  · simp only [hempty, State.step, stepCommand, stepSubscribe]
    refine completes_entering _ _ ⟨rfl, rehooks_unhooked.trans rehooks_attached, ?_⟩ base
    have ht : h.subjectOf? (.stream n) = none := by simp only [subjectOf?, hempty]
    rw [ht]
    exact hu.attached_nothing hi hnone
  · obtain ⟨j, hj, hlt, hheld⟩ := hflat n rfl
    have ha := alive_of_kept K (c := .run (.subscribe (.subject j) ((h.unhooked i).hooked i code)))
      (h := h.unhooked i) (List.nil_subset (.entering i ((h.unhooked i).switch i).generation (.subject j) :: base))
      (Or.inl hheld : Kept K [] k (.subject j))
    have ht : h.subjectOf? (.stream n) = some j := by simp only [subjectOf?, hj]
    simp only [hj, State.step, stepCommand, stepSubscribe, stepListen]
    rw [if_pos ha]
    refine completes_entering (g := ((h.unhooked i).addObserver j _).2) _ _ ⟨rfl, ?_, ?_⟩ base
    · exact rehooks_unhooked.trans (rehooks_addObserver.trans rehooks_attached)
    · have hw := hu.attached_observer hi hnone (rehooks_unhooked.subjects ▸ hlt)
      rw [Function.update_idem] at hw
      rw [ht]
      exact hw

/-- A value of the property turns the switch to the subject that it is a stream of, if any. -/
theorem Heap.Hooks.deliver (hh : h.Hooks Other code switches target) (hi : i ∈ switches) {v : Value}
    (hv : h.Flat (K.refs k) v) (base : List (Frame F C)) :
    Completes K base ⟨.run (.deliver (.hook i (.client code)) v), base, h, k⟩ fun _ w' =>
      w'.client = k ∧ h.Rehooks w'.heap ∧
        w'.heap.Hooks Other code switches (Function.update target i (h.subjectOf? v)) := by
  refine .step id ?_
  simp only [Observer.hook, State.step, stepCommand, stepDeliver, stepMap]
  split
  · next n => exact hh.deliver_outer hi (.inr hv) base
  · next hv' =>
    have hnone : h.subjectOf? v = none := by
      cases v with
      | stream n => exact absurd rfl (hv' n)
      | _ => rfl
    have hempty : (h.newStream .empty).2.stream h.streams.size = .empty := by
      simp [Heap.stream, Heap.newStream]
    have hempty' : (h.newStream .empty).2.subjectOf? (.stream h.streams.size) = none := by
      simp only [subjectOf?, hempty]
    have hnew : (h.newStream .empty).2.Hooks Other code switches target := hh.congr rfl rfl
    refine (hnew.deliver_outer hi (.inl hempty) base).mono ?_
    rintro _ w' ⟨hk, hr, hw'⟩
    refine ⟨hk, (Undisturbed.newStream h .empty).rehooks.trans hr, ?_⟩
    rw [hnone, ← hempty']
    exact hw'

end Deliver

end DataBinding
