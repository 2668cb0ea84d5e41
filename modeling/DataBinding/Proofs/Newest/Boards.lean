import DataBinding.Proofs.Disposal.Sound
import DataBinding.Proofs.Heap.Rosters
/-!
# What a switch has registered

A switch listens to a subject whose values are streams. Of these at most one is registered with: `Board` says which
registration of an inner stream there is, that it is of the latest generation, and that the switch keeps what undoes
it. While the latest stream is still being subscribed to there is none.

A board stays as it is when client code edits the heap; a new generation takes the registration away, the end of a
subscription that is not late brings one, and a late one leaves no trace.
-/

namespace DataBinding

variable {F C : Type}

/-- The stream emits single values, if any, while it is being subscribed to, and then the values of the subject. -/
inductive Stream.Flows (j : SubjectId) : Stream F → Prop
  | subject : Flows j (.subject j)
  | merge (vs : List Value) : Flows j (.merge (vs.map .just ++ [.subject j]))

/-- What undoes one registration with a subject. -/
inductive Teardown.Unhooks (j : SubjectId) (id : Nat) : Teardown C → Prop
  | observer : Unhooks j id (.observer j id)
  | all (n : Nat) : Unhooks j id (.all (List.replicate n .nothing ++ [.observer j id]))

/-- The subject that the streams end with, if all others emit a single value. -/
def Stream.endsIn? : List (Stream F) → Option SubjectId
  | [.subject j] => some j
  | .just _ :: xs => endsIn? xs
  | _ => none

/-- The subject that the stream flows from. -/
def Stream.flows? : Stream F → Option SubjectId
  | .subject j => some j
  | .merge xs => endsIn? xs
  | _ => none

theorem Stream.endsIn?_eq_some {xs : List (Stream F)} {j : SubjectId} :
    endsIn? xs = some j ↔ ∃ vs : List Value, xs = vs.map .just ++ [.subject j] := by
  constructor
  · intro h
    fun_induction endsIn? xs with
    | case1 j' =>
      cases h
      exact ⟨[], rfl⟩
    | case2 v xs ih =>
      obtain ⟨vs, rfl⟩ := ih h
      exact ⟨v :: vs, rfl⟩
    | case3 => cases h
  · rintro ⟨vs, rfl⟩
    induction vs with
    | nil => rfl
    | cons v vs ih => exact ih

theorem Stream.flows?_eq_some {x : Stream F} {j : SubjectId} : x.flows? = some j ↔ x.Flows j := by
  constructor
  · intro h
    cases x with
    | subject j' =>
      cases h
      exact .subject
    | merge xs =>
      obtain ⟨vs, rfl⟩ := endsIn?_eq_some.1 h
      exact .merge vs
    | _ => cases h
  · rintro (_ | vs)
    · rfl
    · exact endsIn?_eq_some.2 ⟨vs, rfl⟩

theorem Stream.Flows.unique {x : Stream F} {j j' : SubjectId} (h : x.Flows j) (h' : x.Flows j') : j' = j :=
  Option.some.inj ((flows?_eq_some.2 h').symm.trans (flows?_eq_some.2 h))

/-- Switch `i` has begun its generation `g` and runs; it listens to subject `o` and passes values on to `z`, and
registration `r` is the one that its latest inner stream has with a subject. -/
structure Board (i : Nat) (o : SubjectId) (z : Observer F C) (h : Heap F C) (g : Nat) (r : Option (SubjectId × Nat)) :
    Prop where
  generation : (h.switch i).generation = g
  running : (h.switch i).stopped = false
  idle : r = none → (h.switch i).current = none
  current : ∀ j id, r = some (j, id) → ∃ t, (h.switch i).current = some t ∧ t.Unhooks j id
  outer : h.observers o = [.outer i .stream z]
  inner : ∀ j, j ≠ o → h.roster (.subject j) = (r.toList.filter (·.1 = j)).map fun p => (p.2, .inner i g z)
  fresh : ∀ j, ∀ e ∈ h.roster (.subject j), e.1 < h.nextId (.subject j)

/-- What client code does of its own accord leaves the subjects, the switches and the streams as they are. -/
theorem Heap.Edits.alike {code : C} {h h' : Heap F C} (he : Heap.Edits code h h') :
    (∀ j, h'.roster (.subject j) = h.roster (.subject j)) ∧ (∀ j, h'.nextId (.subject j) = h.nextId (.subject j)) ∧
      h'.switches = h.switches ∧ (∀ e, h.stream e ≠ .empty → h'.stream e = h.stream e) ∧
      h.subjects.size ≤ h'.subjects.size := by
  induction he with
  | refl => exact ⟨fun _ => rfl, fun _ => rfl, rfl, fun _ _ => rfl, Nat.le_refl _⟩
  | @tail h₁ h₂ _ he ih =>
    obtain ⟨hr, hn, hs, hx, hl⟩ := ih
    have hgo : ∀ h₂ : Heap F C, (∀ j, h₂.roster (.subject j) = h₁.roster (.subject j)) →
        (∀ j, h₂.nextId (.subject j) = h₁.nextId (.subject j)) → h₂.switches = h₁.switches →
        (∀ e, h₁.stream e ≠ .empty → h₂.stream e = h₁.stream e) → h₁.subjects.size ≤ h₂.subjects.size →
        (∀ j, h₂.roster (.subject j) = h.roster (.subject j)) ∧ (∀ j, h₂.nextId (.subject j) = h.nextId (.subject j)) ∧
          h₂.switches = h.switches ∧ (∀ e, h.stream e ≠ .empty → h₂.stream e = h.stream e) ∧
          h.subjects.size ≤ h₂.subjects.size :=
      fun h₂ hr' hn' hs' hx' hl' => ⟨fun j => (hr' j).trans (hr j), fun j => (hn' j).trans (hn j), hs'.trans hs,
        fun e hne => (hx' e (hx e hne ▸ hne)).trans (hx e hne), Nat.le_trans hl hl'⟩
    cases he with
    | put o p v => exact hgo _ (fun _ => rfl) (fun _ => rfl) rfl (fun _ _ => rfl) (Nat.le_refl _)
    | subject =>
      refine hgo _ (fun j => h₁.alike_newSubject.roster (.subject j)) (fun j => h₁.alike_newSubject.nextId (.subject j))
        rfl (fun _ _ => rfl) ?_
      simp [Heap.newSubject]
    | stream x =>
      refine hgo _ (fun _ => rfl) (fun _ => rfl) rfl (fun e hne => ?_) (Nat.le_refl _)
      have hlt : e < h₁.streams.size := by
        by_contra hge
        exact hne (by simp [Heap.stream, Array.getElem?_eq_none (Nat.le_of_not_lt hge)])
      simp [Heap.stream, Heap.newStream, Array.getElem?_push, Nat.ne_of_lt hlt]
    | _ => exact hgo _ (fun _ => rfl) (fun _ => rfl) rfl (fun _ _ => rfl) (Nat.le_refl _)

namespace Board

variable {i : Nat} {o j id : SubjectId} {z : Observer F C} {h h' : Heap F C} {g : Nat} {r : Option (SubjectId × Nat)}

/-- Only what boards tell of matters. -/
theorem congr (hb : Board i o z h g r) (hr : ∀ j, h'.roster (.subject j) = h.roster (.subject j))
    (hn : ∀ j, h.nextId (.subject j) ≤ h'.nextId (.subject j)) (hs : h'.switch i = h.switch i) :
    Board i o z h' g r where
  generation := by rw [hs, hb.generation]
  running := by rw [hs, hb.running]
  idle hn := by rw [hs, hb.idle hn]
  current j id hj := by
    rw [hs]
    exact hb.current j id hj
  outer := by rw [Heap.observers_eq_map_roster, hr, ← Heap.observers_eq_map_roster, hb.outer]
  inner j hj := by rw [hr, hb.inner j hj]
  fresh j e he := Nat.lt_of_lt_of_le (hb.fresh j e (hr j ▸ he)) (hn j)

theorem edits {code : C} (hb : Board i o z h g r) (he : Heap.Edits code h h') : Board i o z h' g r := by
  obtain ⟨hr, hn, hs, -⟩ := he.alike
  exact hb.congr hr (fun j => Nat.le_of_eq (hn j).symm) (by simp only [Heap.switch, hs])

/-- What is registered with the subject of the latest inner stream. -/
theorem observers (hb : Board i o z h g (some (j, id))) (hj : j ≠ o) : h.observers j = [.inner i g z] := by
  rw [Heap.observers_eq_map_roster, hb.inner j hj]
  simp

/-- With the others nothing is. -/
theorem observers_of_not (hb : Board i o z h g r) (hj : j ≠ o) (hr : ∀ id, r ≠ some (j, id)) : h.observers j = [] := by
  rw [Heap.observers_eq_map_roster, hb.inner j hj]
  cases r with
  | none => rfl
  | some p =>
    have hne : p.1 ≠ j := fun he => hr p.2 (by rw [← he])
    simp [hne]

theorem lt_size (hb : Board i o z h g r) : i < h.switches.size := h.lt_size_of_not_stopped hb.running

/-- A new switch listens to the outer subject, and to no other. -/
theorem opened (hr : ∀ j, h.roster (.subject j) = []) (ho : o < h.subjects.size) :
    Board h.switches.size o z (h.newSwitch.2.addObserver o (.outer h.switches.size .stream z)).2 0 none := by
  have henrolls := Heap.enrolls_addObserver (h := h.newSwitch.2) ho (.outer h.switches.size .stream z)
  have hs : (h.newSwitch.2.addObserver o (.outer h.switches.size .stream z)).2.switch h.switches.size =
      ⟨0, none, false⟩ := by
    simp [Heap.switch, Heap.addObserver, Heap.newSwitch]
  have hnone : ∀ j, h.newSwitch.2.roster (.subject j) = [] := hr
  refine ⟨by rw [hs], by rw [hs], fun _ => by rw [hs], by simp, ?_, fun j hj => ?_, fun j e he => ?_⟩
  · rw [Heap.observers_eq_map_roster, henrolls.roster, if_pos rfl, hnone]
    rfl
  · rw [henrolls.roster, if_neg (by simpa using hj), hnone]
    rfl
  · rw [henrolls.nextId]
    simp only [henrolls.roster, hnone] at he
    split at he
    · next hjo =>
      cases hjo
      rw [if_pos rfl, List.mem_singleton.1 he]
      exact Nat.lt_succ_self _
    · cases he

/-- A new generation begins where no inner stream is registered with. -/
theorem next (hb : Board i o z h g none) :
    Board i o z (h.setSwitch i { h.switch i with generation := g + 1, current := none }) (g + 1) none := by
  have hs : (h.setSwitch i { h.switch i with generation := g + 1, current := none }).switch i =
      { h.switch i with generation := g + 1, current := none } := by
    rw [Heap.switch_setSwitch, if_pos ⟨rfl, hb.lt_size⟩]
  exact ⟨by rw [hs], by rw [hs]; exact hb.running, fun _ => by rw [hs], nofun, hb.outer, hb.inner, hb.fresh⟩

/-- A new generation begins, and the registration of the one before is undone. -/
theorem next_of_some (hb : Board i o z h g (some (j, id))) (hj : j ≠ o) :
    Board i o z ((h.setSwitch i { h.switch i with generation := g + 1, current := none }).removeObserver j id)
      (g + 1) none := by
  have hs : ((h.setSwitch i { h.switch i with generation := g + 1, current := none }).removeObserver j id).switch i =
      { h.switch i with generation := g + 1, current := none } := by
    change (h.setSwitch i _).switch i = _
    rw [Heap.switch_setSwitch, if_pos ⟨rfl, hb.lt_size⟩]
  have hstrikes := (h.setSwitch i { h.switch i with generation := g + 1, current := none }).strikes_removeObserver j id
  refine ⟨by rw [hs], by rw [hs]; exact hb.running, fun _ => by rw [hs], nofun, ?_, fun j' hj' => ?_, fun j' e he => ?_⟩
  · have houter := hb.outer
    rw [Heap.observers_eq_map_roster] at houter ⊢
    rw [hstrikes.roster, if_neg (by simpa using Ne.symm hj)]
    exact houter
  · rw [hstrikes.roster]
    have hinner := hb.inner j' hj'
    split
    · next he =>
      cases he
      change ((h.roster (.subject j)).filter _) = _
      rw [hinner]
      simp
    · next he =>
      change h.roster (.subject j') = _
      rw [hinner]
      have hne : j ≠ j' := fun heq => he (by rw [heq])
      simp [hne]
  · rw [hstrikes.nextId]
    exact hb.fresh j' e (hstrikes.mem_roster.1 he).1

/-- The subscription to the latest inner stream is complete. -/
theorem entered (hb : Board i o z h g none) (hj : j ≠ o) (hsize : j < h.subjects.size) {t : Teardown C}
    (ht : t.Unhooks j (h.nextId (.subject j))) :
    Board i o z ((h.addObserver j (.inner i g z)).2.setSwitch i { h.switch i with current := some t }) g
      (some (j, h.nextId (.subject j))) := by
  have hs : ((h.addObserver j (.inner i g z)).2.setSwitch i { h.switch i with current := some t }).switch i =
      { h.switch i with current := some t } := by
    rw [Heap.switch_setSwitch, if_pos ⟨rfl, hb.lt_size⟩]
  have henrolls := h.enrolls_addObserver hsize (.inner i g z)
  refine ⟨by rw [hs]; exact hb.generation, by rw [hs]; exact hb.running, nofun, ?_, ?_, fun j' hj' => ?_,
    fun j' e he => ?_⟩
  · rintro j' id' he
    cases he
    exact ⟨t, by rw [hs], ht⟩
  · have houter := hb.outer
    rw [Heap.observers_eq_map_roster] at houter ⊢
    change ((h.addObserver j (.inner i g z)).2.roster (.subject o)).map Prod.snd = _
    rw [henrolls.roster, if_neg (by simpa using Ne.symm hj)]
    exact houter
  · change (h.addObserver j (.inner i g z)).2.roster (.subject j') = _
    rw [henrolls.roster]
    split
    · next he =>
      cases he
      simp [hb.inner j hj]
    · next he =>
      have hne : j ≠ j' := fun heq => he (by rw [heq])
      simp [hb.inner j' hj', hne]
  · change e.1 < (h.addObserver j (.inner i g z)).2.nextId (.subject j')
    exact henrolls.below (hb.fresh j') he

/-- A subscription to an inner stream that is no longer the latest is undone. -/
theorem late (hb : Board i o z h g r) (hsize : j < h.subjects.size) (y : Observer F C) :
    Board i o z ((h.addObserver j y).2.removeObserver j (h.nextId (.subject j))) g r := by
  have henrolls := h.enrolls_addObserver hsize y
  have hstrikes := (h.addObserver j y).2.strikes_removeObserver j (h.nextId (.subject j))
  refine hb.congr (fun j' => ?_) (fun j' => ?_) ?_
  · rw [hstrikes.roster, henrolls.roster, henrolls.roster]
    split
    · next he =>
      cases he
      have hold : (h.roster (.subject j)).filter (·.1 ≠ h.nextId (.subject j)) = h.roster (.subject j) :=
        List.filter_eq_self.2 fun e he => by simpa using Nat.ne_of_lt (hb.fresh j e he)
      simpa using hold
    · rfl
  · rw [hstrikes.nextId, henrolls.nextId]
    split
    · next he =>
      cases he
      exact Nat.le_succ _
    · exact Nat.le_refl _
  · simp only [Heap.switch, hstrikes.switches, henrolls.switches]

end Board

end DataBinding
