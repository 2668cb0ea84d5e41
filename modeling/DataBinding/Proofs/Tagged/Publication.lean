import DataBinding.Proofs.Tagged.Lockstep
/-!
# Publications

With tags, a value that is to be written is first told to everyone who observes the changes, one after the other
(`State.leads_published`). If they only note it, the machine is then where it is without the tags, and both runs go
on in step: one comes to an end if the other does (`Shadow.ends`, `Shadow.ends_bare`).

So each of them hears of what the writers of the binding are handed (`State.handed?`). Where the binding has the two
places it writes to for itself (`Tagging.Reserves`), this is all that is delivered there (`State.written?`).
-/

namespace DataBinding

variable {F C S : Type} {K : Client F C S} {g : Tagging} {Like : S → S → Prop} {codes : List C}

namespace State

/-- The value of the changes that the code is given. -/
def heard? [DecidableEq C] (j : SubjectId) (code : C) : State F C S → Option Value
  | ⟨.resume c (.value v), .publishing _ _ i _ :: _, _⟩ => if i = j ∧ c = code then some v else none
  | _ => none

/-- The value that a writer of the binding is handed, with its side: it has been published, and everyone who
observes the changes has returned. -/
def handed? (g : Tagging) : State F C S → Option Value
  | ⟨.pass _, .publishing _ [] i (.tagged side _) :: .passing (.write root path) v :: _, _⟩ =>
    if i = g.subject ∧ (root, path) = g.ends side then some (.tagged side v) else none
  | _ => none

end State

namespace State

/-- The value that is delivered to a place where the binding writes, with the side that is written there. -/
def written? (g : Tagging) : State F C S → Option Value
  | ⟨.run (.deliver (.write root path) v), _, _⟩ =>
    if (root, path) = g.ends .source then some (.tagged .source v)
    else if (root, path) = g.ends .target then some (.tagged .target v)
    else none
  | _ => none

end State

/-- On the way, each of these codes hears of the changes just what is given there, in the same order. -/
def Faithful [DecidableEq C] (g : Tagging) (codes : List C) (given? : State F C S → Option Value)
    (l : List (State F C S)) : Prop :=
  ∀ code ∈ codes, l.filterMap (State.heard? g.subject code) = l.filterMap given?

namespace Faithful

variable [DecidableEq C] {given? : State F C S → Option Value} {l l' : List (State F C S)}

theorem nil : Faithful g codes given? [] := fun _ _ => rfl

theorem append (h : Faithful g codes given? l) (h' : Faithful g codes given? l') :
    Faithful g codes given? (l ++ l') := by
  intro code hc
  rw [List.filterMap_append, List.filterMap_append, h code hc, h' code hc]

end Faithful

/-- The binding writes to two places, and client code makes no observer that writes there. -/
structure Tagging.Reserves (g : Tagging) (K : Client F C S) : Prop where
  confined : K.Confined g.reserved
  ends_ne : g.ends .source ≠ g.ends .target

namespace State

section Below

variable {s : State F C S} {k : S} (hs : (s.bare g k).Within (.below g.subject))
include hs

/-- Nothing is being published where only subjects below that of the changes are named. -/
theorem ne_of_publishing {y : Observer F C} {rest : List (Observer F C)} {i : SubjectId} {v : Value}
    {fs : List (Frame F C)} (he : s.frames = .publishing y rest i v :: fs) : i ≠ g.subject := by
  have hf := hs.rests.frames (.publishing (y.bare g) (rest.map (·.bare g)) i v) (by simp [bare, he, Frame.bare])
  exact Nat.ne_of_lt hf.1

theorem heard?_of_below [DecidableEq C] (code : C) : heard? g.subject code s = none := by
  unfold heard?
  split
  · exact if_neg fun h => ne_of_publishing hs rfl h.1
  · rfl

theorem handed?_of_below : handed? g s = none := by
  unfold handed?
  split
  · exact if_neg fun h => ne_of_publishing hs rfl h.1
  · rfl

end Below

/-- Where the binding has its places for itself, something is written there only after it has been published. -/
theorem written?_of_reserved {s : State F C S} (hs : s.Within g.reserved) : written? g s = none := by
  unfold written?
  split
  · next root path v fs w =>
    have hne : ∀ side, (root, path) ≠ g.ends side := hs.control
    rw [if_neg (hne .source), if_neg (hne .target)]
  · rfl

theorem written?_write (hg : g.ends .source ≠ g.ends .target) (side : Side) (v : Value) (fs : List (Frame F C))
    (w : World F C S) : written? g ⟨.run (.deliver (.write (g.ends side).1 (g.ends side).2) v), fs, w⟩ =
      some (.tagged side v) := by
  cases side with
  | source => exact if_pos rfl
  | target => exact (if_neg hg.symm).trans (if_pos rfl)

/-! ## One publication -/

section Published

variable [DecidableEq C] (side : Side) (v : Value) (fs : List (Frame F C))

/-- The frame that waits for a publication, to write the value then. -/
def waiting (g : Tagging) (side : Side) (v : Value) : Frame F C :=
  .passing (.write (g.ends side).1 (g.ends side).2) v

/-- An observer of the changes is given a value, and only notes it. -/
theorem leads_given {c : C} (hc : K.Listens Like c) (rest : List (Observer F C)) (w : World F C S) :
    ∃ l w', Leads K []
      ⟨.run (.deliver (.client c) (.tagged side v)),
        .publishing (.client c) rest g.subject (.tagged side v) :: waiting g side v :: fs, w⟩ l
      ⟨.pass .done, .publishing (.client c) rest g.subject (.tagged side v) :: waiting g side v :: fs, w'⟩ ∧
      w'.heap = w.heap ∧ (∀ k, Like k w.client → Like k w'.client) ∧
      (∀ code, l.filterMap (heard? g.subject code) = if code = c then [.tagged side v] else []) ∧
      l.filterMap (handed? g) = [] ∧ l.filterMap (written? g) = [] := by
  obtain ⟨w', hret, hheap, hlike⟩ := hc.notes (.tagged side v) w
  obtain ⟨l, hleads, hmem⟩ : ∃ l, Leads K [] _ (_ :: l) _ ∧ ∀ s ∈ l, _ := leads_returns
    (.publishing (.client c) rest g.subject (.tagged side v) :: waiting g side v :: fs) hret
  have hnone : ∀ given? : State F C S → Option Value, (∀ c fs w, given? ⟨.resume c .done, fs, w⟩ = none) →
      l.filterMap given? = [] := fun given? hgiven =>
    List.filterMap_eq_nil_iff.2 fun s hs => by
      obtain ⟨c', w, rfl⟩ := hmem s hs
      exact hgiven c' _ w
  have hheard : ∀ code, l.filterMap (heard? g.subject code) = [] := fun code => hnone _ fun _ _ _ => rfl
  have hhanded : l.filterMap (handed? g) = [] := hnone _ fun _ _ _ => rfl
  have hwritten : l.filterMap (written? g) = [] := hnone _ fun _ _ _ => rfl
  refine ⟨_, w', .go id hleads, hheap, hlike, fun code => ?_, ?_, ?_⟩
  · by_cases he : code = c
    · simp [List.filterMap_cons, heard?, hheard, he]
    · simp [List.filterMap_cons, heard?, hheard, he, Ne.symm he]
  · simp [List.filterMap_cons, handed?, hhanded]
  · simp [List.filterMap_cons, written?, hwritten]

/-- All observers of the changes are given a value, which is then handed to its writer. -/
theorem leads_told (rest : List C) : ∀ (c : C) (w : World F C S), (∀ c' ∈ c :: rest, K.Listens Like c') →
    (c :: rest).Nodup → ∃ l w', Leads K []
      ⟨.run (.deliver (.client c) (.tagged side v)),
        .publishing (.client c) (rest.map .client) g.subject (.tagged side v) :: waiting g side v :: fs, w⟩ l
      ⟨.pass .done, waiting g side v :: fs, w'⟩ ∧ w'.heap = w.heap ∧
      (∀ k, Like k w.client → Like k w'.client) ∧
      (∀ code, l.filterMap (heard? g.subject code) = if code ∈ c :: rest then [.tagged side v] else []) ∧
      l.filterMap (handed? g) = [.tagged side v] ∧ l.filterMap (written? g) = [] := by
  induction rest with
  | nil =>
    intro c w hl _
    obtain ⟨l, w', hleads, hheap, hlike, hheard, hhanded, hwritten⟩ :=
      leads_given side v fs (hl c (by simp)) [] w
    refine ⟨_, w', hleads.trans (.step (fun _ => List.cons_ne_nil _ _) .here), hheap, hlike, fun code => ?_, ?_, ?_⟩
    · rw [List.filterMap_append, hheard]
      simp [heard?]
    · rw [List.filterMap_append, hhanded]
      simp [handed?, waiting]
    · rw [List.filterMap_append, hwritten]
      simp [written?]
  | cons c' rest ih =>
    intro c w hl hn
    obtain ⟨hc, hl⟩ := List.forall_mem_cons.1 hl
    obtain ⟨hnot, hn⟩ := List.nodup_cons.1 hn
    obtain ⟨l, w₁, hleads, hheap, hlike, hheard, hhanded, hwritten⟩ :=
      leads_given side v fs hc ((c' :: rest).map .client) w
    obtain ⟨l', w', hleads', hheap', hlike', hheard', hhanded', hwritten'⟩ := ih c' w₁ hl hn
    -- the first observer is not among the others, so it hears the value once
    refine ⟨_, w', hleads.trans (.step (fun _ => List.cons_ne_nil _ _) hleads'), hheap'.trans hheap,
      fun k hk => hlike' k (hlike k hk), fun code => ?_, ?_, ?_⟩
    · rw [List.filterMap_append, hheard]
      have hnone : heard? g.subject code (⟨.pass .done, .publishing (.client c) ((c' :: rest).map .client)
        g.subject (.tagged side v) :: waiting g side v :: fs, w₁⟩ : State F C S) = none := rfl
      rw [List.filterMap_cons, hnone]
      simp only [hheard']
      by_cases he : code = c
      · subst he
        simp [hnot]
      · simp [he]
    · rw [List.filterMap_append, hhanded]
      have hnone : handed? g (⟨.pass .done, .publishing (.client c) ((c' :: rest).map .client)
        g.subject (.tagged side v) :: waiting g side v :: fs, w₁⟩ : State F C S) = none := rfl
      rw [List.filterMap_cons, hnone]
      simpa using hhanded'
    · rw [List.filterMap_append, hwritten]
      simpa [List.filterMap_cons, written?] using hwritten'

/-- A value to be published is told to all observers of the changes, and then delivered to its writer. -/
theorem leads_published {w : World F C S} (hp : w.heap.Publishes g codes) (hl : ∀ c ∈ codes, K.Listens Like c)
    (hn : codes.Nodup) : ∃ l w', Leads K []
      ⟨.run (.deliver (.map (.publish g.subject side) (.write (g.ends side).1 (g.ends side).2)) v), fs, w⟩ l
      ⟨.run (.deliver (.write (g.ends side).1 (g.ends side).2) v), fs, w'⟩ ∧ w'.heap = w.heap ∧
      (∀ k, Like k w.client → Like k w'.client) ∧
      (∀ code ∈ codes, l.filterMap (heard? g.subject code) = [.tagged side v]) ∧
      Faithful g codes (handed? g) l ∧ l.filterMap (written? g) = [] := by
  have hfirst : ∀ {l e}, Leads K [] (stepPublish ⟨.run (.next g.subject (.tagged side v)),
      waiting g side v :: fs, w⟩ g.subject (.tagged side v) (codes.map .client)) l e → Leads K []
      ⟨.run (.deliver (.map (.publish g.subject side) (.write (g.ends side).1 (g.ends side).2)) v), fs, w⟩
      (⟨.run (.deliver (.map (.publish g.subject side) (.write (g.ends side).1 (g.ends side).2)) v), fs, w⟩ ::
        ⟨.run (.next g.subject (.tagged side v)), waiting g side v :: fs, w⟩ :: l) e := by
    intro l e h
    refine .go id (.go id ?_)
    rw [← hp.observers] at h
    exact h
  have hlast : ∀ w' : World F C S, Leads K [] ⟨.pass .done, waiting g side v :: fs, w'⟩
      [⟨.pass .done, waiting g side v :: fs, w'⟩]
      ⟨.run (.deliver (.write (g.ends side).1 (g.ends side).2) v), fs, w'⟩ :=
    fun w' => .step (fun _ => List.cons_ne_nil _ _) .here
  cases codes with
  | nil => exact ⟨_, w, hfirst (hlast w), rfl, fun _ hk => hk, by simp, by simp [Faithful], rfl⟩
  | cons c rest =>
    obtain ⟨l, w', hleads, hheap, hlike, hheard, hhanded, hwritten⟩ := leads_told side v fs rest c w hl hn
    refine ⟨_, w', hfirst (hleads.trans (hlast w')), hheap, hlike, fun code hc => ?_, fun code hc => ?_, ?_⟩
    · simp [List.filterMap_cons, List.filterMap_append, hheard, hc, heard?]
    · simp [List.filterMap_cons, List.filterMap_append, hheard, hhanded, hc, heard?, handed?, waiting]
    · simp [List.filterMap_cons, List.filterMap_append, hwritten, written?]

end Published

end State

/-! ## Runs -/

namespace Shadow

variable [DecidableEq C] {s t e : State F C S} {l : List (State F C S)}

theorem faithful (h : Shadow K g Like codes s t) : Faithful g codes (State.handed? g) [t] := by
  intro code _
  have hbelow : (t.bare g s.world.client).Within (.below g.subject) := h.bare ▸ h.below
  simp [State.heard?_of_below hbelow, State.handed?_of_below hbelow]

theorem faithful_written (h : Shadow K g Like codes s t) (ht : t.Within g.reserved) :
    Faithful g codes (State.written? g) [t] := by
  intro code _
  have hbelow : (t.bare g s.world.client).Within (.below g.subject) := h.bare ▸ h.below
  simp [State.heard?_of_below hbelow, State.written?_of_reserved ht]

/-- From `t` the states `l` lead to one beside `s` that no tag is in the way of; what is published meanwhile is
heard, and what is written afterwards too. -/
structure Settles (K : Client F C S) (g : Tagging) (Like : S → S → Prop) (codes : List C) (s t : State F C S)
    (l : List (State F C S)) (t' : State F C S) : Prop where
  leads : State.Leads K [] t l t'
  shadow : Shadow K g Like codes s t'
  clear : ∀ c, t'.control = .run c → ¬ c.AtTag g.reserved
  handed : Faithful g codes (State.handed? g) (l ++ [t'])
  written : g.Reserves K → t.Within g.reserved →
    (t'.step K).Within g.reserved ∧ Faithful g codes (State.written? g) (l ++ [t'])

/-- A value that comes to a tag is published, and goes on to the end that is written. -/
theorem settles_published (hl : ∀ c ∈ codes, K.Listens Like c) (hn : codes.Nodup) {side : Side} {v : Value}
    {fs : List (Frame F C)} {w : World F C S} (h : Shadow K g Like codes s
      ⟨.run (.deliver (.map (.publish g.subject side) (.write (g.ends side).1 (g.ends side).2)) v), fs, w⟩) :
    ∃ l t', Settles K g Like codes s
      ⟨.run (.deliver (.map (.publish g.subject side) (.write (g.ends side).1 (g.ends side).2)) v), fs, w⟩ l t' := by
  obtain ⟨l, w', hleads, hheap, hlike, hheard, hf, hwritten⟩ := State.leads_published side v fs h.publishes hl hn
  have h' : Shadow K g Like codes s ⟨.run (.deliver (.write (g.ends side).1 (g.ends side).2) v), fs, w'⟩ := by
    refine ⟨?_, hlike _ h.client, h.below, hheap ▸ h.publishes⟩
    rw [← h.bare]
    simp [State.bare, Control.bare, Command.bare, Observer.bare, Tagging.marks_publish, hheap]
  refine ⟨l, _, hleads, h', ?_, hf.append h'.faithful, fun hg hw => ⟨?_, fun code hc => ?_⟩⟩
  · rintro c hc
    cases hc
    exact id
  · have hr : State.Rests g.reserved ⟨.run (.deliver (.write (g.ends side).1 (g.ends side).2) v), fs, w'⟩ :=
      ⟨hw.rests.frames, hheap ▸ hw.rests.heap⟩
    exact hr.arrive _ _ v
  · rw [List.filterMap_append, List.filterMap_append, hheard code hc, hwritten]
    simp [State.written?_write hg.ends_ne, State.heard?]

/-- Subscribing to a tag subscribes to what is tagged. -/
theorem settles_tagged {side : Side} {x : Stream F} {fs : List (Frame F C)} {w : World F C S}
    (h : Shadow K g Like codes s ⟨.run (.subscribe (.map x (.publish g.subject side))
      (.write (g.ends side).1 (g.ends side).2)), fs, w⟩) :
    ∃ l t', Settles K g Like codes s ⟨.run (.subscribe (.map x (.publish g.subject side))
      (.write (g.ends side).1 (g.ends side).2)), fs, w⟩ l t' := by
  have hat : (Command.subscribe (.map x (.publish g.subject side)) (.write (g.ends side).1 (g.ends side).2) :
      Command F C).AtTag g.reserved := Tagging.marks_publish side
  have h' : Shadow K g Like codes s ⟨.run (.subscribe x
      (.map (.publish g.subject side) (.write (g.ends side).1 (g.ends side).2))), fs, w⟩ := by
    refine ⟨?_, h.client, h.below, h.publishes⟩
    rw [← h.bare]
    simp [State.bare, Control.bare, Command.bare, Tagging.bare_publish, Tagging.bare_map, Observer.bare,
      Tagging.marks_publish]
  have htag : ∀ c : Command F C, Control.run (.subscribe x (.map (.publish g.subject side)
      (.write (g.ends side).1 (g.ends side).2))) = .run c → ¬ c.AtTag g.reserved := by
    rintro c hc
    cases hc
    cases x with
    | map x f => cases f <;> simp [Command.AtTag, Tagging.reserved, Tagging.marks]
    | _ => exact id
  refine ⟨_, _, .one id rfl, h', htag, h.faithful.append h'.faithful, fun hg hw => ?_⟩
  have hx : x.Within fun _ => True := by
    obtain ⟨x', f, he, hx', -⟩ | ⟨hx, -⟩ := hw.control
    · cases he
      exact hx'
    · exact hx.1
  have hw' : State.Within g.reserved ⟨.run (.subscribe x
      (.map (.publish g.subject side) (.write (g.ends side).1 (g.ends side).2))), fs, w⟩ :=
    ⟨.inr ⟨hx, .inl hat⟩, hw.rests.frames, hw.rests.heap⟩
  exact ⟨hw'.step hg.confined htag, (h.faithful_written hw).append (h'.faithful_written hw')⟩

/-- A state reaches one that makes the step that is made without the tags. -/
theorem settles (hl : ∀ c ∈ codes, K.Listens Like c) (hn : codes.Nodup) (h : Shadow K g Like codes s t) :
    ∃ l t', Settles K g Like codes s t l t' := by
  by_cases hat : ∃ c, t.control = .run c ∧ c.AtTag g.reserved
  · obtain ⟨c, hc, hat⟩ := hat
    obtain ⟨c', fs, w⟩ := t
    obtain rfl : c' = .run c := hc
    cases c with
    | deliver y v =>
      cases y with
      | map f next =>
        obtain ⟨side, rfl, rfl⟩ := Tagging.eq_of_marks hat
        exact h.settles_published hl hn
      | _ => exact hat.elim
    | subscribe x y =>
      cases x with
      | map x f =>
        obtain ⟨side, rfl, rfl⟩ := Tagging.eq_of_marks hat
        exact h.settles_tagged
      | _ => exact hat.elim
    | _ => exact hat.elim
  -- no tag is in the way already
  · have htag : ∀ c, t.control = .run c → ¬ c.AtTag g.reserved := fun c hc ha => hat ⟨c, hc, ha⟩
    exact ⟨[], t, .here, h, htag, h.faithful, fun hg hw => ⟨hw.step hg.confined htag, h.faithful_written hw⟩⟩

omit [DecidableEq C] in
/-- Both answer at once or neither does. -/
theorem answer_iff (h : Shadow K g Like codes s t) :
    (t.control.IsAnswer ↔ s.control.IsAnswer) ∧ (t.frames = [] ↔ s.frames = []) := by
  rw [← h.bare]
  refine ⟨?_, List.map_eq_nil_iff.symm⟩
  obtain ⟨c, fs, w⟩ := t
  cases c <;> rfl

/-- If a call without the tags comes to an end, then so does the call with them. -/
theorem ends (hK : K.Blind g Like) (hc : K.Confined (.below g.subject)) (hl : ∀ c ∈ codes, K.Listens Like c)
    (hn : codes.Nodup) (he : State.Ends K [] s l e) : ∀ t, Shadow K g Like codes s t →
      ∃ l' e', State.Ends K [] t l' e' ∧ Shadow K g Like codes e e' ∧ Faithful g codes (State.handed? g) l' ∧
        (g.Reserves K → t.Within g.reserved →
          e'.Within g.reserved ∧ Faithful g codes (State.written? g) l') := by
  induction he with
  | @answer s ha hf =>
    intro t h
    have hend : State.Ends K [] t [] t := .answer (h.answer_iff.1.2 ha) (h.answer_iff.2.2 hf)
    exact ⟨[], t, hend, h, .nil, fun _ ht => ⟨ht, .nil⟩⟩
  | @step s l e hs _ ih =>
    intro t h
    obtain ⟨l₁, t', hleads, h', htag, hf, hw⟩ := h.settles hl hn
    obtain ⟨l₂, e', hends, he', hf', hw'⟩ := ih _ (h'.step hK hc hl htag)
    have hnext : t'.control.IsAnswer → t'.frames ≠ [] := fun ha hfs =>
      hs (h'.answer_iff.1.1 ha) (h'.answer_iff.2.1 hfs)
    refine ⟨l₁ ++ [t'] ++ l₂, e', ?_, he', hf.append hf', fun hg ht => ?_⟩
    · rw [List.append_assoc]
      exact hleads.ends (.step hnext hends)
    · obtain ⟨hnext, hf₁⟩ := hw hg ht
      obtain ⟨hend, hf₂⟩ := hw' hg hnext
      exact ⟨hend, hf₁.append hf₂⟩

/-- If a call with the tags comes to an end, then so does the call without them. -/
theorem ends_bare (hK : K.Blind g Like) (hc : K.Confined (.below g.subject)) (hl : ∀ c ∈ codes, K.Listens Like c)
    (hn : codes.Nodup) (he : State.Ends K [] t l e) (h : Shadow K g Like codes s t) :
    ∃ l' e', State.Ends K [] s l' e' ∧ Shadow K g Like codes e' e := by
  induction hlen : l.length using Nat.strongRecOn generalizing s t l with
  | _ n ih =>
    subst hlen
    obtain ⟨l₁, t', hleads, h', htag, -⟩ := h.settles hl hn
    obtain ⟨l₂, rfl, hends⟩ := hleads.rest he
    cases hends with
    | answer ha hf => exact ⟨[], s, .answer (h'.answer_iff.1.1 ha) (h'.answer_iff.2.1 hf), h'⟩
    | @step _ l₃ _ hs hends =>
      have hnext : s.control.IsAnswer → s.frames ≠ [] := fun ha hfs =>
        hs (h'.answer_iff.1.2 ha) (h'.answer_iff.2.2 hfs)
      have hlt : l₃.length < (l₁ ++ t' :: l₃).length := by
        simp only [List.length_append, List.length_cons]
        omega
      obtain ⟨l', e', hends', he'⟩ := ih _ hlt hends (h'.step hK hc hl htag) rfl
      exact ⟨_, e', .step hnext hends', he'⟩

end Shadow

end DataBinding
