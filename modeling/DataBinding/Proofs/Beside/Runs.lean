import DataBinding.Proofs.Beside.Steps
/-!
# Both runs come to their ends

If the second run comes to its end from where both are at the same thing, so does the first one, with a signal that
is alike and in a world that goes with that of the second one (`Setting.Onward.ends`). The induction is on the
length of the second run, in which something alien is skipped as a whole.
-/

namespace DataBinding

variable {F C S : Type} {q : Setting F C S} {ρ ρ' : Ties} {s s' e' : State F C S} {w w' : World F C S}
  {fs fs' : List (Frame F C)} {f' : Frame F C} {l' : List (State F C S)}

open State

/-- From here the first run comes to an end that goes with that of the second one. -/
def Setting.Settles (q : Setting F C S) (ρ : Ties) (s e' : State F C S) : Prop :=
  ∃ ρ' l signal signal' w w', ρ ≤ ρ' ∧ Ends q.client [] s l ⟨.pass signal, [], w⟩ ∧ e' = ⟨.pass signal', [], w'⟩ ∧
    signal.Alike ρ' signal' ∧ q.Joint ρ' w w'

/-- The second run comes back to these frames with a signal, before it ends. -/
def Setting.Returns (q : Setting F C S) (ρ : Ties) (w : World F C S) (fs' : List (Frame F C)) (l' : List (State F C S))
    (e' : State F C S) : Prop :=
  ∃ ρ' signal w₂ l₂, ρ ≤ ρ' ∧ q.Joint ρ' w w₂ ∧ Ends q.client [] ⟨.pass signal, fs', w₂⟩ l₂ e' ∧
    l₂.length ≤ l'.length

namespace Setting

/-- What is alien is skipped as a whole. -/
theorem Aside.returns (hq : q.Sound) (ha : q.Aside ρ w fs' s') (he : Ends q.client [] s' l' e') :
    q.Returns ρ w fs' l' e' := by
  obtain ⟨gs, hgs, -⟩ := ha.frames
  obtain ⟨l₁, s₁, l₂, rfl, h₁, h₂⟩ := he.split (List.nil_suffix) (hgs ▸ List.suffix_append gs fs')
  obtain ⟨ρ', signal, w₂, hρ, rfl, hj, -⟩ := ha.ends hq h₁
  refine ⟨ρ', signal, w₂, l₂, hρ, hj, h₂, ?_⟩
  rw [List.length_append]
  omega

/-- An alien task is skipped as a whole. -/
theorem returns_task (hq : q.Sound) (hj : q.Joint ρ w w') {t : Task F C} (ht : t.Alien q ρ) {c : Control F C}
    (he : Ends q.client [] (stepTask ⟨c, f' :: fs', w'⟩ t) l' e') : q.Returns ρ w (f' :: fs') l' e' := by
  cases t with
  | deliver i y v =>
    cases hg : w'.heap.gateOpen i with
    | true =>
      rw [task_open hg] at he
      have ha : q.Aside ρ w (f' :: fs') ⟨.run (.deliver y v), f' :: fs', w'⟩ :=
        ⟨hj, ht.2, [], rfl, List.forall_mem_nil _⟩
      exact ha.returns hq he
    | false =>
      rw [task_shut hg] at he
      have ha : q.Aside ρ w (f' :: fs') ⟨.pass .done, f' :: fs', w'⟩ := ⟨hj, trivial, [], rfl, List.forall_mem_nil _⟩
      exact ha.returns hq he
  | client c =>
    obtain ⟨w₂, hr, hj₂⟩ := hj.resumeAlien hq ht.1 ht.2 .done
    obtain ⟨l, hl, -⟩ : ∃ l, Leads q.client [] _ (_ :: l) _ ∧ _ := leads_returns (f' :: fs') hr
    obtain ⟨l₂, rfl, h₂⟩ := hl.rest he
    refine ⟨ρ, .done, w₂, l₂, Ties.le_refl ρ, hj₂, h₂, ?_⟩
    rw [List.length_append]
    omega

theorem Settles.mono (hρ : ρ ≤ ρ') (h : q.Settles ρ' s e') : q.Settles ρ s e' := by
  obtain ⟨ρ₁, l, signal, signal', w, w', hρ', hrest⟩ := h
  exact ⟨ρ₁, l, signal, signal', w, w', Ties.le_trans hρ hρ', hrest⟩

theorem Settles.leads {l : List (State F C S)} {t : State F C S} (hl : Leads q.client [] s l t)
    (h : q.Settles ρ t e') : q.Settles ρ s e' := by
  obtain ⟨ρ', l', signal, signal', w, w', hρ, hends, hrest⟩ := h
  exact ⟨ρ', _, signal, signal', w, w', hρ, hl.ends hends, hrest⟩

/-- Where both go on, what is left of the second run is shorter. -/
theorem Proceeds.settles (hp : q.Proceeds ρ s s') (he : Ends q.client [] s' l' e')
    (ih : ∀ ρ t t' l₂, l₂.length < l'.length → q.Onward ρ t t' → Ends q.client [] t' l₂ e' → q.Settles ρ t e') :
    q.Settles ρ s e' := by
  obtain ⟨ρ', l, l₁, t, t', hρ, hl, hl', ho⟩ := hp
  obtain ⟨l₂, rfl, h₂⟩ := hl'.rest he
  refine .mono hρ (.leads hl (ih ρ' t t' l₂ ?_ ho h₂))
  simp only [List.cons_append, List.length_cons, List.length_append]
  omega

/-- Both runs are about to run the tasks that are kept. -/
theorem settles_drain (hq : q.Sound) (hj : q.Joint ρ w w') (hf : List.Forall₂ (Frame.Alike q ρ) fs fs')
    (i : SchedulerId) (n m : Nat) (he : Ends q.client [] ⟨.run (.drain i m), fs', w'⟩ l' e')
    (ih : ∀ ρ t t' l₂, l₂.length < l'.length → q.Onward ρ t t' → Ends q.client [] t' l₂ e' → q.Settles ρ t e') :
    q.Settles ρ ⟨.run (.drain i n), fs, w⟩ e' := by
  have hm := hj.mirrors
  have hs := hm.tasks i
  have hdone : (∀ t l, w.heap.tasks? i ≠ some (t :: l)) → (∀ t l, w'.heap.tasks? i ≠ some (t :: l)) →
      q.Settles ρ ⟨.run (.drain i n), fs, w⟩ e' := fun hl hl' =>
    (proceeds_go hf (Ties.le_refl ρ) (step_drain_done hl) (step_drain_done hl') hj (.pass (.count n m))).settles he ih
  cases hl : w.heap.tasks? i <;> cases hl' : w'.heap.tasks? i <;> rw [hl, hl'] at hs <;> cases hs
  case none.none.none => exact hdone (by simp [hl]) (by simp [hl'])
  case some.some.some hs =>
    cases hs with
    | nil => exact hdone (by simp [hl]) (by simp [hl'])
    | keep ht hrest =>
      exact (proceeds_task hq ht (.cons .draining hf) (hj.withHeap (Ties.le_refl ρ) (hm.setTasks hrest))
        (step_drain_cons hl) (step_drain_cons hl')).settles he ih
    | @drop t l tasks ht hrest =>
      have hj₁ : q.Joint ρ w (w'.withHeap (w'.heap.setTasks i tasks)) :=
        hj.withHeap (Ties.le_refl ρ) (hm.setTasksAlien hl hrest)
      obtain ⟨l₁, rfl, h₁⟩ := he.next fun hc => hc.elim
      rw [step_drain_cons hl'] at h₁
      obtain ⟨ρ', signal, w₂, l₂, hρ, hj₂, h₂, hlen⟩ := returns_task hq hj₁ ht h₁
      obtain ⟨l₃, rfl, h₃⟩ := h₂.next fun _ => List.cons_ne_nil _ _
      refine .mono hρ (ih ρ' _ _ l₃ ?_ (.linked ⟨.run (.drain i n (m + 1)),
        hf.imp fun _ _ => Frame.Alike.mono hρ, hj₂⟩) h₃)
      simp only [List.length_cons] at hlen ⊢
      omega

/-- Both runs are at the same thing. -/
theorem Linked.settles (hq : q.Sound) (h : q.Linked ρ s s') (he : Ends q.client [] s' l' e')
    (ih : ∀ ρ t t' l₂, l₂.length < l'.length → q.Onward ρ t t' → Ends q.client [] t' l₂ e' → q.Settles ρ t e') :
    q.Settles ρ s e' := by
  obtain ⟨hc, hf, hj⟩ := h
  obtain ⟨c, fs, w⟩ := s
  obtain ⟨c', fs', w'⟩ := s'
  cases hc with
  | pass hs =>
    cases hf with
    | nil =>
      obtain ⟨rfl, rfl⟩ := he.unique (.answer trivial rfl)
      exact ⟨ρ, [], _, _, w, w', Ties.le_refl ρ, .answer trivial rfl, rfl, hs, hj⟩
    | cons hfirst hf => exact (proceeds_frame hj hf hfirst hs).settles he ih
  | @run command command' hc =>
    by_cases hd : ∃ i n, command = .drain i n
    · obtain ⟨i, n, rfl⟩ := hd
      cases hc with
      | drain i n m => exact settles_drain hq hj hf i n m he ih
    · exact (proceeds_command hq hj hf hc fun i n he => hd ⟨i, n, he⟩).settles he ih

section Lists

variable {w w' : World F C S} {c c' : Control F C} {v v' : Value} (hq : q.Sound) (hj : q.Joint ρ w w')
  (hf : List.Forall₂ (Frame.Alike q ρ) fs fs') (hv : q.alike ρ v v')
  (ih : ∀ ρ t t' l₂, l₂.length < l'.length → q.Onward ρ t t' → Ends q.client [] t' l₂ e' → q.Settles ρ t e')
include hq hj hf hv ih

/-- Both runs are about to tell the same handlers of an object, the second one others as well. -/
theorem settles_telling {o : ObjectId} (ho : o < q.objects) {l m : List (Handler F C)}
    (hl : Sifted (Handler.Alike q ρ o) (Handler.Alien q ρ o) l m)
    (he : Ends q.client [] (stepNotify ⟨c', fs', w'⟩ o v' m) l' e') :
    q.Settles ρ (stepNotify ⟨c, fs, w⟩ o v l) e' := by
  cases hl with
  | nil =>
    have hlinked : q.Linked ρ ⟨.pass .done, fs, w⟩ ⟨.pass .done, fs', w'⟩ := ⟨.pass .done, hf, hj⟩
    exact hlinked.settles hq he ih
  | @keep x y l m hx hrest =>
    have hshown : q.alike ρ (if x.reportsOwner then .object o else v) (if y.reportsOwner then .object o else v') := by
      rw [hx.reportsOwner]
      split
      · exact ⟨ho, rfl⟩
      · exact hv
    have hlinked : q.Linked ρ
        ⟨.run (.deliver x.observer (if x.reportsOwner then .object o else v)), .notifying x l o v :: fs, w⟩
        ⟨.run (.deliver y.observer (if y.reportsOwner then .object o else v')), .notifying y m o v' :: fs', w'⟩ :=
      ⟨.run (.deliver hx.observer hshown), .cons (.notifying ho hv hrest) hf, hj⟩
    exact hlinked.settles hq he ih
  | @drop y l m hy hrest =>
    have ha : q.Aside ρ w (.notifying y m o v' :: fs') (stepNotify ⟨c', fs', w'⟩ o v' (y :: m)) :=
      ⟨hj, hy.observer, [], rfl, List.forall_mem_nil _⟩
    obtain ⟨ρ', signal, w₂, l₂, hρ, hj₂, h₂, hlen⟩ := ha.returns hq he
    obtain ⟨l₃, rfl, h₃⟩ := h₂.next fun _ => List.cons_ne_nil _ _
    exact .mono hρ (ih ρ' _ _ l₃ hlen (.telling (hf.imp fun _ _ => Frame.Alike.mono hρ) hj₂ ho
      (q.alike_mono hρ hv) (hrest.mono (fun _ _ => Handler.Alike.mono hρ) fun _ => Handler.Alien.mono hρ)) h₃)

/-- Both runs are about to tell the same observers of a subject, the second one others as well. -/
theorem settles_giving {j : SubjectId} {l m : List (Observer F C)}
    (hl : Sifted (Observer.Alike q ρ) (Observer.Alien q ρ) l m)
    (he : Ends q.client [] (stepPublish ⟨c', fs', w'⟩ j v' m) l' e') :
    q.Settles ρ (stepPublish ⟨c, fs, w⟩ j v l) e' := by
  cases hl with
  | nil =>
    have hlinked : q.Linked ρ ⟨.pass .done, fs, w⟩ ⟨.pass .done, fs', w'⟩ := ⟨.pass .done, hf, hj⟩
    exact hlinked.settles hq he ih
  | @keep x y l m hx hrest =>
    have hlinked : q.Linked ρ ⟨.run (.deliver x v), .publishing x l j v :: fs, w⟩
        ⟨.run (.deliver y v'), .publishing y m j v' :: fs', w'⟩ :=
      ⟨.run (.deliver hx hv), .cons (.publishing hv hrest) hf, hj⟩
    exact hlinked.settles hq he ih
  | @drop y l m hy hrest =>
    have ha : q.Aside ρ w (.publishing y m j v' :: fs') (stepPublish ⟨c', fs', w'⟩ j v' (y :: m)) :=
      ⟨hj, hy, [], rfl, List.forall_mem_nil _⟩
    obtain ⟨ρ', signal, w₂, l₂, hρ, hj₂, h₂, hlen⟩ := ha.returns hq he
    obtain ⟨l₃, rfl, h₃⟩ := h₂.next fun _ => List.cons_ne_nil _ _
    exact .mono hρ (ih ρ' _ _ l₃ hlen (.giving (hf.imp fun _ _ => Frame.Alike.mono hρ) hj₂
      (q.alike_mono hρ hv) (hrest.mono (fun _ _ => Observer.Alike.mono hρ) fun _ => Observer.Alien.mono hρ)) h₃)

end Lists

/-- If the second run comes to its end, so does the first one. -/
theorem Onward.ends (hq : q.Sound) (h : q.Onward ρ s s') (he : Ends q.client [] s' l' e') : q.Settles ρ s e' := by
  induction hn : l'.length using Nat.strongRecOn generalizing ρ s s' l' with
  | ind n ih =>
    replace ih : ∀ ρ t t' l₂, l₂.length < l'.length → q.Onward ρ t t' → Ends q.client [] t' l₂ e' → q.Settles ρ t e' :=
      fun ρ t t' l₂ hlt ho h₂ => ih _ (hn ▸ hlt) ho h₂ rfl
    cases h with
    | linked hl => exact hl.settles hq he ih
    | telling hf hj ho hv hl => exact settles_telling hq hj hf hv ih ho hl he
    | giving hf hj hv hl => exact settles_giving hq hj hf hv ih hl he

end Setting

end DataBinding
