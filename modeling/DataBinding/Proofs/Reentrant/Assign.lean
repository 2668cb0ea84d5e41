import DataBinding.Proofs.Reentrant.Cascade
/-!
# Assignments tell a chain

An assignment tells the handlers that were registered when the announcement began, in order. By the
time one of the chain's is told it may be of a past generation, and then nothing happens; or it is still
registered, and the chain follows the value that it is told, which may be out of date
(`Chain.Attached.tell`).

`Chain.endures`: whatever others do, the chain is attached in the end.
-/

namespace DataBinding.Chain

variable {F C S : Type} (c : Chain C)

/-- A handler of an object that was registered before: one of others, the chain's on the root, or one
for a link, still registered unless its generation has passed. -/
def Known (h : Heap F C) (o : ObjectId) (x : Handler F C) : Prop :=
  c.Spares x.observer ∨ (o = c.root ∧ x = c.rootHandler) ∨
    ∃ id g l rest, l :: rest <:+ c.links ∧ x = c.linkHandler id g l rest ∧ g ≤ h.generation l ∧
      (g = h.generation l → x ∈ h.handlers o)

variable {c} {K : Client F C S} {seen : S → List Value} {past : List (State F C S)} {n m : Nat}
  {pending : List (ObjectId × Nat)} {w : World F C S} {regs : List (Registration F C)} {u v : Value}
  {base : List (Frame F C)} {o : ObjectId} {x : Handler F C}

open State

theorem Known.mono {h h' : Heap F C} (hx : c.Known h o x) (ho : c.Onward h h') : c.Known h' o x := by
  obtain hx | hx | ⟨id, g, l, rest, hs, rfl, hg, hx⟩ := hx
  · exact .inl hx
  · exact .inr (.inl hx)
  · have hle := ho.later l (mem_links_of_suffix hs)
    refine .inr (.inr ⟨id, g, l, rest, hs, rfl, Nat.le_trans hg hle, fun he => ?_⟩)
    have hg' : g = h.generation l := by omega
    subst hg'
    exact (ho.still l rest hs he.symm).2 o id (hx rfl)

/-- What is registered is known. -/
theorem Attached.known (ha : c.Attached seen past pending w regs v) (hx : x ∈ w.heap.handlers o) :
    c.Known w.heap o x := by
  by_cases hc : x.observer.code? = some c.code
  · obtain hroot | ⟨id, g, l, rest, hs, he, hg, -⟩ := ha.live.owned o x hx hc
    · exact .inr (.inl hroot)
    · exact .inr (.inr ⟨id, g, l, rest, hs, he, hg, fun _ => hx⟩)
  · exact .inl (ha.tidy.others o x hx hc)

/-- A registration of the chain is told a value: its links remain to be followed from there. -/
theorem Attached.retold (ha : c.Attached seen past pending w regs u) {told : Value}
    (hr : ⟨o, x, told⟩ ∈ regs) {s : State F C S} (hs : s.Tells o x v) :
    ∃ todo post, ((x = c.rootHandler ∧ todo = c.links) ∨ ∃ id l, l :: todo <:+ c.links ∧
        x = c.linkHandler id (w.heap.generation l) l todo) ∧
      c.Following seen (past ++ [s]) pending w todo (⟨o, x, v⟩ :: post) v := by
  obtain ⟨pre, post, rfl⟩ := List.append_of_mem hr
  obtain ⟨todo, -, -, hcases, hl⟩ := ha.live.retell
  refine ⟨todo, post, hcases.imp_left And.right, hl v, ha.tidy, fun r' hr' => ?_, ha.remembered⟩
  rcases List.mem_cons.1 hr' with rfl | hr'
  · exact .here hs
  · -- the registrations before it are of other links
    refine (ha.told r' (by simp [hr'])).append fun s' hs' u' htell => ?_
    obtain rfl := List.mem_singleton.1 hs'
    have he := hs.1.symm.trans htell.1
    simp only [Control.run.injEq, Command.deliver.injEq] at he
    have hlt := (List.pairwise_append.1 ha.live.follows.pairwise_depth).2.1
    have := (List.pairwise_cons.1 hlt).1 r' hr'
    simp only [he.1] at this
    omega

/-- To tell a handler of a past generation is to tell none of the registrations. -/
theorem Attached.late (ha : c.Attached seen past pending w regs u) {s : State F C S} {l : Link}
    {rest : List Link} {g : Nat} (hs : l :: rest <:+ c.links) (hg : g ≠ w.heap.generation l)
    (hc : s.control = .run (.deliver (.inner l.switch g (c.observer rest)) v)) :
    c.Attached seen (past ++ [s]) pending w regs u := by
  refine ⟨ha.toFollowing.append [s] fun r hr s' hs' u' htell => ?_, ha.caught⟩
  obtain rfl := List.mem_singleton.1 hs'
  have he := hc.symm.trans htell.1
  simp only [Control.run.injEq, Command.deliver.injEq] at he
  obtain ⟨-, hx⟩ | ⟨id, l', rest', hs', -, hx⟩ := ha.live.follows.cases_mem r hr
  · rw [hx] at he
    exact observer_ne_inner _ _ _ _ he.1.symm
  · rw [hx, linkHandler, Observer.inner.injEq] at he
    obtain ⟨rfl, -⟩ := ha.live.link_ext hs hs' he.1.1
    exact hg he.1.2.1

section Steps
variable (hK : K.Assigns seen c.code) (hp : ∀ s ∈ c.segments, s.property ≠ "")
  (ih : ∀ m < n, c.Endures K seen m)
include hK hp ih

/-- A registration of the chain is told a value in an announcement. -/
theorem Attached.tell (ha : c.Attached seen past pending w regs u) (hm : m < n)
    {rest : List (Handler F C)} {told : Value} (hr : (⟨o, x, told⟩ : Registration F C) ∈ regs)
    (hv : ∀ b, v = .object b → b < w.heap.objects.size) :
    Keeps K State.Valid m (.notifying x rest o v :: base) past
      ⟨.run (.deliver x.observer v), .notifying x rest o v :: base, w⟩
      (c.Done seen pending w.heap) := by
  have hk : ∀ b, v = .object b → KeptObject K (.notifying x rest o v :: base) w.client w.heap b := by
    rintro b rfl
    refine ⟨b, .inr ⟨_, List.mem_cons_self, fun h => ?_⟩, hv b rfl, .refl⟩
    simp [Frame.refs, Value.refs]
  have htells : Tells ⟨.run (.deliver x.observer v), .notifying x rest o v :: base, w⟩ o x v :=
    .notifying
  obtain ⟨todo, post, hcases, hf⟩ := ha.retold hr htells
  obtain ⟨rfl, rfl⟩ | ⟨k, l, hs, rfl⟩ := hcases
  · exact hf.deliver hK hp c.links m past _ _ _ _ w (fun k hk => ih k (Nat.lt_trans hk hm)) hk
  · have hrun := (ha.live.running l (mem_links_of_suffix hs)).2
    refine .leads_lt (.one id (step_inner hrun rfl v)) fun k hk' => ?_
    refine Following.deliver hK hp todo k _ pending _ v _ w
      (fun j hj => ih j (Nat.lt_trans hj (Nat.lt_trans hk' hm))) (hf.append _ ?_) hk
    -- the value is passed on under the same frame, which tells nobody
    intro r' hr' s' hs' u' htell
    obtain rfl := List.mem_singleton.1 hs'
    have he := htell.1
    simp only [Control.run.injEq, Command.deliver.injEq] at he
    rcases List.mem_cons.1 hr' with rfl | hr'
    · exact observer_ne_inner _ _ _ _ he.1
    · have hlt := (List.pairwise_cons.1 hf.live.follows.pairwise_depth).1 r' hr'
      simp only [← he.1, depth_linkHandler, depth_observer] at hlt
      omega

/-- Handlers that were registered when the announcement began are told, one after the other. -/
theorem Attached.notify {base : List (Frame F C)} (L : List (Handler F C)) :
    ∀ m < n, ∀ past (w : World F C S) regs u control, c.Attached seen past pending w regs u →
      (∀ x ∈ L, c.Known w.heap o x) → (∀ b, v = .object b → b < w.heap.objects.size) →
      Keeps K State.Valid m base past (stepNotify ⟨control, base, w⟩ o v L)
        (c.Done seen pending w.heap) := by
  induction L with
  | nil => exact fun m _ past w regs u control ha _ _ => .pass (ha.done (by simp))
  | cons x rest ihL =>
    intro m hm past w regs u control ha hL hv
    have htell : Keeps K State.Valid m (.notifying x rest o v :: base) past
        (stepNotify ⟨control, base, w⟩ o v (x :: rest)) (c.Done seen pending w.heap) := by
      obtain hx | hx | ⟨k, g, l, rest', hs, hx, hg, hmem⟩ := hL x List.mem_cons_self
      · exact ih m hm _ _ _ _ _ _ _ hx ha
      · obtain ⟨rfl, rfl⟩ := hx
        obtain ⟨told, hr⟩ := ha.live.follows.root_mem
        exact ha.tell hK hp ih hm hr hv
      · subst hx
        by_cases he : g = w.heap.generation l
        · subst he
          obtain ⟨told, hr⟩ := ha.live.complete o k l rest' hs (Nat.zero_le _) (hmem rfl)
          exact ha.tell hK hp ih hm hr hv
        · -- of a past generation
          refine .leads_lt (.one id (step_inner_late (fun hg' => he hg'.symm) v)) fun _ _ => .pass ?_
          exact (ha.late hs he rfl).done (by simp)
    refine .call (List.suffix_refl _) htell ?_
    rintro past' signal w' ⟨-, ⟨regs', v', ha'⟩, ho⟩
    refine .back fun k hk => ?_
    refine (ihL k (Nat.lt_trans hk hm) _ w' regs' v' _ (ha'.one (silent_pass signal))
      (fun y hy => (hL y (List.mem_cons_of_mem _ hy)).mono ho) fun b hb => ?_).mono
      fun _ _ _ hd => hd.after ho
    rw [ho.objects]
    exact hv b hb

/-- One of the two rounds of an announcement. -/
theorem Attached.round (ha : c.Attached seen past pending w regs u) (hm : m < n) (t : Timing)
    (p : String) (hv : ∀ b, v = .object b → b < w.heap.objects.size) (control : Control F C)
    (base : List (Frame F C)) :
    Keeps K State.Valid m base past
      (stepNotify ⟨control, base, w⟩ o v (w.heap.handlersFor o t p)) (c.Done seen pending w.heap) := by
  refine Attached.notify hK hp ih _ m hm past w regs u control ha (fun x hx => ?_) hv
  exact ha.known ((Heap.mem_handlersFor ..).1 hx).2.1

/-- A property is assigned. -/
theorem Attached.set (ha : c.Attached seen past pending w regs u) (p : String) :
    Keeps K State.Valid n base past ⟨.run (.set o p v), base, w⟩ (c.Done seen pending w.heap) := by
  have hside : c.Aside (.run (.set o p v) : Control F C) := trivial
  refine .go id fun hvalid m hm => ?_
  obtain ⟨ho, hv⟩ : (⟨o, p, v⟩ : Assignment).Valid w.heap := hvalid
  rw [State.step_set]
  split
  · exact .pass ((ha.one hside.silent).done (by simp))
  have hleave : c.Leaves w.heap (w.heap.put o p v) := leaves_put _ _ _ _
  have hsize : (w.heap.put o p v).objects.size = w.heap.objects.size := Heap.size_put _ _ _ _
  have ha₁ : c.Attached seen (past ++ [⟨.run (.set o p v), base, w⟩]) pending
      ⟨w.heap.put o p v, w.client⟩ regs u :=
    (ha.passes ⟨w.heap.put o p v, w.client⟩ hleave (ha.tidy.put ho hv) rfl).one hside.silent
  have hold : ∀ b, w.heap.get o p = .object b → b < (w.heap.put o p v).objects.size := by
    intro b hb
    rw [hsize]
    exact ha.tidy.closed o p b hb
  -- the round before the change
  refine .call (f := .announcing o p (w.heap.get o p) v) (suffix_notify ⟨_, _, _⟩ _ _ _)
    (ha₁.round hK hp ih hm .before p hold _ _) ?_
  rintro past₂ signal₂ w₂ ⟨-, ⟨regs₂, u₂, ha₂⟩, ho₂⟩
  refine .back fun k hk => ?_
  have hv₂ : ∀ b, v = .object b → b < w₂.heap.objects.size := by
    intro b hb
    rw [ho₂.objects, hsize]
    exact hv b hb
  -- and the round after it
  refine .call (f := .changed o (w.heap.get o p) v) (suffix_notify ⟨_, _, _⟩ _ _ _)
    ((ha₂.one (silent_pass signal₂)).round hK hp ih (Nat.lt_trans hk hm) .after p hv₂ _ _) ?_
  rintro past₃ signal₃ w₃ ⟨-, ⟨regs₃, u₃, ha₃⟩, ho₃⟩
  refine .back fun _ _ => .pass ?_
  exact ((ha₃.one (silent_pass signal₃)).done (by simp)).after
    ((Onward.of_leaves hleave).trans (ho₂.trans ho₃))

end Steps

/-- Whatever others do leaves the chain attached. -/
theorem endures (hK : K.Assigns seen c.code) (hp : ∀ s ∈ c.segments, s.property ≠ "") (n : Nat) :
    c.Endures K seen n := by
  induction n using Nat.strongRecOn with
  | _ n ih =>
    intro pending past base control w regs v hc ha
    cases control with
    | run command =>
      cases command with
      | deliver x u => exact ha.deliver hK ih hc u
      | set o p u => exact ha.set hK hp ih p
      | write root p u => exact ha.write ih root p u
      | subscribe x y => exact ha.subscribe ih hc.1 hc.2
      | subscribeAll members rest => exact ha.subscribeAll ih members hc
      | schedule i task =>
        cases task with
        | deliver gate x u => exact ha.schedule ih hc u
        | _ => exact hc.elim
      | _ => exact hc.elim
    | resume x signal => exact ha.resume hK ih hc
    | pass signal => exact .pass (ha.done hc)
    | panic message => exact hc.elim

end DataBinding.Chain
