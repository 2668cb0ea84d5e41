import DataBinding.Proofs.Chain.Subscribe
import DataBinding.Proofs.Reentrant.Assign
/-!
# Sessions in which others make changes

A world is busy for a code that is about to observe a path when all code makes assignments at most, of
its own accord or when it is told of a change (`World.Busy`). Wherever a run of commands ends that starts
with a subscription to a path, the chain is attached (`Path.attached`).
-/

namespace DataBinding

variable {F C S : Type}

/-- What receives the values delivers them to other code than this, or writes them. -/
def Observer.Foreign (code : C) : Observer F C → Prop
  | .client other => other ≠ code
  | .write .. => True
  | _ => False

/-- The command is an assignment, or a subscription by others. -/
def Command.Foreign (code : C) : Command F C → Prop
  | .set .. | .write .. => True
  | .subscribe x y => x.Plain ∧ y.Foreign code
  | .subscribeAll _ rest => ∀ p ∈ rest, p.1.Plain ∧ p.2.Foreign code
  | _ => False

/-- All code makes assignments at most, and `code`, which no handler delivers to yet, notes each value it
is given. Objects hold existing objects. -/
structure World.Busy (K : Client F C S) (seen : S → List Value) (code : C) (w : World F C S) :
    Prop where
  client : K.Assigns seen code
  numbered : w.heap.Numbered
  closed : w.heap.Closed
  others : ∀ o, ∀ x ∈ w.heap.handlers o, x.observer.Scoped w.heap ∧ x.observer.code? ≠ some code

open State

namespace Chain

variable {c : Chain C} {K : Client F C S} {seen : S → List Value} {past trace : List (State F C S)}
  {w w' : World F C S} {regs : List (Registration F C)} {v : Value} {command : Command F C}
  {commands : List (Command F C)}

theorem spares_of_foreign {x : Observer F C} (hx : x.Foreign c.code) : c.Spares x := by
  cases x with
  | client other => exact hx
  | write root p => trivial
  | _ => exact hx.elim

theorem aside_of_foreign (h : command.Foreign c.code) : c.Aside (.run command) := by
  cases command with
  | set o p v => trivial
  | write root p v => trivial
  | subscribe x y => exact ⟨h.1, spares_of_foreign h.2⟩
  | subscribeAll members rest => exact fun p hp => ⟨(h p hp).1, spares_of_foreign (h p hp).2⟩
  | _ => exact h.elim

/-- Commands of others one after the other leave the chain attached. -/
theorem Attached.traces (hK : K.Assigns seen c.code) (hp : ∀ s ∈ c.segments, s.property ≠ "")
    (h : w.Traces K commands trace w') (hc : ∀ command ∈ commands, command.Foreign c.code)
    (hv : ∀ s ∈ trace, s.Valid) (ha : c.Attached seen past [] w regs v) :
    ∃ regs' v', c.Attached seen (past ++ trace) [] w' regs' v' := by
  induction h generalizing past regs v with
  | nil => exact ⟨regs, v, by rwa [List.append_nil]⟩
  | @cons w command l signal w₁ rest l' w₂ he _ ih =>
    obtain ⟨hc, hrest⟩ := List.forall_mem_cons.1 hc
    obtain ⟨signal', w', heq, -, ⟨regs', v', ha'⟩, -⟩ := endures hK hp l.length [] past []
      (.run command) w regs v (aside_of_foreign hc) ha l _ (Nat.le_refl _) he
      fun s hs => hv s (List.mem_append_left _ hs)
    cases heq
    rw [← List.append_assoc]
    exact ih hrest (fun s hs => hv s (List.mem_append_right _ hs)) ha'

end Chain

namespace Path

variable {K : Client F C S} {seen : S → List Value} {code : C} {t : Timing} {w w' : World F C S}
  {p : Path} {root : ObjectId} {trace : List (State F C S)} {commands : List (Command F C)}

/-- A subscription to a path that comes to an end leaves its chain attached. -/
theorem keeps_subscribe (hw : w.Busy K seen code) (hp : ∀ s ∈ p.segments, s.property ≠ "")
    (hroot : root < w.heap.objects.size) (hheld : Node.object root ∈ K.refs w.client)
    (n : Nat) (base : List (Frame F C)) (past : List (State F C S)) :
    Keeps K State.Valid n base past ⟨.run (.subscribe (p.stream t root) (.client code)), base, w⟩
      fun past _ w' => ∃ regs v, (p.chain t root w.heap code).Attached seen past [] w' regs v := by
  obtain ⟨c, hc⟩ : ∃ c, c = p.chain t root w.heap code := ⟨_, rfl⟩
  have hfresh : ∀ o, ∀ x ∈ w.heap.handlers o, x.observer.code? ≠ some code :=
    fun o x hx => (hw.others o x hx).2
  have hspares : ∀ o, ∀ x ∈ w.heap.handlers o, (p.chain t root w.heap code).Spares x.observer :=
    fun o x hx => spares_of_scoped (hw.others o x hx).1 (hw.others o x hx).2
  have hp' : ∀ s ∈ c.segments, s.property ≠ "" := by
    rw [hc, segments_chain]
    exact hp
  have hcode : c.code = code := by rw [hc]; rfl
  have hK : K.Assigns seen c.code := hcode ▸ hw.client
  obtain ⟨l, hl, hd⟩ := leads_subscribe base w.heap t code (hp _ List.mem_cons_self) hheld
  rw [← hc] at hl ⊢
  refine .leads hl (.call_above (List.suffix_append _ _) (List.suffix_cons _ _) (R := fun past signal w' =>
    (∃ t, signal = .subscription t) ∧ ∃ regs v, c.Attached seen past [] w' regs v) ?_ ?_)
  -- the links are followed from what the root holds
  · have hf : c.Following seen (past ++ l ++ [⟨.run (.deliver (c.observer c.links)
        (w.heap.get root p.root.property)), .subscribed (c.observer c.links)
          (.handler root (w.heap.nextHandler root)) :: (c.links.map (.opening ·.switch) ++ base),
        p.withRoot t root w.heap code, w.client⟩]) [] ⟨p.withRoot t root w.heap code, w.client⟩
        c.links [⟨root, c.rootHandler, w.heap.get root p.root.property⟩]
        (w.heap.get root p.root.property) := by
      rw [hc]
      refine ⟨live_withRoot hroot hfresh _, tidy_withRoot hw.numbered hw.closed hroot hfresh hspares,
        fun r hr => ?_, fun u hu => ?_⟩
      · obtain rfl := List.mem_singleton.1 hr
        exact .here (.subscribed (x := (p.chain t root w.heap code).rootHandler))
      · rw [remembered_withRoot] at hu
        cases hu
    refine .call (List.suffix_refl _) (hf.deliver hK hp' c.links n _ _ _ _ _ _
      (fun m _ => Chain.endures hK hp' m) fun o ho => ?_) ?_
    · refine .get (o := root) ⟨root, .inr ⟨_, List.mem_cons_self, fun h => ?_⟩, ?_, .refl⟩
        ((get_withRoot ..).trans ho)
      · simp [Frame.refs, Frame.refs.owner]
      · rw [grows_withRoot.objects]
        exact hroot
    · rintro past' signal w' ⟨-, ⟨regs, v, ha⟩, -⟩
      exact .back fun _ _ => .pass ⟨⟨_, rfl⟩, regs, v, ha.one (Chain.silent_pass signal)⟩
  · rintro past' _ w' ⟨⟨teardown, rfl⟩, regs, v, ha⟩
    obtain ⟨l', t', hl', hd'⟩ := leads_opened K base c.links teardown w'
    exact .leads hl' (.pass ⟨regs, v, ha.more l' (Chain.silent_of_not_delivers hd')⟩)

/-- Wherever a session ends, the chain of a path that was subscribed to is attached. -/
theorem attached (hw : w.Busy K seen code) (hp : ∀ s ∈ p.segments, s.property ≠ "")
    (hroot : root < w.heap.objects.size) (hheld : Node.object root ∈ K.refs w.client)
    (hc : ∀ command ∈ commands, command.Foreign code)
    (h : w.Traces K (.subscribe (p.stream t root) (.client code) :: commands) trace w')
    (hv : ∀ s ∈ trace, s.Valid) :
    ∃ regs v, (p.chain t root w.heap code).Attached seen trace [] w' regs v := by
  cases h with
  | @cons _ _ l signal w₁ _ l' _ he hrest =>
    obtain ⟨signal', w', heq, regs, v, ha⟩ := keeps_subscribe hw hp hroot hheld l.length [] [] l _
      (Nat.le_refl _) he fun s hs => hv s (List.mem_append_left _ hs)
    cases heq
    have hp' : ∀ s ∈ (p.chain t root w.heap code).segments, s.property ≠ "" := by
      rw [segments_chain]
      exact hp
    exact ha.traces hw.client hp' hrest hc fun s hs => hv s (List.mem_append_right _ hs)

end Path

end DataBinding
