import DataBinding.Proofs.Chain.Subscribe
import DataBinding.Proofs.Machine.Sessions
import DataBinding.Proofs.Quiet.Assign
/-!
# Sessions in which others only look on

A world is quiet for a code that is about to observe a path when its handlers are in order and all of
them deliver to code that looks on (`World.Quiet`). There a subscription to a path ends with a live
chain that has followed the path once (`Path.subscribe`).
-/

namespace DataBinding

variable {F C S : Type}

/-- Observers deliver to code that notes nothing, and `code`, which none of them delivers to, notes each
value it is given. Objects hold existing objects and tell of changes with this timing. -/
structure World.Quiet (K : Client F C S) (seen : S → List Value) (code : C) (t : Timing)
    (w : World F C S) : Prop where
  pure : K.Pure seen
  notes : K.Notes seen code fun v => [v]
  numbered : w.heap.Numbered
  closed : w.heap.Closed
  others : ∀ o, ∀ x ∈ w.heap.handlers o, x.observer.Scoped w.heap ∧
    ∃ other, x.observer.code? = some other ∧ other ≠ code ∧ K.Notes seen other fun _ => []
  supports : ∀ o < w.heap.objects.size, w.heap.supports o t = true

namespace Path

variable {K : Client F C S} {seen : S → List Value} {code : C} {t : Timing} {w : World F C S}
  {p : Path} {root : ObjectId}

open State

/-- Subscribing to a path: its root is watched and its links are followed to the end. -/
theorem subscribe (hw : w.Quiet K seen code t) (hp : ∀ s ∈ p.segments, s.property ≠ "")
    (hroot : root < w.heap.objects.size) (hheld : Node.object root ∈ K.refs w.client)
    (base : List (Frame F C)) :
    Completes K base ⟨.run (.subscribe (p.stream t root) (.client code)), base, w⟩
      fun signal w' => (∃ teardown, signal = .subscription teardown) ∧
        ∃ new, (p.chain t root w.heap code).Followed seen
          ((p.chain t root w.heap code).Onlooker K seen) [] (p.chain t root w.heap code).links
          [⟨root, (p.chain t root w.heap code).rootHandler, w.heap.get root p.root.property⟩] new
          (w.heap.get root p.root.property) ⟨p.withRoot t root w.heap code, w.client⟩ w' := by
  have hfresh : ∀ o, ∀ x ∈ w.heap.handlers o, x.observer.code? ≠ some code := fun o x hx hc => by
    obtain ⟨-, other, ho, hne, -⟩ := hw.others o x hx
    exact hne (Option.some.inj (ho.symm.trans hc))
  have hothers : ∀ o, ∀ x ∈ w.heap.handlers o,
      (p.chain t root w.heap code).Onlooker K seen x.observer := fun o x hx => by
    obtain ⟨hs, other, ho, -, hn⟩ := hw.others o x hx
    exact ⟨spares_of_scoped hs (hfresh o x hx), other, ho, hn⟩
  obtain ⟨l, hl, -⟩ := leads_subscribe base w.heap t code (hp _ List.mem_cons_self) hheld
  refine .leads hl (.call_above (List.suffix_append _ _) (List.suffix_cons _ _)
    (R := fun signal w' => (∃ teardown, signal = .subscription teardown) ∧ ∃ new,
      (p.chain t root w.heap code).Followed seen ((p.chain t root w.heap code).Onlooker K seen) []
        (p.chain t root w.heap code).links
        [⟨root, (p.chain t root w.heap code).rootHandler, w.heap.get root p.root.property⟩] new
        (w.heap.get root p.root.property) ⟨p.withRoot t root w.heap code, w.client⟩ w') ?_ ?_)
  · refine .call (List.suffix_refl _) (Chain.delivers hw.notes (by simpa using hp) _ [] _ _ _ _
      (live_withRoot hroot hfresh _) (tidy_withRoot hw.numbered hw.closed hroot hfresh hothers)
      fun o ho => ?_) fun _ w' ⟨new, hc⟩ => .back (.pass ⟨⟨_, rfl⟩, new, hc.toFollowed⟩)
    refine .get (o := root) ⟨root, .inr ⟨_, List.mem_cons_self, fun h => ?_⟩, ?_, .refl⟩
      ((get_withRoot ..).trans ho)
    · simp [Frame.refs, Frame.refs.owner]
    · rw [grows_withRoot.objects]
      exact hroot
  · rintro _ w' ⟨⟨teardown, rfl⟩, hf⟩
    obtain ⟨l', t', hl', -⟩ :=
      leads_opened K base (p.chain t root w.heap code).links teardown w'
    exact .leads hl' (.pass ⟨⟨t', rfl⟩, hf⟩)

end Path

/-! ## A person and addresses -/

/-- Code that notes each value it is given, of a client that holds these things. -/
def Client.recorder (held : List Node) : Client Empty Unit (List Value) where
  apply := nofun
  resume
    | _, .value v, w => (⟨w.heap, w.client ++ [v]⟩, .finish)
    | _, _, w => (w, .finish)
  functionRefs := nofun
  codeRefs _ := []
  refs _ := held

/-- Three addresses in one city, and a person at the first of them. -/
def Heap.homes : Heap F C :=
  { Heap.empty with objects := #[
      ⟨"Address", .full, [("City", .text "Oslo")], [], 0⟩,
      ⟨"Address", .full, [("City", .text "Oslo")], [], 0⟩,
      ⟨"Address", .full, [("City", .text "Oslo")], [], 0⟩,
      ⟨"Person", .full, [("Address", .object 0)], [], 0⟩] }

/-- The city of a person's address. -/
def Path.city : Path where
  root := ⟨"Address", ⟨"Address", false⟩, ⟨"Person", false⟩⟩
  links := [⟨"City", ⟨"string", false⟩, ⟨"Address", false⟩⟩]
  linked := by decide

namespace Heap

theorem handlers_homes (o : ObjectId) : (homes : Heap F C).handlers o = [] := by
  rcases o with _ | _ | _ | _ | o <;> rfl

theorem get_homes (o : ObjectId) (p : String) : (homes : Heap F C).get o p = .null ∨
    (homes : Heap F C).get o p = .text "Oslo" ∨ (homes : Heap F C).get o p = .object 0 := by
  have hone : ∀ q (v : Value), (List.lookup p [(q, v)]).getD .null = .null ∨
      (List.lookup p [(q, v)]).getD .null = v := fun q v => by
    cases hq : p == q <;> simp [List.lookup_cons, hq]
  rcases o with _ | _ | _ | _ | o
  · exact (hone "City" (.text "Oslo")).imp_right .inl
  · exact (hone "City" (.text "Oslo")).imp_right .inl
  · exact (hone "City" (.text "Oslo")).imp_right .inl
  · exact (hone "Address" (.object 0)).imp_right .inr
  · exact .inl rfl

theorem eqv_homes (o : ObjectId) (p : String) :
    ((homes : Heap F C).get o p).eqv ((homes : Heap F C).get o p) = true := by
  obtain he | he | he := get_homes (F := F) (C := C) o p <;> rw [he] <;> rfl

theorem numbered_homes : (homes : Heap F C).Numbered where
  sorted o := by simp [handlers_homes]
  below o := by simp [handlers_homes]
  undoes _ := trivial

theorem closed_homes : (homes : Heap F C).Closed := by
  intro o p b hb
  obtain he | he | he := get_homes (F := F) (C := C) o p <;> rw [he] at hb <;> cases hb
  exact Nat.zero_lt_succ _

end Heap

theorem World.quiet_homes (held : List Node) (t : Timing) :
    World.Quiet (Client.recorder held) id () t ⟨.homes, []⟩ where
  pure := nofun
  notes _ _ := ⟨_, .finish rfl, rfl, rfl⟩
  numbered := Heap.numbered_homes
  closed := Heap.closed_homes
  others o := by simp [Heap.handlers_homes]
  supports := by cases t <;> decide

end DataBinding
