import DataBinding.Proofs.Announced.Changes
import DataBinding.Proofs.Heap.Tapped
import DataBinding.Proofs.Quiet.Session
/-!
# Writing through a path

Reading goes along a path as a watch does, writing follows the properties one by one to the owner of the last
segment. On a path of named properties both come to the same object, or neither to any: the one that the links
lead to (`Heap.LeadsTo`).

`State.write_touches_one`: so a write through a path compares with the value that is read at its end, stores
where that is read, and touches nothing else. What is read afterwards is the value written, unless the property
is itself one of the links: then the path leads elsewhere from now on.
-/

namespace DataBinding

variable {F C S : Type}

namespace Path

/-- The segments that lead to the owner of the last one. -/
def linksToOwner (p : Path) : List Segment := p.segments.dropLast

theorem segments_eq (p : Path) : p.segments = p.linksToOwner ++ [p.leaf] := by
  have hsplit : ∀ (root : Segment) (links : List Segment),
      root :: links = (root :: links).dropLast ++ [links.getLastD root] := by
    intro root links
    induction links generalizing root with
    | nil => rfl
    | cons s rest ih =>
      rw [List.dropLast_cons_cons, List.cons_append, List.getLastD_cons, ← ih s]
  exact hsplit p.root p.links

/-- The names of the links, and that of the last segment. -/
theorem named_iff (p : Path) :
    (∀ s ∈ p.segments, s.property ≠ "") ↔ (∀ s ∈ p.linksToOwner, s.property ≠ "") ∧ p.leaf.property ≠ "" := by
  rw [p.segments_eq, List.forall_mem_append, List.forall_mem_singleton]

end Path

namespace Heap

/-- Properties with the names of the segments lead from one object to another. -/
inductive LeadsTo (h : Heap F C) : ObjectId → List Segment → ObjectId → Prop
  | here {o} : LeadsTo h o [] o
  | on {o s a rest b} : h.get o s.property = .object a → LeadsTo h a rest b → LeadsTo h o (s :: rest) b

variable {h : Heap F C} {root o b : ObjectId} {p : Path} {l : List Segment} {v : Value}

/-- Writing follows the properties. -/
theorem follow_eq_some_iff : h.follow o l = some b ↔ h.LeadsTo o l b := by
  constructor
  · intro hf
    induction l generalizing o with
    | nil =>
      cases hf
      exact .here
    | cons s rest ih =>
      unfold follow at hf
      split at hf
      · next a ha => exact .on ha (ih hf)
      · cases hf
  · intro hl
    induction hl with
    | here => rfl
    | on ha _ ih =>
      rw [follow, ha]
      exact ih

/-- Reading goes on from what has been read so far. -/
theorem readFrom_append (h : Heap F C) (v : Value) (l l' : List Segment) :
    h.readFrom v (l ++ l') = h.readFrom (h.readFrom v l) l' := by
  induction l generalizing v with
  | nil => rfl
  | cons s rest ih => rw [List.cons_append, readFrom_cons, ih, ← readFrom_cons]

/-- Reading comes to the object that the properties lead to, if they have names. -/
theorem LeadsTo.readFrom (hl : h.LeadsTo o l b) (hn : ∀ s ∈ l, s.property ≠ "") :
    h.readFrom (.object o) l = .object b := by
  induction hl with
  | here => rfl
  | @on o s a rest b ha _ ih =>
    obtain ⟨hs, hrest⟩ := List.forall_mem_cons.1 hn
    have hread : h.read o s.property = .object a := by simpa [read, hs] using ha
    rw [Heap.readFrom, hread, ih hrest]

/-- Where a write goes. -/
theorem target?_eq_some_iff (hn : p.leaf.property ≠ "") {q : String} :
    h.target? root p = some (o, q) ↔ h.LeadsTo root p.linksToOwner o ∧ q = p.leaf.property := by
  have hany : p.leaf.isAny = false := by simpa [Segment.isAny] using hn
  rw [target?, hany, ← follow_eq_some_iff, Path.linksToOwner]
  simp [@eq_comm _ q]

/-- What is read at the end of a path is a property of the object that the links lead to. -/
theorem LeadsTo.readPath (hl : h.LeadsTo root p.linksToOwner o) (hn : ∀ s ∈ p.segments, s.property ≠ "") :
    h.readPath root p = h.get o p.leaf.property := by
  obtain ⟨hlinks, hleaf⟩ := p.named_iff.1 hn
  rw [Heap.readPath, p.segments_eq, readFrom_append, hl.readFrom hlinks]
  simp [Heap.readFrom, read, hleaf]

/-- What has been put at the end of a path is read there, unless it was put into one of the links. -/
theorem LeadsTo.readPath_put (hl : h.LeadsTo root p.linksToOwner o) (hn : ∀ s ∈ p.segments, s.property ≠ "")
    (ho : o < h.objects.size) (hlink : (o, p.leaf.property) ∉ h.readsFrom (.object root) p.linksToOwner) :
    (h.put o p.leaf.property v).readPath root p = v := by
  obtain ⟨hlinks, hleaf⟩ := p.named_iff.1 hn
  -- what the links read is not what has been put, so they lead to the same object
  have hsame : (h.put o p.leaf.property v).readFrom (.object root) p.linksToOwner = .object o := by
    rw [readFrom_of_readsFrom _ hlinks, hl.readFrom hlinks]
    rintro ⟨a, q⟩ hx
    rw [get_put _ _ _ _ _ _ ho, if_neg]
    rintro ⟨rfl, rfl⟩
    exact hlink hx
  rw [Heap.readPath, p.segments_eq, readFrom_append, hsame]
  simp [Heap.readFrom, read, hleaf, get_put _ _ _ _ _ _ ho]

end Heap

namespace State

variable {K : Client F C S} {base : List (Frame F C)} {w : World F C S} {root o : ObjectId} {p : Path} {q : String}
  {v : Value}

/-- If there are no handlers, a change is stored and that is all. -/
theorem exists_ends_set_unheard (hh : ∀ a, w.heap.handlers a = []) (he : (w.heap.get o q).eqv v = false) :
    ∃ l, Ends K base ⟨.run (.set o q v), base, w⟩ l
      ⟨.pass (.flag true), base, w.withHeap (w.heap.put o q v)⟩ := by
  have hdue : ∀ t, (w.heap.put o q v).due o t q = [] := by
    intro t
    unfold Heap.due
    rw [Heap.handlers_put, hh]
    split <;> rfl
  have hstep : step K ⟨.run (.set o q v), base, w⟩ = _ := step_set_other he
  rw [Heap.handlersFor_eq_due] at hstep
  -- so either round of handlers is over at once
  have hround : ∀ (f : Frame F C) u t, Round K (f :: base) o u (w.withHeap (w.heap.put o q v))
      ((w.heap.put o q v).due o t q) [] none (w.withHeap (w.heap.put o q v)) := by
    intro f u t
    rw [hdue]
    exact .ended
  have hmade : Announcement K base o q (w.heap.get o q) v (w.withHeap (w.heap.put o q v)) _ _ :=
    .made (hround _ _ .before) (hround _ _ .after)
  exact ⟨_, .step False.elim (hstep ▸ hmade.ends (.pass .done))⟩

/-- **Writing through a path touches one property.** If the links of a path of named properties lead to no object,
a write answers that nothing has changed, and nothing has. If they lead to an object, what is read at the end of
the path is its property; the write answers whether this differs from the value written, and if so, stores the
value there and nowhere else. Then it is the value that is read, unless it was stored in one of the links. -/
theorem write_touches_one (hc : w.heap.Closed) (hr : root < w.heap.objects.size)
    (hh : ∀ a, w.heap.handlers a = []) (hn : ∀ s ∈ p.segments, s.property ≠ "") (v : Value)
    (base : List (Frame F C)) :
    ((∀ o, ¬ w.heap.LeadsTo root p.linksToOwner o) →
      ∃ l, Ends K base ⟨.run (.write root p v), base, w⟩ l ⟨.pass (.flag false), base, w⟩) ∧
    ∀ o, w.heap.LeadsTo root p.linksToOwner o →
      w.heap.readPath root p = w.heap.get o p.leaf.property ∧
      ((w.heap.readPath root p).eqv v = true →
        ∃ l, Ends K base ⟨.run (.write root p v), base, w⟩ l ⟨.pass (.flag false), base, w⟩) ∧
      ((w.heap.readPath root p).eqv v = false →
        ∃ l, Ends K base ⟨.run (.write root p v), base, w⟩ l
            ⟨.pass (.flag true), base, w.withHeap (w.heap.put o p.leaf.property v)⟩ ∧
          (∀ a q, (w.heap.put o p.leaf.property v).get a q =
            if a = o ∧ q = p.leaf.property then v else w.heap.get a q) ∧
          ((o, p.leaf.property) ∉ w.heap.readsFrom (.object root) p.linksToOwner →
            (w.heap.put o p.leaf.property v).readPath root p = v)) := by
  obtain ⟨-, hleaf⟩ := p.named_iff.1 hn
  constructor
  · intro hnone
    have htarget : w.heap.target? root p = none :=
      Option.eq_none_iff_forall_ne_some.2 fun x hx => hnone x.1 ((Heap.target?_eq_some_iff hleaf).1 hx).1
    exact ⟨_, (Leads.one id (step_write_none htarget)).ends (.answer trivial rfl)⟩
  · intro o hl
    have htarget : w.heap.target? root p = some (o, p.leaf.property) := (Heap.target?_eq_some_iff hleaf).2 ⟨hl, rfl⟩
    have ho : o < w.heap.objects.size := hc.follow_lt hr (Heap.follow_eq_some_iff.2 hl)
    have hread : w.heap.readPath root p = w.heap.get o p.leaf.property := hl.readPath hn
    refine ⟨hread, fun he => ?_, fun he => ?_⟩
    · rw [hread] at he
      have hlead : Leads K base ⟨.run (.write root p v), base, w⟩ _ ⟨.pass (.flag false), base, w⟩ :=
        (Leads.one id (step_write_some htarget)).trans (.one id (step_set_same he))
      exact ⟨_, hlead.ends (.answer trivial rfl)⟩
    · rw [hread] at he
      obtain ⟨l, hset⟩ : ∃ l, Ends K base ⟨.run (.set o p.leaf.property v), base, w⟩ l _ :=
        exists_ends_set_unheard hh he
      exact ⟨_, (Leads.one id (step_write_some htarget)).ends hset,
        fun a q => Heap.get_put w.heap o a _ q v ho, hl.readPath_put hn ho⟩

end State

/-! ## Two friends -/

/-- Two persons, each the friend of the other. -/
def Heap.friends : Heap Empty Unit :=
  { Heap.empty with objects := #[
      ⟨"Person", .full, [("Friend", .object 1), ("Name", .text "Ann")], [], 0⟩,
      ⟨"Person", .full, [("Friend", .object 0), ("Name", .text "Bob")], [], 0⟩] }

/-- A property of the friend of a person's friend. -/
def Path.ofFriendOfFriend (property type : String) : Path where
  root := ⟨"Friend", ⟨"Person", false⟩, ⟨"Person", false⟩⟩
  links := [⟨"Friend", ⟨"Person", false⟩, ⟨"Person", false⟩⟩, ⟨property, ⟨type, false⟩, ⟨"Person", false⟩⟩]
  linked := ⟨rfl, rfl, trivial⟩

namespace Heap

theorem handlers_friends (o : ObjectId) : friends.handlers o = [] := by
  rcases o with _ | _ | o <;> rfl

theorem closed_friends : friends.Closed := by
  intro o q b hb
  have htwo : ∀ x y : Value, (List.lookup q [("Friend", x), ("Name", y)]).getD .null ∈ [.null, x, y] := by
    intro x y
    cases hf : q == "Friend" <;> cases hn : q == "Name" <;> simp [List.lookup_cons, hf, hn]
  have hmem : friends.get o q ∈ [.null, .object 0, .object 1, .text "Ann", .text "Bob"] := by
    rcases o with _ | _ | o
    · exact (show [_, _, _] ⊆ _ by simp) (htwo (.object 1) (.text "Ann"))
    · exact (show [_, _, _] ⊆ _ by simp) (htwo (.object 0) (.text "Bob"))
    · exact List.mem_cons_self
  rw [hb] at hmem
  obtain rfl | rfl : b = 0 ∨ b = 1 := by simpa using hmem
  · exact Nat.zero_lt_succ _
  · exact Nat.one_lt_succ_succ _

end Heap

/-- The friend of one's friend is oneself. -/
theorem World.own_name_written :
    (∃ l, State.Ends (Client.recorder []) [] (World.start ⟨.friends, []⟩
        (.write 0 (.ofFriendOfFriend "Name" "string") (.text "Ada"))) l
      ⟨.pass (.flag true), [], ⟨Heap.friends.put 0 "Name" (.text "Ada"), []⟩⟩) ∧
    (Heap.friends.put 0 "Name" (.text "Ada")).readPath 0 (.ofFriendOfFriend "Name" "string") =
      .text "Ada" := by
  have hl : Heap.friends.LeadsTo 0 (Path.ofFriendOfFriend "Name" "string").linksToOwner 0 := .on rfl (.on rfl .here)
  obtain ⟨-, -, hchanged⟩ := (State.write_touches_one (K := Client.recorder []) (w := ⟨.friends, []⟩)
    Heap.closed_friends (show 0 < 2 by decide) Heap.handlers_friends (p := .ofFriendOfFriend "Name" "string")
    (by decide) (.text "Ada") []).2 0 hl
  obtain ⟨l, hends, -, hread⟩ := hchanged rfl
  exact ⟨⟨l, hends⟩, hread (by decide)⟩

/-- A link of the path itself has been written, and nothing more is read. -/
example : (Heap.friends.put 0 "Friend" (.text "Ada")).readPath 0
    (.ofFriendOfFriend "Friend" "Person") = .null := rfl

end DataBinding
