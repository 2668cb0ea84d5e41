import DataBinding.Proofs.Course.Lane
import DataBinding.Proofs.Machine.Keeps
import DataBinding.Proofs.Newest.Boards
/-!
# What has happened to a switch

The states gone through tell which streams have been pushed into the outer subject (`emitted`) and which inner
streams have been subscribed to, each with its generation (`starts`). `UpToDate` ties them to what is registered now:
the latest start is of the present generation and of the stream pushed last, and its subject is registered with,
unless it is still being subscribed to. All states before were in order (`State.InOrder`).
-/

namespace DataBinding

variable {F C S : Type}

namespace State

/-- The inner stream that is about to be subscribed to, with its generation. -/
def start? (i : Nat) (s : State F C S) : Option (Nat × Stream F) :=
  match s.control, s.frames with
  | .run (.subscribe x (.inner j g _)), .entering .. :: _ => if j = i then some (g, x) else none
  | _, _ => none

/-- The stream that is about to be pushed into the subject. -/
def emitted? (o : SubjectId) (s : State F C S) : Option StreamId :=
  match s.control with
  | .run (.next j (.stream e)) => if j = o then some e else none
  | _ => none

/-- An inner stream is about to be subscribed to. -/
abbrev beginning (i g : Nat) (x : Stream F) (code : C) (base : List (Frame F C)) (w : World F C S) : State F C S :=
  ⟨.run (.subscribe x (.inner i g (.client code))), .entering i g x :: base, w⟩

/-- Neither is anything pushed or given to client code, nor does a switch begin to subscribe. -/
def Quiet (s : State F C S) : Prop :=
  match s.control, s.frames with
  | .run (.deliver (.client _) _), _ | .run (.next ..), _ | .run (.subscribe ..), .entering .. :: _ => False
  | _, _ => True

end State

/-- The inner streams subscribed to along the way, with their generations. -/
def starts (i : Nat) (l : List (State F C S)) : List (Nat × Stream F) := l.filterMap (State.start? i)

/-- The streams pushed into the subject along the way. -/
def emitted (o : SubjectId) (l : List (State F C S)) : List StreamId := l.filterMap (State.emitted? o)

/-- Each state is so, given those before. -/
def Traced (P : List (State F C S) → State F C S → Prop) (l : List (State F C S)) : Prop :=
  ∀ l₁ x l₂, l = l₁ ++ x :: l₂ → P l₁ x

theorem Traced.nil {P : List (State F C S) → State F C S → Prop} : Traced P [] := fun _ _ _ he =>
  absurd he.symm (List.append_ne_nil_of_right_ne_nil _ (List.cons_ne_nil _ _))

theorem Traced.snoc {P : List (State F C S) → State F C S → Prop} {l : List (State F C S)} {x : State F C S}
    (h : Traced P l) (hx : P l x) : Traced P (l ++ [x]) := by
  intro l₁ y l₂ he
  rcases List.eq_nil_or_concat l₂ with rfl | ⟨l₃, z, rfl⟩
  · obtain ⟨rfl, hxy⟩ := List.append_inj' he rfl
    cases hxy
    exact hx
  · rw [List.concat_eq_append, ← List.cons_append, ← List.append_assoc] at he
    exact h l₁ y l₃ (List.append_inj' he rfl).1

/-- The generation of the inner stream that is being subscribed to. -/
def Frame.entering? (i : Nat) : Frame F C → Option Nat
  | .entering j g _ => if j = i then some g else none
  | _ => none

/-- The generations of the inner streams that are being subscribed to, innermost first. -/
def pending (i : Nat) (fs : List (Frame F C)) : List Nat := fs.filterMap (Frame.entering? i)

/-- A value for the code comes from the inner stream subscribed to last, and the switch is registered with its subject,
unless the stream is still being subscribed to. -/
structure State.InOrder (i : Nat) (code : C) (past : List (State F C S)) (x : State F C S) : Prop where
  delivered : ∀ v, x.control = .run (.deliver (.client code) v) → ∃ past' y g u, past = past' ++ [y] ∧
    y.control = .run (.deliver (.inner i g (.client code)) v) ∧ (starts i past).getLast? = some (g, u)
  heard : ∀ j v g u, x.control = .run (.next j v) → (starts i past).getLast? = some (g, u) → u.Flows j →
    x.world.heap.observers j = (if g ∈ pending i x.frames then [] else [.inner i g (.client code)]) ∧
      (x.world.heap.switch i).generation = g ∧ (x.world.heap.switch i).stopped = false

/-- The inner streams that are being subscribed to are of ever later generations, up to the present one; that is no
longer among them when there is a registration. -/
structure Nested (i : Nat) (fs : List (Frame F C)) (g : Nat) (r : Option (SubjectId × Nat)) : Prop where
  sorted : (pending i fs).Pairwise (· > ·)
  le : ∀ g' ∈ pending i fs, g' ≤ g
  done : r ≠ none → g ∉ pending i fs

/-- What has happened fits what is registered: `g` is the generation and `r` the registration of the latest inner
stream. -/
structure UpToDate (i : Nat) (o : SubjectId) (code : C) (past : List (State F C S)) (base : List (Frame F C))
    (h : Heap F C) (g : Nat) (r : Option (SubjectId × Nat)) : Prop where
  board : Board i o (.client code) h g r
  order : Traced (State.InOrder i code) past
  nested : Nested i base g r
  latest : (g = 0 ∧ r = none ∧ starts i past = [] ∧ emitted o past = []) ∨
    ∃ e j, j ≠ o ∧ (h.stream e).Flows j ∧ (emitted o past).getLast? = some e ∧
      (starts i past).getLast? = some (g, h.stream e) ∧
      ((∃ id, r = some (j, id)) ∨ r = none ∧ g ∈ pending i base)

/-- From one time to a later one generations only grow, a registration stays while its generation does, and each new
generation has one in the end. -/
structure Grows (i : Nat) (past : List (State F C S)) (g : Nat) (r : Option (SubjectId × Nat))
    (past' : List (State F C S)) (g' : Nat) (r' : Option (SubjectId × Nat)) : Prop where
  le : g ≤ g'
  same : g' = g → r' = r ∧ (starts i past').getLast? = (starts i past).getLast?
  new : g < g' → r' ≠ none

section Lists

variable {i : Nat} {o : SubjectId} {l : List (State F C S)} {s : State F C S}

theorem starts_append (l' : List (State F C S)) : starts i (l ++ l') = starts i l ++ starts i l' :=
  List.filterMap_append

theorem emitted_append (l' : List (State F C S)) : emitted o (l ++ l') = emitted o l ++ emitted o l' :=
  List.filterMap_append

theorem pending_cons {f : Frame F C} {fs : List (Frame F C)} (hf : f.entering? i = none) :
    pending i (f :: fs) = pending i fs := List.filterMap_cons_none hf

theorem pending_entering (g : Nat) (x : Stream F) (fs : List (Frame F C)) :
    pending i (.entering i g x :: fs) = g :: pending i fs := List.filterMap_cons_some (if_pos rfl)

theorem State.Quiet.start? (hs : s.Quiet) : s.start? i = none := by
  unfold State.Quiet at hs
  unfold State.start?
  split
  · next hc hf =>
    rw [hc, hf] at hs
    exact hs.elim
  · rfl

theorem State.Quiet.emitted? (hs : s.Quiet) : s.emitted? o = none := by
  unfold State.Quiet at hs
  unfold State.emitted?
  split
  · next hc =>
    rw [hc] at hs
    exact hs.elim
  · rfl

theorem State.emitted?_eq_none (hs : ∀ e, s.control ≠ .run (.next o (.stream e))) : s.emitted? o = none := by
  unfold emitted?
  split
  · next j e hc => exact if_neg fun (he : j = o) => hs e (he ▸ hc)
  · rfl

theorem getLast?_starts_beginning {g : Nat} {x : Stream F} {code : C} {base : List (Frame F C)} {w : World F C S} :
    (starts i (l ++ [.beginning i g x code base w])).getLast? = some (g, x) := by
  have hs : (State.beginning i g x code base w).start? i = some (g, x) := if_pos rfl
  simp [starts, hs]

theorem starts_quiet (hl : ∀ x ∈ l, x.Quiet) : starts i l = [] :=
  List.filterMap_eq_nil_iff.2 fun x hx => (hl x hx).start?

theorem emitted_quiet (hl : ∀ x ∈ l, x.Quiet) : emitted o l = [] :=
  List.filterMap_eq_nil_iff.2 fun x hx => (hl x hx).emitted?

theorem State.Quiet.inOrder {code : C} {past : List (State F C S)} (hs : s.Quiet) : s.InOrder i code past := by
  constructor
  · intro v hv
    simp only [Quiet, hv] at hs
  · intro j v g u hv
    simp only [Quiet, hv] at hs

theorem Traced.quiet {code : C} {past : List (State F C S)} (h : Traced (State.InOrder i code) past)
    (hl : ∀ x ∈ l, x.Quiet) : Traced (State.InOrder i code) (past ++ l) := by
  induction l generalizing past with
  | nil => rwa [List.append_nil]
  | cons x l ih =>
    obtain ⟨hx, hl⟩ := List.forall_mem_cons.1 hl
    have hrest := ih (h.snoc hx.inOrder) hl
    rwa [List.append_assoc] at hrest

end Lists

namespace Grows

variable {i : Nat} {past past' past'' : List (State F C S)} {g g' g'' : Nat} {r r' r'' : Option (SubjectId × Nat)}

theorem refl (past : List (State F C S)) (g : Nat) (r : Option (SubjectId × Nat)) : Grows i past g r past g r :=
  ⟨Nat.le_refl g, fun _ => ⟨rfl, rfl⟩, fun h => absurd h (Nat.lt_irrefl g)⟩

theorem trans (a : Grows i past g r past' g' r') (b : Grows i past' g' r' past'' g'' r'') :
    Grows i past g r past'' g'' r'' where
  le := Nat.le_trans a.le b.le
  same h := by
    have hle := a.le
    have hle' := b.le
    obtain ⟨hr, hs⟩ := a.same (by omega)
    obtain ⟨hr', hs'⟩ := b.same (by omega)
    exact ⟨hr'.trans hr, hs'.trans hs⟩
  new h := by
    rcases Nat.lt_or_eq_of_le b.le with hlt | heq
    · exact b.new hlt
    · rw [(b.same heq.symm).1]
      exact a.new (heq ▸ h)

/-- One state more, with which no inner stream is subscribed to. -/
theorem snoc {x : State F C S} (a : Grows i past g r past' g' r') (hx : x.start? i = none) :
    Grows i past g r (past' ++ [x]) g' r' where
  le := a.le
  same h := by
    have hs : starts i (past' ++ [x]) = starts i past' := by simp [starts, hx]
    rw [hs]
    exact a.same h
  new := a.new

end Grows

namespace UpToDate

variable {i : Nat} {o : SubjectId} {code : C} {past l : List (State F C S)} {base base' : List (Frame F C)}
  {h h' : Heap F C} {g : Nat} {r : Option (SubjectId × Nat)}

/-- One state more, in order, with which neither a stream is pushed nor an inner one subscribed to. -/
theorem snoc {x : State F C S} (hf : UpToDate i o code past base h g r) (hx : x.InOrder i code past)
    (hs : x.start? i = none) (he : x.emitted? o = none) : UpToDate i o code (past ++ [x]) base h g r where
  board := hf.board
  nested := hf.nested
  order := hf.order.snoc hx
  latest := by
    have hstarts : starts i (past ++ [x]) = starts i past := by simp [starts, hs]
    have hemitted : emitted o (past ++ [x]) = emitted o past := by simp [emitted, he]
    rw [hstarts, hemitted]
    exact hf.latest

theorem quiet {x : State F C S} (hf : UpToDate i o code past base h g r) (hx : x.Quiet) :
    UpToDate i o code (past ++ [x]) base h g r := hf.snoc hx.inOrder hx.start? hx.emitted?

theorem quiets (hf : UpToDate i o code past base h g r) (hl : ∀ x ∈ l, x.Quiet) :
    UpToDate i o code (past ++ l) base h g r where
  board := hf.board
  nested := hf.nested
  order := hf.order.quiet hl
  latest := by
    rw [starts_append, starts_quiet hl, List.append_nil, emitted_append, emitted_quiet hl, List.append_nil]
    exact hf.latest

/-- More is under way. -/
theorem above {f : Frame F C} (hf : UpToDate i o code past base h g r) (hn : f.entering? i = none) :
    UpToDate i o code past (f :: base) h g r where
  board := hf.board
  order := hf.order
  nested := by
    constructor <;> rw [pending_cons hn]
    exacts [hf.nested.sorted, hf.nested.le, hf.nested.done]
  latest := by
    rw [pending_cons hn]
    exact hf.latest

/-- Something under way is done, and it is no subscription to the latest inner stream. -/
theorem below {f : Frame F C} (hf : UpToDate i o code past (f :: base) h g r) (hn : f.entering? i ≠ some g) :
    UpToDate i o code past base h g r where
  board := hf.board
  order := hf.order
  nested :=
    have hsub : (pending i base).Sublist (pending i (f :: base)) := (List.sublist_cons_self f base).filterMap _
    ⟨hf.nested.sorted.sublist hsub, fun g' hg => hf.nested.le g' (hsub.subset hg),
      fun hr hg => hf.nested.done hr (hsub.subset hg)⟩
  latest := by
    refine hf.latest.imp_right fun ⟨e, j, hj, hx, he, hs, hr⟩ => ⟨e, j, hj, hx, he, hs, hr.imp_right ?_⟩
    refine fun ⟨hr, hg⟩ => ⟨hr, ?_⟩
    obtain ⟨f', hf', hgf⟩ := List.mem_filterMap.1 hg
    rcases List.mem_cons.1 hf' with rfl | hf'
    · exact absurd hgf hn
    · exact List.mem_filterMap.2 ⟨f', hf', hgf⟩

/-- Client code edits the heap. -/
theorem edits (hf : UpToDate i o code past base h g r) (he : Heap.Edits code h h') :
    UpToDate i o code past base h' g r where
  board := hf.board.edits he
  order := hf.order
  nested := hf.nested
  latest := by
    obtain ⟨-, -, -, hx, -⟩ := he.alike
    refine hf.latest.imp_right fun ⟨e, j, hj, hflows, hrest⟩ => ?_
    have heq : h'.stream e = h.stream e := hx e fun hempty => by
      rw [hempty] at hflows
      cases hflows
    exact ⟨e, j, hj, heq.symm ▸ hflows, heq.symm ▸ hrest⟩

/-- Where there is a registration, or none yet but it is being made, it is the one of the stream that was subscribed
to last. -/
theorem source {j id : SubjectId} (hf : UpToDate i o code past base h g (some (j, id))) :
    j ≠ o ∧ ∃ e, (h.stream e).Flows j ∧ (emitted o past).getLast? = some e ∧
      (starts i past).getLast? = some (g, h.stream e) := by
  rcases hf.latest with ⟨-, hr, -⟩ | ⟨e, j', hj, hx, he, hs, ⟨id', hr⟩ | ⟨hr, -⟩⟩
  · cases hr
  · cases hr
    exact ⟨hj, e, hx, he, hs⟩
  · cases hr

/-- Pushing is in order. -/
theorem inOrder_next (hf : UpToDate i o code past base h g r) (j : SubjectId) (v : Value) (k : S) :
    (⟨.run (.next j v), base, h, k⟩ : State F C S).InOrder i code past := by
  refine ⟨nofun, ?_⟩
  rintro j' v' g' u ⟨⟩ hs hu
  rcases hf.latest with ⟨-, -, hnil, -⟩ | ⟨e, j', hj, hx, -, hs', hr⟩
  · rw [hnil] at hs
    cases hs
  · rw [hs'] at hs
    cases hs
    obtain rfl := hx.unique hu
    refine ⟨?_, hf.board.generation, hf.board.running⟩
    rcases hr with ⟨id, rfl⟩ | ⟨rfl, hg⟩
    · rw [if_neg (hf.nested.done nofun)]
      exact hf.board.observers hj
    · rw [if_pos hg]
      exact hf.board.observers_of_not hj nofun

/-- A stream is pushed into the outer subject, and the switch goes on to it. -/
theorem begins {e : StreamId} {w : World F C S} {j : SubjectId} (hf : UpToDate i o code past base w.heap g r)
    (hl : ∀ x ∈ l, x.Quiet) (hb : Board i o (.client code) h (g + 1) none) (hx : (h.stream e).Flows j) (hj : j ≠ o)
    (hbase : pending i base' = pending i base) :
    UpToDate i o code (past ++ [⟨.run (.next o (.stream e)), base, w⟩] ++ l ++
        [.beginning i (g + 1) (h.stream e) code base' (w.withHeap h)])
      (.entering i (g + 1) (h.stream e) :: base') h (g + 1) none where
  board := hb
  order := ((hf.order.snoc (hf.inOrder_next o (.stream e) w.client)).quiet hl).snoc ⟨nofun, nofun⟩
  nested := by
    constructor <;> rw [pending_entering, hbase]
    · exact List.pairwise_cons.2 ⟨fun g' hg => Nat.lt_succ_of_le (hf.nested.le g' hg), hf.nested.sorted⟩
    · exact List.forall_mem_cons.2 ⟨Nat.le_refl _, fun g' hg => Nat.le_succ_of_le (hf.nested.le g' hg)⟩
    · exact fun hr => absurd rfl hr
  latest := by
    have hpush : (⟨.run (.next o (.stream e)), base, w⟩ : State F C S).emitted? o = some e := if_pos rfl
    have hbegin : emitted o [State.beginning i (g + 1) (h.stream e) code base' (w.withHeap h)] = [] := rfl
    refine .inr ⟨e, j, hj, hx, ?_, getLast?_starts_beginning, .inr ⟨rfl, ?_⟩⟩
    · rw [emitted_append, emitted_append, emitted_append, emitted_quiet hl, hbegin]
      simp [emitted, hpush]
    · rw [pending_entering]
      exact List.mem_cons_self

/-- The subscription to the latest inner stream is complete. -/
theorem entered {x : Stream F} {j : SubjectId} {t : Teardown C}
    (hf : UpToDate i o code past (.entering i g x :: base) h g none)
    (hs : (starts i past).getLast? = some (g, x)) (hx : x.Flows j) (hj : j ≠ o) (hsize : j < h.subjects.size)
    (ht : t.Unhooks j (h.nextId (.subject j))) :
    UpToDate i o code past base
      ((h.addObserver j (.inner i g (.client code))).2.setSwitch i { h.switch i with current := some t }) g
      (some (j, h.nextId (.subject j))) where
  board := hf.board.entered hj hsize ht
  order := hf.order
  nested := by
    obtain ⟨hsorted, hle, -⟩ := hf.nested
    rw [pending_entering] at hsorted hle
    obtain ⟨hlt, hsorted⟩ := List.pairwise_cons.1 hsorted
    exact ⟨hsorted, (List.forall_mem_cons.1 hle).2, fun _ hg => Nat.lt_irrefl g (hlt g hg)⟩
  latest := by
    rcases hf.latest with ⟨-, -, hnil, -⟩ | ⟨e, j', hj', hx', he, hs', -⟩
    · rw [hnil] at hs
      cases hs
    · rw [hs'] at hs
      cases hs
      obtain rfl := hx.unique hx'
      exact .inr ⟨e, j', hj, hx', he, hs', .inl ⟨_, rfl⟩⟩

/-- A subscription to an inner stream that is no longer the latest is undone. -/
theorem late {j : SubjectId} (hf : UpToDate i o code past base h g r) (hsize : j < h.subjects.size)
    (y : Observer F C) :
    UpToDate i o code past base ((h.addObserver j y).2.removeObserver j (h.nextId (.subject j))) g r :=
  ⟨hf.board.late hsize y, hf.order, hf.nested, hf.latest⟩

end UpToDate

end DataBinding
