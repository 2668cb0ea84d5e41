import Mathlib.Data.List.Chain
import DataBinding.Path
/-!
# Which segments are a path

Segments are a path if there are any and each follows the one before it (`Path.ofSegments_isOk_iff`). The walk
over a list that is no path ends at the first segment that does not follow (`Path.breakAt?_eq_some_iff`), so that
what is reported of the list is true of it, and of no place before (`Path.ofSegments_exact`).
-/

namespace DataBinding

open List

theorem linked_iff_isChain {root : Segment} {links : List Segment} :
    Linked root links ↔ (root :: links).IsChain Follows := by
  induction links generalizing root with
  | nil => simp [Linked]
  | cons s links ih => rw [isChain_cons_cons, Linked, ih]

namespace Path

/-- A path is connected, and it has segments. -/
theorem connected (p : Path) : p.segments ≠ [] ∧ p.segments.IsChain Follows :=
  ⟨cons_ne_nil _ _, linked_iff_isChain.1 p.linked⟩

/-- Segments are a path exactly if they are connected, and there are any. -/
theorem ofSegments_isOk_iff (segments : List Segment) :
    (∃ p, ofSegments segments = .ok p) ↔ segments ≠ [] ∧ segments.IsChain Follows := by
  constructor
  · rintro ⟨p, hp⟩
    rw [(ofSegments_eq_ok_iff p segments).1 hp]
    exact p.connected
  · rintro ⟨hne, hchain⟩
    obtain ⟨root, links, rfl⟩ := exists_cons_of_ne_nil hne
    exact ⟨_, ofSegments_segments ⟨root, links, linked_iff_isChain.2 hchain⟩⟩

/-! ## Where a list breaks -/

/-- Segment `i` of the list is the first one that does not follow the one before it, and the error says so; the
count starts from `start`. -/
def Breaks (start : Nat) (l : List Segment) (i : Nat) (e : PathError) : Prop :=
  ∃ h : i + 1 < l.length, (∀ j (hj : j < i), Follows l[j] l[j + 1]) ∧ ¬ Follows l[i] l[i + 1] ∧
    e = .disconnected (start + i) l[i].type.name l[i + 1].declaring.name

variable {start i : Nat} {parent s : Segment} {l links : List Segment} {e : PathError}

theorem not_breaks_singleton : ¬ Breaks start [s] i e := by
  rintro ⟨h, -⟩
  simp at h

theorem breaks_zero_iff : Breaks start (parent :: s :: l) 0 e ↔
    ¬ Follows parent s ∧ e = .disconnected start parent.type.name s.declaring.name := by
  simp [Breaks]

theorem breaks_succ_iff : Breaks start (parent :: s :: l) (i + 1) e ↔
    Follows parent s ∧ Breaks (start + 1) (s :: l) i e := by
  have hstart : start + (i + 1) = start + 1 + i := by omega
  constructor
  · rintro ⟨h, hbefore, hbreak, rfl⟩
    refine ⟨hbefore 0 (Nat.zero_lt_succ i), Nat.lt_of_succ_lt_succ h, fun j hj => ?_, hbreak, by rw [hstart]; rfl⟩
    exact hbefore (j + 1) (Nat.succ_lt_succ hj)
  · rintro ⟨hs, h, hbefore, hbreak, rfl⟩
    refine ⟨Nat.succ_lt_succ h, fun j hj => ?_, hbreak, by rw [hstart]; rfl⟩
    cases j with
    | zero => exact hs
    | succ j => exact hbefore j (Nat.lt_of_succ_lt_succ hj)

/-- The walk finds the place where the list breaks first. -/
theorem breakAt?_eq_some_iff : breakAt? start parent links = some e ↔ ∃ i, Breaks start (parent :: links) i e := by
  induction links generalizing start parent with
  | nil => simp [breakAt?, not_breaks_singleton]
  | cons s rest ih =>
    rw [← Nat.or_exists_add_one, breaks_zero_iff]
    simp only [breaks_succ_iff, exists_and_left, ← ih]
    by_cases hs : Follows parent s <;> simp [breakAt?, hs, eq_comm]

theorem ofSegments_eq_error_iff {segments : List Segment} : ofSegments segments = .error e ↔
    segments = [] ∧ e = .empty ∨ ∃ i, Breaks 1 segments i e := by
  cases segments with
  | nil => simp [ofSegments, Breaks, eq_comm]
  | cons root links =>
    simp only [reduceCtorEq, false_and, false_or, ← breakAt?_eq_some_iff, ofSegments]
    split
    · next e' he => simp [he]
    · next hnone => simp [hnone]

/-- **Segments are accepted exactly if they are connected.** There must be a segment, and each one after the first
must be declared on the type that the one before it yields, by name. If there are segments and they are no path,
what is reported is the first place where this fails, counted from zero, with both names. An accepted path has the
segments that were given; and whatever is a path, also one made of a single segment without a look at it, is built
again from its segments. -/
theorem ofSegments_exact (segments : List Segment) :
    ((∃ p, ofSegments segments = .ok p) ↔
      segments ≠ [] ∧ ∀ i (h : i + 1 < segments.length),
        segments[i].type.name = segments[i + 1].declaring.name) ∧
    (ofSegments segments = .error .empty ↔ segments = []) ∧
    (∀ index expected found, ofSegments segments = .error (.disconnected index expected found) ↔
      ∃ i, ∃ h : i + 1 < segments.length,
        (∀ j (hj : j < i), segments[j].type.name = segments[j + 1].declaring.name) ∧
        segments[i].type.name ≠ segments[i + 1].declaring.name ∧
        index = i + 1 ∧ expected = segments[i].type.name ∧ found = segments[i + 1].declaring.name) ∧
    (∀ p, ofSegments segments = .ok p → p.segments = segments) ∧
    (∀ p : Path, ofSegments p.segments = .ok p) ∧
    ∀ s, (single s).segments = [s] ∧ ofSegments [s] = .ok (single s) := by
  refine ⟨?_, ?_, fun index expected found => ?_, fun p hp => ((ofSegments_eq_ok_iff p segments).1 hp).symm,
    ofSegments_segments, fun s => ⟨rfl, ofSegments_segments (single s)⟩⟩
  · rw [ofSegments_isOk_iff, isChain_iff_getElem]
    rfl
  · simp [ofSegments_eq_error_iff, Breaks]
  · simp only [ofSegments_eq_error_iff, Breaks, reduceCtorEq, and_false, false_or, PathError.disconnected.injEq,
      Nat.add_comm 1]
    rfl

end Path

end DataBinding
