import Mathlib.Data.List.Basic
/-!
# Texts with separators

A text that is put together from parts can be taken apart at its separators where it is known how many of
these each part holds itself (`append_cons_inj`, `intercalate_inj`). Nothing is said of parts that hold none:
a part may hold separators, as long as its counterpart holds as many.

A text that is split at every separator has parts that hold none (`forall_mem_splitOnP`), and such parts are
found again when they are joined (`splitOnP_intercalate`). Its last parts are those of a text that it ends in,
right after a separator (`splitOn_suffix_iff`).
-/

namespace DataBinding.Text

open List

variable {α : Type} {c : α}

/-- Joined parts are the first of them, and each other one after a separator. -/
theorem intercalate_cons_eq (x : List α) (xs : List (List α)) :
    [c].intercalate (x :: xs) = x ++ xs.flatMap (c :: ·) := by
  induction xs generalizing x with
  | nil => simp
  | cons y xs ih => simp [ih]

theorem eq_of_mem_zip_self {l : List α} {p : α × α} (h : p ∈ l.zip l) : p.1 = p.2 := by
  induction l with
  | nil => cases h
  | cons x l ih =>
    rw [zip_cons_cons, mem_cons] at h
    rcases h with rfl | h
    · rfl
    · exact ih h

/-- Lists are the same if what becomes of them is, and it tells corresponding elements apart. -/
theorem eq_of_map_eq {β : Type} {f : α → β} {xs ys : List α} (h : xs.map f = ys.map f)
    (hf : ∀ p ∈ xs.zip ys, f p.1 = f p.2 → p.1 = p.2) : xs = ys := by
  induction xs generalizing ys with
  | nil => exact (map_eq_nil_iff.1 h.symm).symm
  | cons x xs ih =>
    obtain ⟨y, ys, rfl, hy, hrest⟩ := map_eq_cons_iff.1 h.symm
    rw [zip_cons_cons, forall_mem_cons] at hf
    obtain ⟨hxy, hf⟩ := hf
    obtain rfl : x = y := hxy hy.symm
    rw [ih hrest.symm hf]

/-! ## Splitting -/

variable {p : α → Bool}

/-- The parts between separators hold none. -/
theorem forall_mem_splitOnP (p : α → Bool) (xs : List α) :
    ∀ part ∈ xs.splitOnP p, ∀ x ∈ part, p x = false := by
  induction xs with
  | nil => simp
  | cons y xs ih =>
    rw [splitOnP_cons_eq_if_modifyHead]
    split
    · exact forall_mem_cons.2 ⟨by simp, ih⟩
    · next hy =>
      obtain ⟨first, rest, hparts⟩ := exists_cons_of_ne_nil (splitOnP_ne_nil p xs)
      rw [hparts] at ih ⊢
      rw [forall_mem_cons] at ih
      exact forall_mem_cons.2 ⟨forall_mem_cons.2 ⟨by simpa using hy, ih.1⟩, ih.2⟩

/-- Joined parts are found again if they hold no separators. -/
theorem splitOnP_intercalate (hc : p c) {parts : List (List α)} (hne : parts ≠ [])
    (h : ∀ part ∈ parts, ∀ x ∈ part, p x = false) : ([c].intercalate parts).splitOnP p = parts := by
  induction parts with
  | nil => exact absurd rfl hne
  | cons part parts ih =>
    rw [forall_mem_cons] at h
    obtain ⟨hpart, hparts⟩ := h
    cases parts with
    | nil => simpa using splitOnP_eq_singleton hpart
    | cons next parts =>
      rw [intercalate_cons_cons, append_assoc, singleton_append,
        splitOnP_append_cons_of_forall_mem hpart c hc, ih (cons_ne_nil _ _) hparts]

/-- What is added in front of a text changes the first of its parts and no other. -/
theorem exists_splitOnP_append (p : α → Bool) (xs ys : List α) :
    ∃ init tail, (xs ++ ys).splitOnP p = init ++ (ys.splitOnP p).modifyHead (tail ++ ·) := by
  induction xs with
  | nil => exact ⟨[], [], (congrFun modifyHead_id _).symm⟩
  | cons x xs ih =>
    obtain ⟨init, tail, hparts⟩ := ih
    rw [cons_append, splitOnP_cons_eq_if_modifyHead, hparts]
    split
    · exact ⟨[] :: init, tail, rfl⟩
    · cases init with
      | nil => exact ⟨[], x :: tail, by simp [Function.comp_def]⟩
      | cons part init => exact ⟨(x :: part) :: init, tail, rfl⟩

/-- The parts of one text end those of another one if the text ends the other one, and starts where a part
starts. -/
theorem splitOn_suffix_iff [BEq α] [LawfulBEq α] {xs ys : List α} :
    ys.splitOn c <:+ xs.splitOn c ↔ xs = ys ∨ ∃ before, xs = before ++ c :: ys := by
  constructor
  · rintro ⟨init, hparts⟩
    have hjoined := congrArg [c].intercalate hparts
    rw [intercalate_splitOn] at hjoined
    cases init with
    | nil =>
      left
      simpa using hjoined.symm
    | cons part init =>
      right
      obtain ⟨first, rest, hys⟩ := exists_cons_of_ne_nil (splitOn_ne_nil c ys)
      have hrest : first ++ rest.flatMap (c :: ·) = ys := by
        rw [← intercalate_cons_eq, ← hys, intercalate_splitOn]
      refine ⟨part ++ init.flatMap (c :: ·), ?_⟩
      rw [← hjoined, hys, cons_append, intercalate_cons_eq, flatMap_append, flatMap_cons, ← hrest]
      simp
  · rintro (rfl | ⟨before, rfl⟩)
    · exact suffix_rfl
    · rw [splitOn_append_cons_self]
      exact suffix_append _ _

/-! ## Telling the parts -/

variable [DecidableEq α]

/-- Two texts are taken apart at the same separator if what stands before it holds as many in both. -/
theorem append_cons_inj {a b x y : List α} (h : a ++ c :: x = b ++ c :: y) (hc : a.count c = b.count c) :
    a = b ∧ x = y := by
  induction a generalizing b with
  | nil =>
    cases b with
    | nil => simpa using h
    | cons d b =>
      -- The other part starts with a separator, which this one does not hold.
      obtain ⟨rfl, -⟩ := cons.inj h
      simp at hc
  | cons d a ih =>
    cases b with
    | nil =>
      obtain ⟨rfl, -⟩ := cons.inj h
      simp at hc
    | cons e b =>
      obtain ⟨rfl, hrest⟩ := cons.inj h
      obtain ⟨rfl, rfl⟩ := ih hrest (by simpa [count_cons] using hc)
      exact ⟨rfl, rfl⟩

/-- What goes on after a separator holds more of them than what stands before it. -/
theorem ne_append_cons {a b x : List α} (hc : a.count c = b.count c) : a ≠ b ++ c :: x := by
  rintro rfl
  simp at hc

/-- Parts that are joined by separators are the same if the joined texts are, and part by part they hold as
many separators. -/
theorem intercalate_inj {xs ys : List (List α)} (hx : xs ≠ []) (hy : ys ≠ [])
    (h : [c].intercalate xs = [c].intercalate ys) (hc : ∀ p ∈ xs.zip ys, p.1.count c = p.2.count c) :
    xs = ys := by
  induction xs generalizing ys with
  | nil => exact absurd rfl hx
  | cons x xs ih =>
    cases ys with
    | nil => exact absurd rfl hy
    | cons y ys =>
      rw [zip_cons_cons, forall_mem_cons] at hc
      obtain ⟨hxy, hc⟩ := hc
      -- Where only one text goes on, it does so after a separator that the other one does not hold.
      cases xs with
      | nil =>
        cases ys with
        | nil => simpa using h
        | cons z ys => exact absurd (by simpa using h) (ne_append_cons (x := [c].intercalate (z :: ys)) hxy)
      | cons w xs =>
        cases ys with
        | nil =>
          exact absurd (by simpa using h.symm) (ne_append_cons (x := [c].intercalate (w :: xs)) hxy.symm)
        | cons z ys =>
          simp only [intercalate_cons_cons, append_assoc, singleton_append] at h
          obtain ⟨rfl, hrest⟩ := append_cons_inj h hxy
          rw [ih (cons_ne_nil _ _) (cons_ne_nil _ _) hrest hc]

end DataBinding.Text
