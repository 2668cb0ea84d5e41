import Mathlib.Data.List.DropRight
import DataBinding.Dispatch
import DataBinding.Proofs.Matching.Lowering
/-!
# Parts of file paths

A file path has parts between its slashes, of either kind and some of them perhaps empty (`fileParts`). Folding
a path lowers each of its parts alone (`splitOn_foldPath`), so that a path ends with a suffix exactly if its
last parts are those of the suffix, each of them compared in lower case (`endsWithPath_iff`).
-/

namespace DataBinding

open List

/-- Slashes of either kind. -/
def isSlash (c : Char) : Bool := c = '/' ∨ c = '\\'

/-- What stands between the slashes of a file path. -/
def fileParts (file : String) : List String := (file.toList.splitOnP isSlash).map String.ofList

/-- With one kind of slash, the parts are the same. -/
theorem splitOn_folded (cs : List Char) :
    (cs.map fun c => if c = '\\' then '/' else c).splitOn '/' = cs.splitOnP isSlash := by
  induction cs with
  | nil => rfl
  | cons c cs ih =>
    rw [map_cons, splitOn_cons_eq_if_modifyHead, splitOnP_cons_eq_if_modifyHead, ih]
    by_cases hback : c = '\\'
    · simp [hback, isSlash]
    · by_cases hslash : c = '/' <;> simp [hback, hslash, isSlash]

/-- A folded path has the parts of the path in lower case. -/
theorem splitOn_foldPath (file : String) :
    (foldPath file).toList.splitOn '/' = ((fileParts file).map Text.lower).map String.toList := by
  rw [foldPath, Text.toList_lower, Text.splitOn_lowerFrom, String.toList_map, splitOn_folded, fileParts]
  simp [Text.lower]

theorem toList_foldPath_eq_nil_iff (file : String) : (foldPath file).toList = [] ↔ file = "" := by
  rw [String.toList_eq_nil_iff, foldPath, Text.lower_eq_empty_iff, ← String.toList_eq_nil_iff, String.toList_map,
    map_eq_nil_iff, String.toList_eq_nil_iff]

/-- A text ends with another one, and this starts where a part starts. -/
theorem endsAtPart_iff {cs ds : List Char} :
    (ds.isSuffixOf cs &&
      ((cs.take (cs.length - ds.length)).isEmpty ||
        (cs.take (cs.length - ds.length)).getLast? == some '/')) = true ↔
      cs = ds ∨ ∃ before, cs = before ++ '/' :: ds := by
  rw [Bool.and_eq_true, Bool.or_eq_true, isSuffixOf_iff_suffix, suffix_iff_eq_append, beq_iff_eq,
    getLast?_eq_some_iff, List.isEmpty_iff]
  constructor
  · rintro ⟨hcs, hempty | ⟨before, hbefore⟩⟩
    · left
      rw [← hcs, hempty, nil_append]
    · right
      refine ⟨before, ?_⟩
      rw [← hcs, hbefore, append_assoc, singleton_append]
  · rintro (rfl | ⟨before, rfl⟩)
    · simp
    · have htake : (before ++ '/' :: ds).take ((before ++ '/' :: ds).length - ds.length) = before ++ ['/'] := by
        rw [← singleton_append, ← append_assoc, length_append, Nat.add_sub_cancel, take_left]
      rw [htake]
      exact ⟨by simp, .inr ⟨before, rfl⟩⟩

theorem suffix_map_toList_iff {xs ys : List String} :
    xs.map String.toList <:+ ys.map String.toList ↔ xs <:+ ys := by
  rw [suffix_iff_eq_drop, suffix_iff_eq_drop, length_map, length_map, ← map_drop,
    map_inj_right fun _ _ => String.toList_inj.1]

/-- A file path ends with a suffix if its last parts are those of the suffix, whatever their case. -/
theorem endsWithPath_iff (file suffix : String) : endsWithPath file suffix = true ↔
    suffix ≠ "" ∧ (fileParts suffix).map Text.lower <:+ (fileParts file).map Text.lower := by
  rw [← suffix_map_toList_iff, ← splitOn_foldPath, ← splitOn_foldPath, Text.splitOn_suffix_iff,
    ← endsAtPart_iff, ne_eq, ← toList_foldPath_eq_nil_iff]
  simp [endsWithPath, and_assoc]

end DataBinding
