import DataBinding.Proofs.Matching.Parts
import DataBinding.Proofs.Naming.Signatures
/-!
# What a positional rule accepts

The suffix of a location has the last components of its file for parts (`Location.fileParts_suffix`): the last
two, or the only one. So the rule of a call site compares these with the last parts of the caller's file, one by
one and in lower case.

`CallSite.accepts_positional_iff`: the rule accepts a caller exactly if these are the same, on the same line; and
in a path that ends in the text of the suffix, this must not start within a part.
`CallSite.accepts_own_iff`: components are counted without the empty parts, but the parts of the caller's file
with them, so that a call site is accepted at its own place exactly if none of the last parts of its file is
empty. `CallSite.own_place_refused`: where a slash is doubled before the last component, it is not.
-/

namespace DataBinding

open List

namespace Location

variable (l : Location)

/-- How many components of the file are compared. -/
def depth : Nat := if 2 ≤ l.components.length then 2 else 1

theorem components_eq : l.components = (fileParts l.file).filter (· ≠ "") := rfl

/-- The components that are compared. -/
def compared : List String := l.components.rtake l.depth

theorem suffix_eq_intercalate : l.suffix = "/".intercalate (l.components.rtake 2) := rfl

variable {l}

theorem ne_empty_of_mem_components {part : String} (h : part ∈ l.components) : part ≠ "" := by
  rw [components_eq, mem_filter] at h
  exact of_decide_eq_true h.2

theorem not_isSlash_of_mem_components {part : String} (h : part ∈ l.components) :
    ∀ c ∈ part.toList, isSlash c = false := by
  rw [components_eq, mem_filter, fileParts, mem_map] at h
  obtain ⟨⟨part, hpart, rfl⟩, -⟩ := h
  rw [String.toList_ofList]
  exact Text.forall_mem_splitOnP isSlash _ part hpart

theorem length_compared (h : l.components ≠ []) : l.compared.length = l.depth := by
  have hpos := length_pos_iff.2 h
  rw [compared, rtake, length_drop, depth]
  split <;> omega

theorem compared_ne_nil (h : l.components ≠ []) : l.compared ≠ [] := by
  rw [← length_pos_iff, length_compared h, depth]
  split <;> decide

theorem mem_components_of_mem_compared {part : String} (h : part ∈ l.compared) : part ∈ l.components :=
  mem_of_mem_drop h

theorem suffix_eq (h : l.components ≠ []) : l.suffix = "/".intercalate l.compared := by
  have hpos := length_pos_iff.2 h
  have hdrop : l.components.length - 2 = l.components.length - l.depth := by
    unfold depth
    split <;> omega
  rw [suffix_eq_intercalate, compared, rtake, rtake, hdrop]

/-- The parts of the suffix are the components that are compared. -/
theorem fileParts_suffix (h : l.components ≠ []) : fileParts l.suffix = l.compared := by
  have hslash : "/".toList = ['/'] := rfl
  rw [fileParts, suffix_eq h, String.toList_intercalate, hslash, Text.splitOnP_intercalate (by decide)]
  · simp
  · simpa using compared_ne_nil h
  · exact forall_mem_map.2 fun part hpart =>
      not_isSlash_of_mem_components (mem_components_of_mem_compared hpart)

theorem suffix_ne_empty_iff : l.suffix ≠ "" ↔ l.components ≠ [] := by
  constructor
  · intro h hnil
    rw [suffix_eq_intercalate, hnil] at h
    exact h rfl
  · intro h hempty
    -- The only part of an empty text is empty, and no component is.
    have hparts := fileParts_suffix h
    rw [hempty] at hparts
    have hmem : "" ∈ l.compared := by
      rw [← hparts]
      decide
    exact ne_empty_of_mem_components (mem_components_of_mem_compared hmem) rfl

/-- A file path ends with the suffix if its last parts are the components that are compared. -/
theorem endsWith_suffix_iff (file : String) : endsWithPath file l.suffix = true ↔
    l.components ≠ [] ∧ ((fileParts file).rtake l.depth).map Text.lower = l.compared.map Text.lower := by
  rw [endsWithPath_iff, suffix_ne_empty_iff]
  refine and_congr_right fun h => ?_
  rw [fileParts_suffix h, suffix_iff_eq_drop, length_map, length_map, length_compared h, ← map_drop, eq_comm, rtake]

theorem rtake_append {α : Type} {xs ys : List α} {n : Nat} (h : ys.length = n) : (xs ++ ys).rtake n = ys := by
  rw [rtake, length_append, h, Nat.add_sub_cancel, drop_left]

/-! ## The file of the location -/

/-- Where none of the last parts is empty, they are the last components. -/
theorem rtake_fileParts (h : l.components ≠ []) (hfull : "" ∉ (fileParts l.file).rtake l.depth) :
    (fileParts l.file).rtake l.depth = l.compared := by
  have hlen : l.depth ≤ l.components.length := by
    rw [← length_compared h, compared, rtake, length_drop]
    omega
  have hle : l.components.length ≤ (fileParts l.file).length := length_filter_le _ _
  have hlast : ((fileParts l.file).rtake l.depth).filter (· ≠ "") = (fileParts l.file).rtake l.depth := by
    rw [filter_eq_self]
    intro part hpart
    exact decide_eq_true fun hempty => hfull (hempty ▸ hpart)
  -- The components end in the last parts, as these are not passed over.
  have hsplit : l.components = ((fileParts l.file).take ((fileParts l.file).length - l.depth)).filter (· ≠ "") ++
      (fileParts l.file).rtake l.depth := by
    rw [components_eq, ← hlast, ← filter_append, rtake, take_append_drop]
  have hsize : ((fileParts l.file).rtake l.depth).length = l.depth := by
    rw [rtake, length_drop]
    omega
  rw [compared, hsplit, rtake_append hsize]

/-- A file ends with the suffix of its own location exactly if none of its last parts is empty. -/
theorem endsWith_own_iff : endsWithPath l.file l.suffix = true ↔
    l.components ≠ [] ∧ "" ∉ (fileParts l.file).rtake l.depth := by
  rw [endsWith_suffix_iff]
  refine and_congr_right fun h => ⟨fun heq hempty => ?_, fun hfull => by rw [rtake_fileParts h hfull]⟩
  have hlower : Text.lower "" ∈ l.compared.map Text.lower := by
    rw [← heq]
    exact mem_map_of_mem hempty
  obtain ⟨part, hpart, hp⟩ := mem_map.1 hlower
  exact ne_empty_of_mem_components (mem_components_of_mem_compared hpart) ((Text.lower_eq_empty_iff part).1 hp)

/-! ## What stands before the suffix -/

/-- The parts of a path in front of which something is added that ends in a slash. -/
theorem fileParts_append_slash {front : List Char} {c : Char} (hc : isSlash c) (file : String) :
    fileParts (String.ofList (front ++ [c]) ++ file) = fileParts (String.ofList front) ++ fileParts file := by
  simp [fileParts, splitOnP_append_cons _ _ hc]

/-- The parts of a path in front of which something is added that does not end in a slash. -/
theorem exists_fileParts_append (front : List Char) {c : Char} (hc : isSlash c = false) {file : String}
    {first : List Char} {rest : List (List Char)} (hfile : file.toList.splitOnP isSlash = first :: rest) :
    ∃ init part, part ≠ [] ∧ fileParts (String.ofList (front ++ [c]) ++ file) =
      init ++ String.ofList (part ++ first) :: rest.map String.ofList := by
  obtain ⟨init, part, hparts⟩ := Text.exists_splitOnP_append isSlash front (c :: file.toList)
  refine ⟨init.map String.ofList, part ++ [c], by simp, ?_⟩
  rw [splitOnP_cons_eq_if_modifyHead, hc, hfile] at hparts
  rw [fileParts, String.toList_append, String.toList_ofList, append_assoc, singleton_append, hparts]
  simp

/-- A file path that ends in the text of the suffix ends with the suffix exactly if this is the whole path, or
a slash stands before it. -/
theorem endsWith_append_iff (before : String) : endsWithPath (before ++ l.suffix) l.suffix = true ↔
    l.components ≠ [] ∧ before.toList.getLast?.all isSlash = true := by
  rw [endsWith_suffix_iff]
  refine and_congr_right fun h => ?_
  have hsize := length_compared h
  rw [← String.ofList_toList (s := before), String.toList_ofList]
  rcases eq_nil_or_concat before.toList with hnil | ⟨front, c, hbefore⟩
  · have hall : l.compared.rtake l.depth = l.compared := by rw [rtake, hsize, Nat.sub_self, drop_zero]
    rw [hnil, String.ofList_nil, String.empty_append, fileParts_suffix h, hall]
    simp
  · rw [hbefore, concat_eq_append, getLast?_concat]
    cases hc : isSlash c with
    | true =>
      rw [fileParts_append_slash hc, fileParts_suffix h, rtake_append hsize]
      simp [hc]
    | false =>
      obtain ⟨first, rest, hfile⟩ := exists_cons_of_ne_nil (splitOnP_ne_nil isSlash l.suffix.toList)
      have hcompared : l.compared = String.ofList first :: rest.map String.ofList := by
        rw [← fileParts_suffix h, fileParts, hfile, map_cons]
      obtain ⟨init, part, hpart, hparts⟩ := exists_fileParts_append front hc hfile
      have hlen : (String.ofList (part ++ first) :: rest.map String.ofList).length = l.depth := by
        rw [← hsize, hcompared, length_cons, length_cons]
      rw [hparts, rtake_append hlen, hcompared]
      -- The first part that is compared holds more than the component.
      simp only [map_cons, cons.injEq, Text.lower_append_ne hpart, false_and, Option.all_some, hc, Bool.false_eq_true]

end Location

namespace CallSite

theorem accepts_positional (s : CallSite) (c : Caller) : (Rule.ofSite s .positional).accepts c = true ↔
    c.line = s.location.line ∧ endsWithPath c.file s.location.suffix = true := by
  simp [Rule.ofSite, Rule.accepts]

/-- A caller is accepted exactly if it stands on the line of the call site, and the last parts of its file are,
part by part and in lower case, the last components of the file of the call site: two of them where there are
two. What ends in the suffix without starting where a part starts is never accepted. -/
theorem accepts_positional_iff (s : CallSite) :
    (∀ c : Caller, (Rule.ofSite s .positional).accepts c = true ↔
      c.line = s.location.line ∧ s.location.components ≠ [] ∧
        ((fileParts c.file).rtake s.location.depth).map Text.lower =
          (s.location.components.rtake s.location.depth).map Text.lower) ∧
    ∀ (texts : Option (List String)) (before : String),
      (Rule.ofSite s .positional).accepts ⟨texts, before ++ s.location.suffix, s.location.line⟩ = true ↔
        s.location.components ≠ [] ∧ before.toList.getLast?.all isSlash = true := by
  refine ⟨fun c => ?_, fun texts before => ?_⟩
  · rw [accepts_positional, Location.endsWith_suffix_iff, Location.compared]
  · rw [accepts_positional, Location.endsWith_append_iff]
    simp

/-- A call site is accepted at its own place exactly if its file has a component, and none of its last parts is
empty: of the last two where there are two components. -/
theorem accepts_own_iff (s : CallSite) (texts : Option (List String)) :
    (Rule.ofSite s .positional).accepts ⟨texts, s.location.file, s.location.line⟩ = true ↔
      s.location.components ≠ [] ∧ "" ∉ (fileParts s.location.file).rtake s.location.depth := by
  rw [accepts_positional, Location.endsWith_own_iff]
  simp

/-- A call site that is accepted by the check, in a file with two components, is not accepted at its own
place. -/
theorem own_place_refused :
    let s := { aged ⟨"int", false⟩ 7 with location := ⟨"src//Person.rs", 7⟩ }
    s.check .observe .positional = .ok () ∧ s.location.components = ["src", "Person.rs"] ∧
      (Rule.ofSite s .positional).accepts ⟨none, "src//Person.rs", 7⟩ = false := by
  intro s
  refine ⟨by decide, by decide, ?_⟩
  rw [← Bool.not_eq_true, accepts_positional]
  rintro ⟨-, hends⟩
  -- The last two parts are an empty one and the name.
  obtain ⟨-, hfull⟩ := (Location.endsWith_own_iff (l := s.location)).1 hends
  exact hfull (by decide)

end CallSite

end DataBinding
