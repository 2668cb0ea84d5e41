import DataBinding.Proofs.Naming.Separators
import DataBinding.Text.Lowercase
/-!
# Lower case between slashes

The small letter of a capital sigma depends on what stands around it, but not on what stands beyond a slash: a
slash is neither cased nor passed over (`meetsCased_append_slash`). So a text is lowered part by part
(`lowerFrom_intercalate`), and as no other character is lowered to a slash, the parts stay the parts
(`splitOn_lowerFrom`). How long the lower case is does not depend on what stands around
(`length_lowerFrom`).
-/

namespace DataBinding.Text

open List

theorem toList_lower (s : String) : (lower s).toList = lowerFrom [] s.toList := String.toList_ofList

theorem isCaseIgnorable_slash : isCaseIgnorable '/' = false := by decide +kernel

theorem isCased_slash : isCased '/' = false := by decide +kernel

theorem lowerAt_slash (before after : List Char) : lowerAt before '/' after = ['/'] := by
  have hsmall : smallLetter '/' = '/' := by decide
  simp [lowerAt, hsmall]

/-- Whether a cased letter comes next is not decided beyond a slash. -/
theorem meetsCased_append_slash (cs ds : List Char) : meetsCased (cs ++ '/' :: ds) = meetsCased cs := by
  induction cs with
  | nil => simp [meetsCased, isCaseIgnorable_slash, isCased_slash]
  | cons c cs ih =>
    cases hc : isCaseIgnorable c with
    | true => simpa [meetsCased, hc] using ih
    | false => simp [meetsCased, hc]

/-- What stands before a slash is passed over by what comes after it. -/
theorem lowerFrom_after_slash (before rest cs : List Char) :
    lowerFrom (before ++ '/' :: rest) cs = lowerFrom before cs := by
  induction cs generalizing before with
  | nil => rfl
  | cons c cs ih =>
    have hc : lowerAt (before ++ '/' :: rest) c cs = lowerAt before c cs := by
      rw [lowerAt, lowerAt, meetsCased_append_slash]
    rw [lowerFrom, lowerFrom, hc, ← cons_append, ih]

/-- A text is lowered on both sides of a slash alone. -/
theorem lowerFrom_append_slash (before cs ds : List Char) :
    lowerFrom before (cs ++ '/' :: ds) = lowerFrom before cs ++ '/' :: lowerFrom [] ds := by
  induction cs generalizing before with
  | nil =>
    have hds := lowerFrom_after_slash [] before ds
    simpa [lowerFrom, lowerAt_slash] using hds
  | cons c cs ih =>
    have hc : lowerAt before c (cs ++ '/' :: ds) = lowerAt before c cs := by
      rw [lowerAt, lowerAt, meetsCased_append_slash]
    rw [cons_append, lowerFrom, lowerFrom, hc, ih, append_assoc]

/-- Parts between slashes are lowered one by one. -/
theorem lowerFrom_intercalate (parts : List (List Char)) :
    lowerFrom [] (['/'].intercalate parts) = ['/'].intercalate (parts.map (lowerFrom [])) := by
  induction parts with
  | nil => rfl
  | cons p parts ih =>
    cases parts with
    | nil => simp
    | cons q parts =>
      rw [intercalate_cons_cons, append_assoc, singleton_append, lowerFrom_append_slash, ih]
      simp

/-! ## No new slashes -/

theorem eq_of_ofNat_slash {n : Nat} (h : Char.ofNat n = '/') : n = 0x2f := by
  by_cases hn : n.isValidChar
  · rw [Char.ofNat, dif_pos hn] at h
    exact congrArg Char.toNat h
  · rw [Char.ofNat, dif_neg hn] at h
    exact absurd h (by decide)

/-- No capital has a slash for its small letter. -/
theorem smallLetter_ne_slash {c : Char} (hc : c ≠ '/') : smallLetter c ≠ '/' := by
  unfold smallLetter
  split
  · next r hr =>
    -- All small letters of a run stand above the first, and so above the slash.
    have habove : ∀ r ∈ caseRuns, 0x2f < (r.first : Int) + r.shift := by decide +kernel
    have hshift := habove r (mem_of_find?_eq_some hr)
    have hcontains := find?_some hr
    simp only [CaseRun.contains, Bool.and_eq_true, decide_eq_true_eq] at hcontains
    intro hslash
    have hcode := eq_of_ofNat_slash hslash
    omega
  · exact hc

theorem slash_notMem_lowerAt {c : Char} (hc : c ≠ '/') (before after : List Char) :
    '/' ∉ lowerAt before c after := by
  unfold lowerAt
  split
  · split <;> decide
  · split
    · decide
    · simpa using (smallLetter_ne_slash hc).symm

theorem slash_notMem_lowerFrom {cs : List Char} (h : '/' ∉ cs) (before : List Char) :
    '/' ∉ lowerFrom before cs := by
  induction cs generalizing before with
  | nil => exact not_mem_nil
  | cons c cs ih =>
    rw [mem_cons, not_or] at h
    rw [lowerFrom, mem_append, not_or]
    exact ⟨slash_notMem_lowerAt (Ne.symm h.1) _ _, ih h.2 _⟩

/-- The parts of a lowered text are the lowered parts. -/
theorem splitOn_lowerFrom (cs : List Char) :
    (lowerFrom [] cs).splitOn '/' = (cs.splitOn '/').map (lowerFrom []) := by
  have hjoined : ['/'].intercalate (cs.splitOn '/') = cs := intercalate_splitOn '/'
  conv_lhs => rw [← hjoined, lowerFrom_intercalate]
  refine splitOn_intercalate '/' (forall_mem_map.2 fun p hp => ?_) (by simp)
  exact slash_notMem_lowerFrom (fun hslash => by simpa using forall_mem_splitOnP _ cs p hp _ hslash) []

/-! ## Lengths -/

theorem length_lowerAt (before after : List Char) (c : Char) :
    (lowerAt before c after).length = if c = 'İ' then 2 else 1 := by
  unfold lowerAt
  split
  · next h => subst h; rfl
  · split <;> rfl

/-- Only a capital I with a dot gets longer. -/
theorem length_lowerFrom (before cs : List Char) :
    (lowerFrom before cs).length = cs.length + cs.count 'İ' := by
  induction cs generalizing before with
  | nil => rfl
  | cons c cs ih =>
    rw [lowerFrom, length_append, length_lowerAt, ih, length_cons, count_cons]
    by_cases hc : c = 'İ' <;> simp [hc] <;> omega

/-- Only nothing is lowered to nothing. -/
theorem lower_eq_empty_iff (s : String) : lower s = "" ↔ s = "" := by
  rw [← String.toList_eq_nil_iff, ← String.toList_eq_nil_iff, toList_lower, ← length_eq_zero_iff, length_lowerFrom,
    ← length_eq_zero_iff]
  have hcount : s.toList.count 'İ' ≤ s.toList.length := count_le_length
  omega

theorem length_toList_lower (s : String) :
    (lower s).toList.length = s.toList.length + s.toList.count 'İ' := by
  rw [toList_lower, length_lowerFrom]

/-- A part gets longer where anything is put in front, and so it does in lower case. -/
theorem lower_append_ne {front : List Char} (hfront : front ≠ []) (part : List Char) :
    lower (String.ofList (front ++ part)) ≠ lower (String.ofList part) := by
  intro h
  have hlen := congrArg (fun s => s.toList.length) h
  have hpos := length_pos_iff.2 hfront
  simp only [length_toList_lower, String.toList_ofList, length_append, count_append] at hlen
  omega

end DataBinding.Text
