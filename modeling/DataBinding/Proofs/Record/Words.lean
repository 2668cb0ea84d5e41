import DataBinding.Proofs.Naming.Separators
import DataBinding.Written.Record
/-!
# Features in words

Features are stored as a text: words between bars. A word holds no bar and nothing blank (`Text.Word`), so that
the words are found again when the text is split at its bars and trimmed (`Text.split_words`).
`Features.ofText?_text`: features are read back from the text they are stored as, those included that ask for
nothing.
-/

namespace DataBinding

open List

namespace Text

theorem mem_dropWhile {α : Type} {p : α → Bool} {xs : List α} {x : α} (hx : x ∈ xs) (hp : p x = false) :
    x ∈ xs.dropWhile p := by
  induction xs with
  | nil => exact hx
  | cons y xs ih =>
    cases hy : p y with
    | false => rwa [dropWhile_cons_of_neg (by simp [hy])]
    | true =>
      rw [dropWhile_cons_of_pos hy]
      refine ih ((mem_cons.1 hx).resolve_left ?_)
      rintro rfl
      simp [hy] at hp

/-- Trimming takes away nothing but blanks. -/
theorem mem_trim {s : String} {c : Char} (hc : c ∈ s.toList) (hblank : isBlank c = false) :
    c ∈ (trim s).toList := by
  rw [trim, String.toList_ofList, mem_reverse]
  exact mem_dropWhile (mem_reverse.2 (mem_dropWhile hc hblank)) hblank

/-- Something that holds no blanks and no bars. -/
structure Word (w : List Char) : Prop where
  ne_nil : w ≠ []
  solid : ∀ c ∈ w, isBlank c = false
  no_bar : '|' ∉ w

variable {w : List Char}

instance : Decidable (Word w) :=
  decidable_of_iff (w ≠ [] ∧ w.any isBlank = false ∧ '|' ∉ w)
    ⟨fun h => ⟨h.1, by simpa using h.2.1, h.2.2⟩, fun h => ⟨h.ne_nil, by simpa using h.solid, h.no_bar⟩⟩

theorem Word.dropWhile_append (hw : Word w) (xs : List Char) : (w ++ xs).dropWhile isBlank = w ++ xs := by
  obtain ⟨c, w, rfl⟩ := exists_cons_of_ne_nil hw.ne_nil
  rw [cons_append, dropWhile_cons_of_neg (by simp [hw.solid c mem_cons_self])]

theorem Word.reverse (hw : Word w) : Word w.reverse where
  ne_nil := by simpa using hw.ne_nil
  solid c hc := hw.solid c (mem_reverse.1 hc)
  no_bar hc := hw.no_bar (mem_reverse.1 hc)

/-- A word is what trimming leaves of it between blanks. -/
theorem Word.trim_eq (hw : Word w) {front back : List Char} (hfront : ∀ c ∈ front, isBlank c)
    (hback : ∀ c ∈ back, isBlank c) : trim (String.ofList (front ++ w ++ back)) = String.ofList w := by
  have hrev : ∀ c ∈ back.reverse, isBlank c := fun c hc => hback c (mem_reverse.1 hc)
  have hword := hw.reverse.dropWhile_append []
  rw [append_nil] at hword
  rw [trim, String.toList_ofList, append_assoc, dropWhile_append_of_pos hfront, hw.dropWhile_append,
    reverse_append, dropWhile_append_of_pos hrev, hword, reverse_reverse]

theorem prefix_intercalate {α : Type} (sep x : List α) (xs : List (List α)) : x <+: sep.intercalate (x :: xs) := by
  cases xs with
  | nil => simp
  | cons y xs => simp [intercalate_cons_cons, append_assoc]

/-- Words with bars and blanks between them are found again. -/
theorem split_words {ws : List (List Char)} (hne : ws ≠ []) (hws : ∀ w ∈ ws, Word w) {front : List Char}
    (hfront : ∀ c ∈ front, isBlank c) :
    ((front ++ [' ', '|', ' '].intercalate ws).splitOn '|').map (fun w => trim (String.ofList w)) =
      ws.map String.ofList := by
  have hbar : '|' ∉ front := fun h => absurd (hfront '|' h) (by decide)
  have hblank : ∀ c ∈ [' '], isBlank c := forall_mem_singleton.2 rfl
  induction ws generalizing front with
  | nil => exact absurd rfl hne
  | cons w ws ih =>
    rw [forall_mem_cons] at hws
    obtain ⟨hw, hrest⟩ := hws
    cases ws with
    | nil =>
      have htrim := hw.trim_eq hfront fun c (hc : c ∈ []) => absurd hc not_mem_nil
      rw [append_nil] at htrim
      rw [intercalate_singleton, splitOn_eq_singleton (by simp [hbar, hw.no_bar])]
      simp only [map_cons, map_nil, htrim]
    | cons next ws =>
      have hbars : front ++ [' ', '|', ' '].intercalate (w :: next :: ws) =
          (front ++ w ++ [' ']) ++ '|' :: ([' '] ++ [' ', '|', ' '].intercalate (next :: ws)) := by
        simp
      rw [hbars, splitOn_append_cons_self_of_not_mem (by simp [hbar, hw.no_bar]), map_cons,
        hw.trim_eq hfront hblank, ih (cons_ne_nil _ _) hrest hblank (by decide)]
      rfl

end Text

namespace Features

/-- The names of those features that are there. -/
def names (present : List Bool) : List String :=
  (featureNames.zip present).filterMap fun (n, b) => if b then some n else none

/-- The words that features are stored as. -/
def words (f : Features) : List String :=
  names f.toList ++ if f.reserved.val = 0 then [] else ["0x" ++ Text.hex 0 (16 * f.reserved)]

theorem text_eq (f : Features) : f.text = " | ".intercalate f.words := rfl

theorem word_of_mem_words {f : Features} {w : String} (hw : w ∈ f.words) : Text.Word w.toList := by
  rcases mem_append.1 hw with hname | hbits
  · have hnames : ∀ n ∈ featureNames, Text.Word n.toList := by decide +kernel
    obtain ⟨⟨n, b⟩, hmem, hn⟩ := mem_filterMap.1 hname
    obtain ⟨-, rfl⟩ : b = true ∧ n = w := by simpa using hn
    exact hnames n (of_mem_zip hmem).1
  · have hhex : ∀ r : Fin 16, Text.Word ("0x" ++ Text.hex 0 (16 * r)).toList := by decide +kernel
    split at hbits
    · cases hbits
    · rw [mem_singleton.1 hbits]
      exact hhex f.reserved

theorem bits_of_names : ∀ a b c d : Bool, ((names [a, b, c, d]).mapM wordBits?).map (·.foldl (· ||| ·) 0) =
    some (a.toNat + 2 * b.toNat + 4 * c.toNat + 8 * d.toNat) := by
  decide +kernel

theorem wordBits?_hex : ∀ r : Fin 16, wordBits? ("0x" ++ Text.hex 0 (16 * r)) = some (16 * r.val) := by
  decide +kernel

/-- What the words stand for, put together, are the bits. -/
theorem bits_of_words (f : Features) :
    (f.words.mapM wordBits?).map (·.foldl (· ||| ·) 0) = some f.bits := by
  obtain ⟨bits, hread, hfold⟩ := Option.map_eq_some_iff.1
    (bits_of_names f.selector f.conversion f.scheduler f.beforeChange)
  rw [← toList] at hread
  rw [words, mapM_append, hread]
  split
  · next hzero => simp [hfold, Features.bits, hzero]
  · -- The named features are below the reserved bits.
    have hlow : bits.foldl (· ||| ·) 0 < 2 ^ 4 := by
      rw [hfold]
      have := f.selector.toNat_le
      have := f.conversion.toNat_le
      have := f.scheduler.toNat_le
      have := f.beforeChange.toNat_le
      omega
    have hor := Nat.two_pow_add_eq_or_of_lt hlow f.reserved.val
    have hbits : bits.foldl (· ||| ·) 0 ||| 16 * f.reserved.val = f.bits := by
      rw [Nat.or_comm, ← hor, hfold, Features.bits, Nat.add_comm]
    simp [wordBits?_hex, foldl_append, hbits]

theorem toList_text (f : Features) :
    f.text.toList = [] ++ [' ', '|', ' '].intercalate (f.words.map String.toList) := by
  have hbars : " | ".toList = [' ', '|', ' '] := rfl
  rw [text_eq, String.toList_intercalate, hbars, nil_append]

/-- The words are found in the text. -/
theorem split_text {f : Features} (h : f.words ≠ []) :
    (f.text.toList.splitOn '|').map (fun w => Text.trim (String.ofList w)) = f.words := by
  have hwords : ∀ w ∈ f.words.map String.toList, Text.Word w :=
    forall_mem_map.2 fun w hw => word_of_mem_words hw
  rw [toList_text, Text.split_words (by simpa using h) hwords (by simp), map_map]
  simp

/-- A text that holds a word is not blank. -/
theorem isEmpty_trim_text {f : Features} (h : f.words ≠ []) : (Text.trim f.text).isEmpty = false := by
  obtain ⟨w, ws, hwords⟩ := exists_cons_of_ne_nil h
  have hw : Text.Word w.toList := word_of_mem_words (f := f) (hwords ▸ mem_cons_self)
  obtain ⟨c, hc⟩ := exists_mem_of_ne_nil _ hw.ne_nil
  have hmem : c ∈ f.text.toList := by
    rw [toList_text, hwords, nil_append, map_cons]
    exact (Text.prefix_intercalate _ _ _).subset hc
  rw [Bool.eq_false_iff]
  intro hempty
  have htrim := Text.mem_trim hmem (hw.solid c hc)
  rw [String.isEmpty_iff.1 hempty] at htrim
  cases htrim

/-- Features are read back from their text. -/
theorem ofText?_text (f : Features) : ofText? f.text = some f := by
  have hbits := bits_of_words f
  by_cases hwords : f.words = []
  · -- No words stand for no bits, and are stored as nothing.
    have hempty : (Text.trim f.text).isEmpty = true := by
      rw [text_eq, hwords]
      rfl
    have hzero : 0 = f.bits := by simpa [hwords] using hbits
    rw [ofText?, if_pos hempty, hzero, ofBits?_bits]
  · obtain ⟨bits, hread, hfold⟩ := Option.map_eq_some_iff.1 hbits
    rw [ofText?, isEmpty_trim_text hwords, if_neg Bool.false_ne_true, split_text hwords]
    simp only [hread, Option.bind_eq_bind, Option.bind_some, hfold, ofBits?_bits]

end Features

end DataBinding
