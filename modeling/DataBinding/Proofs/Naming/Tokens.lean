import Mathlib.Algebra.Group.Nat.Defs
import DataBinding.Signature
/-!
# What tokens tell

A number below `16 ^ w` is written in `w` digits (`Text.length_hex`), and digits tell the number
(`Text.hex_inj`). So a token has sixteen digits (`length_placeToken`), and the tokens of two places that
differ in their discriminators alone are the same exactly if the hashes of the discriminators are
(`placeToken_eq_iff`): what the hash tells apart, folding and dropping the sign do not confuse.

All names end in a token. So what stands before the token is the same in equal names, although for some kinds
it is the beginning of what it is for others; and it tells the kind (`kind_of_entryPointName`,
`CallSite.kind_of_implementationName`). The name of an implementation starts with an underscore, that of an
entry point never (`entryPointName_ne_implementationName`).
-/

namespace DataBinding

/-! ## Digits -/

namespace Text

theorem length_hexDigits (w n : Nat) : (hexDigits w n).length = w := by
  induction w generalizing n with
  | zero => rfl
  | succ w ih => simp [hexDigits, ih]

theorem hexWidth_le {w n : Nat} (hw : 0 < w) (hn : n < Nat.pow 16 w) : hexWidth n ≤ w := by
  unfold hexWidth
  split
  · exact hw
  · next h0 =>
    have hlog : n.log2 < 4 * w := (Nat.log2_lt h0).2 (Nat.lt_of_lt_of_eq hn (Nat.pow_mul 2 4 w).symm)
    omega

/-- A number that fits is written in as many digits as are asked for. -/
theorem length_hex {w n : Nat} (hw : 0 < w) (hn : n < Nat.pow 16 w) : (hex w n).toList.length = w := by
  rw [hex, String.toList_ofList, length_hexDigits, Nat.max_eq_left (hexWidth_le hw hn)]

/-- Two numbers are not written in the same digits. -/
theorem hex_inj {w m n : Nat} (h : hex w m = hex w n) : m = n := by
  have hread := congrArg (fun s => ofHex? s.toList) h
  simpa [ofHex?_hex] using hread

/-- A digit as it is written. -/
def IsLowerHex (c : Char) : Prop := '0' ≤ c ∧ c ≤ '9' ∨ 'a' ≤ c ∧ c ≤ 'f'

theorem isLowerHex_hexDigit : ∀ n < 16, IsLowerHex (hexDigit n) := by
  unfold IsLowerHex
  decide

theorem isLowerHex_of_mem_hexDigits {w n : Nat} {c : Char} (hc : c ∈ hexDigits w n) : IsLowerHex c := by
  induction w generalizing n with
  | zero => cases hc
  | succ w ih =>
    rcases List.mem_append.1 hc with hc | hc
    · exact ih hc
    · rw [List.mem_singleton.1 hc]
      exact isLowerHex_hexDigit _ (Nat.mod_lt n (by decide))

/-- Only such digits are written. -/
theorem isLowerHex_of_mem_hex {w n : Nat} {c : Char} (hc : c ∈ (hex w n).toList) : IsLowerHex c := by
  rw [hex, String.toList_ofList] at hc
  exact isLowerHex_of_mem_hexDigits hc

end Text

/-! ## Tokens -/

namespace TokenFold

/-- A token has sixteen digits. -/
theorem length_token (f : TokenFold) : f.token.toList.length = 16 :=
  Text.length_hex (by decide) f.value.toNat_lt

/-- Tokens tell the values. -/
theorem token_eq_iff_value {f f' : TokenFold} : f.token = f'.token ↔ f.value = f'.value :=
  ⟨fun h => UInt64.toNat_inj.1 (Text.hex_inj h), fun h => by rw [token, token, h]⟩

/-- The value is what has been folded, without the sign. -/
theorem toNat_value (f : TokenFold) : f.value.toNat = f.bits.toNat % 2 ^ 63 := by
  have hmask : (0x7fffffffffffffff : UInt64).toNat = 2 ^ 63 - 1 := rfl
  rw [value, UInt64.toNat_and, hmask, Nat.and_two_pow_sub_one_eq_mod]

theorem toNat_value_add (f : TokenFold) (x : UInt64) :
    (f.add x).value.toNat = (f.bits.toNat * 31 + x.toNat) % 2 ^ 63 := by
  rw [toNat_value, add, UInt64.toNat_add, UInt64.toNat_mul]
  -- What is lost where the sum does not fit is a multiple of what the mask leaves out.
  simp only [UInt64.reduceToNat]
  omega

/-- After one thing, two texts are told apart by their hashes. -/
theorem value_addText_eq_iff (f : TokenFold) {s t : String} :
    (f.addText s).value = (f.addText t).value ↔ fnv1a s = fnv1a t := by
  constructor
  · intro h
    have hvalue := congrArg UInt64.toNat h
    rw [addText, addText, toNat_value_add, toNat_value_add, UInt32.toNat_toUInt64, UInt32.toNat_toUInt64]
      at hvalue
    have hs := (fnv1a s).toNat_lt
    have ht := (fnv1a t).toNat_lt
    -- Both hashes are far below the modulus, so one shift of them cannot meet where they do not.
    exact UInt32.toNat_inj.1 (by omega)
  · intro h
    rw [addText, addText, h]

end TokenFold

theorem length_placeToken (owner file : String) (line : UInt32) (s : String) :
    (placeToken owner file line s).toList.length = 16 :=
  TokenFold.length_token _

/-- The tokens of one place are told apart by the hashes of the discriminators. -/
theorem placeToken_eq_iff {owner file : String} {line : UInt32} {s t : String} :
    placeToken owner file line s = placeToken owner file line t ↔ fnv1a s = fnv1a t := by
  rw [← TokenFold.value_addText_eq_iff (((TokenFold.start.addText owner).addText file).addNumber line)]
  exact TokenFold.token_eq_iff_value

/-! ## Names -/

/-- Before as many characters, the words for two kinds are not taken for each other. -/
theorem kind_of_entryName {kind kind' : CallKind} {t t' : String} (ht : t.toList.length = t'.toList.length)
    (h : kind.entryName ++ "_" ++ t = kind'.entryName ++ "_" ++ t') : kind = kind' := by
  have hwords : kind.entryName.toList ++ ['_'] = kind'.entryName.toList ++ ['_'] := by
    have hlist := congrArg String.toList h
    simp only [String.toList_append] at hlist
    exact (List.append_inj' hlist ht).1
  -- Some words begin others, but the underscore after them does not go on as these do.
  revert hwords
  cases kind <;> cases kind' <;> decide

/-- The name of an entry point says of which kind it is. -/
theorem kind_of_entryPointName {kind kind' : CallKind} {k k' : Signature}
    (h : entryPointName kind k = entryPointName kind' k') : kind = kind' :=
  kind_of_entryName (by rw [length_placeToken, length_placeToken]) h

/-- The name of an implementation says of which kind its call site is. -/
theorem CallSite.kind_of_implementationName {s s' : CallSite}
    (h : s.implementationName = s'.implementationName) : s.kind = s'.kind := by
  simp only [implementationName, String.append_assoc, String.append_right_inj] at h
  refine kind_of_entryName ?_ (by simpa only [String.append_assoc] using h)
  rw [length_placeToken, length_placeToken]

theorem entryPointName_ne_implementationName (kind : CallKind) (k : Signature) (s : CallSite) :
    entryPointName kind k ≠ s.implementationName := by
  intro h
  have hhead := congrArg (fun name => name.toList.head?) h
  revert hhead
  cases kind <;> simp [entryPointName, CallSite.implementationName, CallKind.entryName]

end DataBinding
