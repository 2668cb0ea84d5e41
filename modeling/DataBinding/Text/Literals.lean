import DataBinding.Text.Characters
/-!
# Numbers and texts, written out

`hex width n` writes a number in lower-case digits, with leading zeros up to the width; `ofHex?` reads digits of
either case. `ofHex?_hex`: reading what was written gives the number back. `ofDecimal?` reads a whole number: an
optional sign, then at least one digit, and nothing else.

`quote` puts a text between double quotes, with what cannot be seen written out. Quotes and backslashes get a
backslash, five controls have a letter or digit of their own, and any other invisible character is given by its
code point.
-/

namespace DataBinding.Text

/-! ## Hexadecimal digits -/

/-- The digit for a number below sixteen. -/
def hexDigit (n : Nat) : Char :=
  if n < 10 then Char.ofNat (48 + n) else Char.ofNat (87 + n)

/-- What a digit of either case stands for. -/
def hexValue? (c : Char) : Option Nat :=
  if '0' ≤ c ∧ c ≤ '9' then some (c.toNat - 48)
  else if 'a' ≤ c ∧ c ≤ 'f' then some (c.toNat - 87)
  else if 'A' ≤ c ∧ c ≤ 'F' then some (c.toNat - 55)
  else none

/-- The lowest `width` digits of a number, highest first. -/
def hexDigits : (width : Nat) → Nat → List Char
  | 0, _ => []
  | w + 1, n => hexDigits w (n / 16) ++ [hexDigit (n % 16)]

/-- How many digits a number needs; at least one. -/
def hexWidth (n : Nat) : Nat := if n = 0 then 1 else n.log2 / 4 + 1

def hex (width n : Nat) : String := String.ofList (hexDigits (max width (hexWidth n)) n)

/-- The number written in these digits, or nothing if one is no digit. -/
def ofHex? (digits : List Char) : Option Nat :=
  digits.foldlM (fun n c => (hexValue? c).map (16 * n + ·)) 0

/-! ### Reading what was written -/

theorem hexValue?_hexDigit : ∀ n < 16, hexValue? (hexDigit n) = some n := by decide

theorem ofHex?_hexDigits (w n : Nat) (h : n < Nat.pow 16 w) :
    ofHex? (hexDigits w n) = some n := by
  induction w generalizing n with
  | zero => simp at h; subst h; rfl
  | succ w ih =>
    have hd := ih (n / 16) (Nat.div_lt_of_lt_mul (by rw [Nat.mul_comm]; exact h))
    unfold ofHex? at hd ⊢
    simp only [hexDigits, List.foldlM_append, hd, List.foldlM_cons, List.foldlM_nil,
      hexValue?_hexDigit (n % 16) (Nat.mod_lt _ (by decide))]
    simp only [Option.bind_eq_bind, Option.bind_some, Option.map_some, Option.pure_def]
    rw [Nat.div_add_mod]

theorem lt_pow_hexWidth (n : Nat) : n < Nat.pow 16 (hexWidth n) := by
  unfold hexWidth
  split
  · next h => subst h; decide
  · calc
      n < 2 ^ (n.log2 + 1) := Nat.lt_log2_self
      _ ≤ 2 ^ (4 * (n.log2 / 4 + 1)) := Nat.pow_le_pow_right (by decide) (by omega)
      _ = 16 ^ (n.log2 / 4 + 1) := Nat.pow_mul 2 4 _

theorem ofHex?_hex (width n : Nat) : ofHex? (hex width n).toList = some n := by
  rw [hex, String.toList_ofList]
  refine ofHex?_hexDigits _ _ (Nat.lt_of_lt_of_le (lt_pow_hexWidth n) ?_)
  exact Nat.pow_le_pow_right (by decide) (Nat.le_max_right _ _)

/-! ## Decimal numbers -/

/-- The number written in these digits, or nothing if there is none or one is no digit. -/
def ofDigits? : List Char → Option Nat
  | [] => none
  | digits =>
    if digits.all Char.isDigit then some (digits.foldl (fun n c => 10 * n + (c.toNat - 48)) 0)
    else none

/-- The whole number in a text. -/
def ofDecimal? (s : String) : Option Int :=
  match s.toList with
  | '-' :: digits => (ofDigits? digits).map fun n => -(n : Int)
  | '+' :: digits => (ofDigits? digits).map fun n => (n : Int)
  | digits => (ofDigits? digits).map fun n => (n : Int)

/-! ## Quoted text -/

/-- A character as it stands between the quotes. -/
def quoteChar (c : Char) : List Char :=
  if c = '"' then ['\\', '"']
  else if c = '\\' then ['\\', '\\']
  else if c = '\t' then ['\\', 't']
  else if c = '\n' then ['\\', 'n']
  else if c = '\r' then ['\\', 'r']
  else if c = Char.ofNat 0 then ['\\', '0']
  else if isInvisible c then "\\u\x7b".toList ++ hexDigits (hexWidth c.toNat) c.toNat ++ ['\x7d']
  else [c]

def quote (s : String) : String :=
  "\"" ++ String.ofList (s.toList.flatMap quoteChar) ++ "\""

end DataBinding.Text
