import Mathlib.Algebra.BigOperators.Fin
import Mathlib.Tactic.Ring
import DataBinding.Proofs.Naming.Tokens
/-!
# What a token is made of

Folding components into 64 bits is a sum in base 31, up to multiples of `2 ^ 64` (`toNat_bits_addAll`). A
component is a number of 32 bits, so the sum of up to seven of them does not even reach the sign
(`total_lt`), and what is folded is the sum itself (`toNat_bits_eq_total`, `value_eq_bits`). However many
components there are, the sum has a closed form (`total_eq_sum`): the weights are its digits, after a leading 17.
The bits hold it modulo `2 ^ 64` and the value modulo `2 ^ 63`, since what one wrapping loses the other would
drop as well (`value_eq_sum`).

A place has four components. `SourcePlace.token_eq_iff`: its token tells the sum of them, that is, its weight; two
places that differ in one component have one token exactly if this component counts the same in both.
-/

namespace DataBinding

/-- What is folded into a token: a text or a number. -/
inductive Component where
  | text (s : String)
  | number (n : UInt32)

/-- What a component counts with. -/
def Component.weight : Component → UInt32
  | text s => fnv1a s
  | number n => n

/-! ## Folding components -/

namespace TokenFold

def addComponent (f : TokenFold) : Component → TokenFold
  | .text s => f.addText s
  | .number n => f.addNumber n

def addAll (f : TokenFold) (cs : List Component) : TokenFold := cs.foldl addComponent f

/-- The sum of what is folded after `n`, with nothing lost. -/
def total (n : Nat) (cs : List Component) : Nat := cs.foldl (fun n c => n * 31 + c.weight.toNat) n

variable (f : TokenFold) (c : Component) (cs : List Component)

theorem toNat_bits_addComponent :
    (f.addComponent c).bits.toNat = (f.bits.toNat * 31 + c.weight.toNat) % 2 ^ 64 := by
  have hadd : f.addComponent c = f.add c.weight.toUInt64 := by cases c <;> rfl
  rw [hadd, add, UInt64.toNat_add, UInt64.toNat_mul, UInt32.toNat_toUInt64, Nat.mod_add_mod]
  rfl

/-- What the start has lost is lost in the end, and nothing else. -/
theorem total_mod (n : Nat) : total (n % 2 ^ 64) cs % 2 ^ 64 = total n cs % 2 ^ 64 := by
  induction cs generalizing n with
  | nil => exact Nat.mod_mod _ _
  | cons c cs ih =>
    change total (n % 2 ^ 64 * 31 + c.weight.toNat) cs % 2 ^ 64 = total (n * 31 + c.weight.toNat) cs % 2 ^ 64
    have hstep : (n % 2 ^ 64 * 31 + c.weight.toNat) % 2 ^ 64 = (n * 31 + c.weight.toNat) % 2 ^ 64 := by omega
    rw [← ih, hstep, ih]

/-- The bits are the sum, up to what they cannot hold. -/
theorem toNat_bits_addAll : (f.addAll cs).bits.toNat = total f.bits.toNat cs % 2 ^ 64 := by
  induction cs generalizing f with
  | nil => exact (Nat.mod_eq_of_lt f.bits.toNat_lt).symm
  | cons c cs ih =>
    change ((f.addComponent c).addAll cs).bits.toNat = total (f.bits.toNat * 31 + c.weight.toNat) cs % 2 ^ 64
    rw [ih, toNat_bits_addComponent, total_mod]

/-- A component is below 30 times what is added on both sides, so that the bound grows by 31 with each. -/
theorem total_add_le (n : Nat) : total n cs + 143165577 ≤ (n + 143165577) * 31 ^ cs.length := by
  induction cs generalizing n with
  | nil => simp [total]
  | cons c cs ih =>
    have hc := c.weight.toNat_lt
    calc total (n * 31 + c.weight.toNat) cs + 143165577
        ≤ (n * 31 + c.weight.toNat + 143165577) * 31 ^ cs.length := ih _
      _ ≤ ((n + 143165577) * 31) * 31 ^ cs.length := Nat.mul_le_mul_right _ (by omega)
      _ = (n + 143165577) * 31 ^ (cs.length + 1) := by rw [Nat.pow_succ', Nat.mul_assoc]

variable {cs}

/-- Up to seven components do not reach the sign. -/
theorem total_lt (h : cs.length ≤ 7) : total 17 cs < 2 ^ 63 := by
  have hpow : 31 ^ cs.length ≤ 31 ^ 7 := Nat.pow_le_pow_right (by decide) h
  have hle := total_add_le cs 17
  omega

/-- Up to seven components are folded without loss. -/
theorem toNat_bits_eq_total (h : cs.length ≤ 7) : (start.addAll cs).bits.toNat = total 17 cs := by
  have hlt := total_lt h
  have hstart : start.bits.toNat = 17 := rfl
  rw [toNat_bits_addAll, hstart]
  exact Nat.mod_eq_of_lt (by omega)

/-- Up to seven components leave the sign alone. -/
theorem value_eq_bits (h : cs.length ≤ 7) : (start.addAll cs).value = (start.addAll cs).bits := by
  rw [← UInt64.toNat_inj, toNat_value, toNat_bits_eq_total h]
  exact Nat.mod_eq_of_lt (total_lt h)

/-- Tokens of up to seven components tell their sums. -/
theorem token_addAll_eq_iff {cs' : List Component} (h : cs.length ≤ 7) (h' : cs'.length ≤ 7) :
    (start.addAll cs).token = (start.addAll cs').token ↔ total 17 cs = total 17 cs' := by
  rw [token_eq_iff_value, value_eq_bits h, value_eq_bits h', ← UInt64.toNat_inj, toNat_bits_eq_total h,
    toNat_bits_eq_total h']

/-! ## The closed form -/

/-- Each weight counts by its place from the end, and the start by the number of components. -/
theorem total_eq_sum (n : Nat) (cs : List Component) : total n cs =
    n * 31 ^ cs.length + ∑ i : Fin cs.length, cs[i].weight.toNat * 31 ^ (cs.length - (i + 1)) := by
  induction cs generalizing n with
  | nil => simp [total]
  | cons c cs ih =>
    -- the first weight counts by the number of components after it, like the start before
    have hsum : ∑ i : Fin (c :: cs).length, (c :: cs)[i].weight.toNat * 31 ^ ((c :: cs).length - (i + 1)) =
        c.weight.toNat * 31 ^ cs.length + ∑ i : Fin cs.length, cs[i].weight.toNat * 31 ^ (cs.length - (i + 1)) := by
      refine (Fin.sum_univ_succ (n := cs.length) _).trans ?_
      simp
    calc total n (c :: cs)
        = total (n * 31 + c.weight.toNat) cs := rfl
      _ = n * 31 ^ (c :: cs).length + (c.weight.toNat * 31 ^ cs.length +
            ∑ i : Fin cs.length, cs[i].weight.toNat * 31 ^ (cs.length - (i + 1))) := by
          rw [ih, List.length_cons, Nat.pow_succ]
          ring
      _ = _ := by rw [hsum]

/-- What is lost beyond the bits is a multiple of what the sign is dropped by. -/
theorem toNat_value_addAll (f : TokenFold) (cs : List Component) :
    (f.addAll cs).value.toNat = total f.bits.toNat cs % 2 ^ 63 := by
  rw [toNat_value, toNat_bits_addAll]
  exact Nat.mod_mod_of_dvd _ (Nat.pow_dvd_pow 2 (by decide))

/-- **The value of a token in closed form.** Whatever is folded and however long it is, the value is the number
with the weights as digits in base 31, after a leading 17, modulo `2 ^ 63`. The token has sixteen lower-case
digits, which are read back as the value; so the same token means the same value. -/
theorem value_eq_sum (cs : List Component) :
    (start.addAll cs).value.toNat = (17 * 31 ^ cs.length +
      ∑ i : Fin cs.length, cs[i].weight.toNat * 31 ^ (cs.length - (i + 1))) % 2 ^ 63 ∧
    (start.addAll cs).token.toList.length = 16 ∧
    (∀ c ∈ (start.addAll cs).token.toList, Text.IsLowerHex c) ∧
    Text.ofHex? (start.addAll cs).token.toList = some (start.addAll cs).value.toNat ∧
    ∀ cs', (start.addAll cs).token = (start.addAll cs').token ↔
      (start.addAll cs).value = (start.addAll cs').value := by
  refine ⟨?_, length_token _, fun c => Text.isLowerHex_of_mem_hex, Text.ofHex?_hex _ _,
    fun cs' => token_eq_iff_value⟩
  rw [toNat_value_addAll, ← total_eq_sum]
  rfl

end TokenFold

/-! ## Places -/

/-- A place in the source that something is named after. -/
structure SourcePlace where
  owner : String
  file : String
  line : UInt32
  discriminator : String

namespace SourcePlace

def token (p : SourcePlace) : String := placeToken p.owner p.file p.line p.discriminator

def components (p : SourcePlace) : List Component :=
  [.text p.owner, .text p.file, .number p.line, .text p.discriminator]

/-- What the components of a place count together. -/
def weight (p : SourcePlace) : Nat :=
  31 ^ 3 * (fnv1a p.owner).toNat + 31 ^ 2 * (fnv1a p.file).toNat + 31 * p.line.toNat
    + (fnv1a p.discriminator).toNat

theorem token_eq (p : SourcePlace) : p.token = (TokenFold.start.addAll p.components).token := rfl

/-- A place has four components. -/
theorem length_components_le (p : SourcePlace) : p.components.length ≤ 7 := Nat.le_add_right 4 3

theorem total_components (p : SourcePlace) : TokenFold.total 17 p.components = 17 * 31 ^ 4 + p.weight := by
  simp only [TokenFold.total, components, List.foldl_cons, List.foldl_nil, Component.weight, weight]
  omega

/-- Tokens of places tell the weights. -/
theorem token_eq_iff_weight (p q : SourcePlace) : p.token = q.token ↔ p.weight = q.weight := by
  rw [token_eq, token_eq, TokenFold.token_addAll_eq_iff p.length_components_le q.length_components_le,
    total_components, total_components]
  omega

/-- While a place is folded the bits are the exact sum after each component, and the sign is not reached, so
that two places have one token exactly if they have one weight. Places that differ only in the line always have
two tokens; those that differ in one text have one token exactly if both texts have one hash. -/
theorem token_eq_iff (p q : SourcePlace) :
    p.token = (TokenFold.start.addAll p.components).token ∧
    (∀ k, (TokenFold.start.addAll (p.components.take k)).bits.toNat =
      TokenFold.total 17 (p.components.take k)) ∧
    (TokenFold.start.addAll p.components).value = (TokenFold.start.addAll p.components).bits ∧
    (p.token = q.token ↔ p.weight = q.weight) ∧
    (∀ line, p.token = { p with line }.token ↔ p.line = line) ∧
    (∀ owner, p.token = { p with owner }.token ↔ fnv1a p.owner = fnv1a owner) ∧
    (∀ file, p.token = { p with file }.token ↔ fnv1a p.file = fnv1a file) ∧
    ∀ discriminator, p.token = { p with discriminator }.token ↔
      fnv1a p.discriminator = fnv1a discriminator := by
  refine ⟨rfl, fun k => ?_, ?_, token_eq_iff_weight p q, fun line => ?_, fun owner => ?_, fun file => ?_,
    fun discriminator => ?_⟩
  · exact TokenFold.toNat_bits_eq_total (Nat.le_trans (List.take_sublist k _).length_le p.length_components_le)
  · exact TokenFold.value_eq_bits p.length_components_le
  -- One component differs, and the weights differ by a multiple of what it counts.
  all_goals
    rw [token_eq_iff_weight, ← UInt32.toNat_inj]
    simp only [weight]
    omega

end SourcePlace

end DataBinding
