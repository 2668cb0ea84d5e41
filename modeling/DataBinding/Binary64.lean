/-!
# 64-bit binary floating point

A number is kept as its bit pattern. Equality follows IEEE 754: no NaN equals anything, and the two
zeros are equal. The decimal text has the fewest digits that read back as the number, the nearest
of those, and never an exponent.
-/

namespace DataBinding

/-- A floating-point number by its bits. -/
structure Binary64 where
  bits : UInt64
deriving DecidableEq, Inhabited

namespace Binary64

def isNegative (x : Binary64) : Bool := x.bits.toNat.testBit 63

/-- The eleven exponent bits. -/
def exponentBits (x : Binary64) : Nat := x.bits.toNat / 0x10000000000000 % 2048

/-- The 52 fraction bits. -/
def fraction (x : Binary64) : Nat := x.bits.toNat % 0x10000000000000

def isNaN (x : Binary64) : Bool := x.exponentBits == 2047 && x.fraction != 0

def isInfinite (x : Binary64) : Bool := x.exponentBits == 2047 && x.fraction == 0

def isZero (x : Binary64) : Bool := x.exponentBits == 0 && x.fraction == 0

/-- Equality of the numbers. -/
def eqv (x y : Binary64) : Bool :=
  !x.isNaN && !y.isNaN && (x == y || (x.isZero && y.isZero))

theorem eqv_comm (x y : Binary64) : x.eqv y = y.eqv x := by
  unfold eqv
  rw [show (x == y) = (y == x) from BEq.comm]
  cases x.isNaN <;> cases y.isNaN <;> cases x.isZero <;> cases y.isZero <;> rfl

theorem eqv_self_iff (x : Binary64) : x.eqv x = true ↔ x.isNaN = false := by
  unfold eqv
  cases x.isNaN <;> simp only [beq_self_eq_true, Bool.true_or, Bool.not_false, Bool.not_true,
    Bool.and_true, Bool.and_false, reduceCtorEq]

theorem eqv_trans {x y z : Binary64} (h₁ : x.eqv y = true) (h₂ : y.eqv z = true) :
    x.eqv z = true := by
  simp only [eqv, Bool.and_eq_true, Bool.not_eq_true', Bool.or_eq_true, beq_iff_eq] at *
  obtain ⟨⟨hx, hy⟩, rfl | ⟨hx0, hy0⟩⟩ := h₁
  · exact h₂
  · obtain ⟨⟨_, hz⟩, rfl | ⟨_, hz0⟩⟩ := h₂
    · exact ⟨⟨hx, hy⟩, .inr ⟨hx0, hy0⟩⟩
    · exact ⟨⟨hx, hz⟩, .inr ⟨hx0, hz0⟩⟩

/-! ## Decimal text -/

/-- The significand of a finite number, as a whole number. -/
def significand (x : Binary64) : Nat :=
  if x.exponentBits = 0 then x.fraction else 0x10000000000000 + x.fraction

/-- The power of two that the significand is multiplied by. -/
def exponent (x : Binary64) : Int := max x.exponentBits 1 - 1075

/-- Four times the size of the number, and the ends of the interval of reals that round to it, as
numerators over one denominator. -/
structure Rounding where
  low : Nat
  middle : Nat
  high : Nat
  denominator : Nat
  /-- Whether the ends round to the number as well. -/
  closed : Bool

def rounding (x : Binary64) : Rounding :=
  let up := Nat.pow 2 x.exponent.toNat
  let m := 4 * x.significand
  { low := (if x.fraction = 0 ∧ 1 < x.exponentBits then m - 1 else m - 2) * up
    middle := m * up
    high := (m + 2) * up
    denominator := 4 * Nat.pow 2 (-x.exponent).toNat
    closed := x.significand % 2 == 0 }

/-- Whether `d` units of `unit / scale` lie in the interval. -/
def Rounding.holds (r : Rounding) (unit scale d : Nat) : Bool :=
  let v := d * unit * r.denominator
  if r.closed then r.low * scale ≤ v && v ≤ r.high * scale
  else r.low * scale < v && v < r.high * scale

/-- The place of the decimal point before the first digit that is not zero: the least power of ten
above the number. -/
def Rounding.magnitude (r : Rounding) : Int :=
  if r.denominator ≤ r.middle then (Nat.toDigits 10 (r.middle / r.denominator)).length
  else -(((List.range 400).find? fun z => r.denominator ≤ r.middle * Nat.pow 10 (z + 1)).getD 0 : Nat)

/-- The decimal with `n` digits that lies in the interval and nearest to the number; the larger one
where two are equally near. -/
def Rounding.digits? (r : Rounding) (n : Nat) : Option Nat :=
  let k : Int := r.magnitude - n
  let unit := Nat.pow 10 k.toNat
  let scale := Nat.pow 10 (-k).toNat
  let below := r.middle * scale / (r.denominator * unit)
  let rest := r.middle * scale % (r.denominator * unit)
  let half := compare (2 * rest) (r.denominator * unit)
  let nearer := if half = .lt then below else below + 1
  let other := if nearer = below then below + 1 else below
  if r.holds unit scale nearer then some nearer
  else if r.holds unit scale other then some other
  else none

/-- The fewest digits that read back, and the place of the decimal point. A number just below a power
of ten may round up to it, which leaves a single digit. -/
def Rounding.shortest (r : Rounding) : List Char × Int :=
  match (List.range' 1 17).findSome? fun n => (r.digits? n).map fun d => (d, n) with
  | some (d, n) =>
    let ds := Nat.toDigits 10 d
    ((ds.reverse.dropWhile (· = '0')).reverse, r.magnitude + (ds.length - n : Int))
  | none => (['0'], 1)

/-- Digits with the decimal point at `point`, filled up with zeros. -/
def positional (ds : List Char) (point : Int) : List Char :=
  if point ≤ 0 then '0' :: '.' :: (List.replicate (-point).toNat '0' ++ ds)
  else if ds.length ≤ point then ds ++ List.replicate (point.toNat - ds.length) '0'
  else ds.take point.toNat ++ '.' :: ds.drop point.toNat

/-- The number in decimal, without an exponent. -/
def text (x : Binary64) : String :=
  if x.isNaN then "NaN"
  else
    let sign := if x.isNegative then "-" else ""
    if x.isInfinite then sign ++ "inf"
    else if x.isZero then sign ++ "0"
    else
      let (ds, point) := x.rounding.shortest
      sign ++ String.ofList (positional ds point)

end Binary64

end DataBinding
