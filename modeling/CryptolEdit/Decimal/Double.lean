/-!
Numbers of double precision, without sign.

A double is a significand times a power of two. The significand has at most 53 bits, and exactly 53
unless the number is too small for that. `nearest?` rounds a fraction to a double, ties to the even
significand, and refuses numbers too large to have one. All other operations are exact ones on
fractions followed by one rounding.
-/

namespace CryptolEdit.Decimal

/-- The number `significand * 2 ^ exponent`. -/
structure Double where
  significand : Nat
  exponent : Int
deriving DecidableEq, Repr

namespace Double

/-- Bits of a significand. -/
def precision : Nat := 53

/-- The exponent of the smallest doubles. -/
def leastExponent : Int := -1074

/-- The exponent of the largest doubles. -/
def greatestExponent : Int := 971

def zero : Double := ⟨0, leastExponent⟩

def isZero (x : Double) : Bool := x.significand == 0

/-- A quotient rounded to the nearest number, a half to the even one. -/
def roundDiv (num den : Nat) : Nat :=
  let q := num / den
  let r := num % den
  if 2 * r < den then q
  else if 2 * r > den then q + 1
  else if q % 2 = 0 then q else q + 1

/-- The numerator and denominator of a fraction times a power of two. -/
def scale (num den : Nat) (exponent : Int) : Nat × Nat :=
  (num * Nat.pow 2 exponent.toNat, den * Nat.pow 2 (-exponent).toNat)

/-- The double nearest to a fraction; none if the fraction is too large. -/
def nearest? (num den : Nat) : Option Double :=
  if num = 0 then
    some zero
  else
    let guess : Int := (num.log2 : Int) - den.log2
    let (n, d) := scale num den (-guess)
    let magnitude := if d ≤ n then guess else guess - 1
    let exponent := max (magnitude - (precision - 1)) leastExponent
    let (n, d) := scale num den (-exponent)
    let m := roundDiv n d
    let x : Double := if m = Nat.pow 2 precision then ⟨m / 2, exponent + 1⟩ else ⟨m, exponent⟩
    if x.exponent ≤ greatestExponent then some x else none

/-- The nearest double to a number. -/
def ofNat? (n : Nat) : Option Double := nearest? n 1

/-- The product, rounded. -/
def mul? (x y : Double) : Option Double :=
  let (n, d) := scale (x.significand * y.significand) 1 (x.exponent + y.exponent)
  nearest? n d

/-- The quotient, rounded. -/
def div? (x y : Double) : Option Double :=
  let (n, d) := scale x.significand y.significand (x.exponent - y.exponent)
  nearest? n d

/-- The largest power of ten that is a double has this exponent. -/
def greatestTen : Nat := 308

/-- A power of ten, rounded. -/
def ten? (n : Nat) : Option Double := ofNat? (Nat.pow 10 n)

/-- A double times a power of ten, in one rounding if the power is a double itself. Smaller numbers
are divided by the largest power again and again, and end at zero. -/
def timesTen? (x : Double) (exponent : Int) : Option Double :=
  if exponent.natAbs ≤ greatestTen then do
    let ten ← ten? exponent.natAbs
    if 0 ≤ exponent then x.mul? ten else x.div? ten
  else if x.isZero then
    some x
  else if 0 ≤ exponent then
    none
  else do
    let smaller ← x.div? (← ten? greatestTen)
    smaller.timesTen? (exponent + greatestTen)
termination_by exponent.natAbs
decreasing_by simp only [greatestTen] at *; omega

end Double

end CryptolEdit.Decimal
