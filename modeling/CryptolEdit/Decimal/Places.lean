import CryptolEdit.Decimal.Digits
import CryptolEdit.Decimal.Double

/-!
Doubles rounded to a given number of decimal places, or of leading digits. The rounding starts from
the exact value, and a half goes to the even neighbour.
-/

namespace CryptolEdit.Decimal

/-- Digits with zeros in front, at least `count` of them. -/
def padded (count n : Nat) : Text :=
  let ds := digits n
  List.replicate (count - ds.length) '0' ++ ds

namespace Double

/-- A double times a power of ten, rounded to a natural number. -/
def roundedTimesTen (x : Double) (exponent : Int) : Nat :=
  let (n, d) := scale x.significand 1 x.exponent
  roundDiv (n * Nat.pow 10 exponent.toNat) (d * Nat.pow 10 (-exponent).toNat)

/-- The digits before and after the point, with a number of places after it. -/
def places (x : Double) (count : Nat) : Text × Text :=
  let ds := padded (count + 1) (x.roundedTimesTen count)
  (ds.take (ds.length - count), ds.drop (ds.length - count))

/-- Whether a double is at least a power of ten. -/
def reaches (x : Double) (exponent : Int) : Bool :=
  let (n, d) := scale x.significand 1 x.exponent
  d * Nat.pow 10 exponent.toNat ≤ n * Nat.pow 10 (-exponent).toNat

/-- The greatest power of ten that a double reaches. The logarithm of its significand is close to
it. -/
def decade (x : Double) : Int :=
  if x.isZero then 0
  else
    let guess := ((x.significand.log2 : Int) + x.exponent) * 30103 / 100000
    if x.reaches (guess + 2) then guess + 2
    else if x.reaches (guess + 1) then guess + 1
    else if x.reaches guess then guess
    else guess - 1

/-- The first digits of a double, one more than `count`, and the power of ten of the first one. -/
def leading (x : Double) (count : Nat) : Text × Int :=
  let e := x.decade
  let n := x.roundedTimesTen (count - e)
  if n < Nat.pow 10 (count + 1) then (padded (count + 1) n, e)
  else (padded (count + 1) (n / 10), e + 1)

end Double

end CryptolEdit.Decimal
