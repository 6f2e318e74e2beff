import CryptolEdit.Decimal.Digits
import CryptolEdit.Decimal.Double

/-!
The fewest decimal digits that read back as a given double.

Every double is the rounding of an interval of real numbers. For one digit, then two, and so on, the
two decimals around the double are tried, and the first that lies in the interval is taken, the
nearer of two, the even of two that are equally near. Seventeen digits are always enough.
-/

namespace CryptolEdit.Decimal

/-- The number `significand * 10 ^ exponent`. -/
structure Scientific where
  significand : Nat
  exponent : Int
deriving DecidableEq, Repr

/-- The same number with no zero at the end of its significand. -/
def Scientific.trim (d : Scientific) : Scientific :=
  if h : d.significand ≠ 0 ∧ d.significand % 10 = 0 then
    Scientific.trim ⟨d.significand / 10, d.exponent + 1⟩
  else
    d
termination_by d.significand
decreasing_by omega

namespace Double

/-- Orders a decimal and a number of quarters of a double's last place. -/
def compareQuarters (d : Scientific) (quarters : Nat) (exponent : Int) : Ordering :=
  let binary := exponent - 2
  compare (d.significand * Nat.pow 10 d.exponent.toNat * Nat.pow 2 (-binary).toNat)
    (quarters * Nat.pow 2 binary.toNat * Nat.pow 10 (-d.exponent).toNat)

/-- Whether a decimal rounds to a double. The ends of the interval belong to even significands, and
below a power of two the interval is half as long. -/
def isRoundedFrom (x : Double) (d : Scientific) : Bool :=
  let even := x.significand % 2 == 0
  let low := 4 * x.significand -
    if x.significand = Nat.pow 2 (precision - 1) ∧ leastExponent < x.exponent then 1 else 2
  let high := 4 * x.significand + 2
  let above := compareQuarters d low x.exponent
  let below := compareQuarters d high x.exponent
  (above == .gt || (even && above == .eq)) && (below == .lt || (even && below == .eq))

/-- The exponent of the leading digit of a fraction above zero. -/
def leadingExponent (num den : Nat) : Int :=
  if den ≤ num then
    ((digits (num / den)).length : Int) - 1
  else
    -((digits ((den + num - 1) / num - 1)).length : Int)

/-- The decimal with a number of digits that rounds to a double, if there is one. -/
def withDigits? (x : Double) (count : Nat) : Option Scientific :=
  let (num, den) := scale x.significand 1 x.exponent
  let exponent := leadingExponent num den + 1 - count
  let den' := den * Nat.pow 10 exponent.toNat
  let num' := num * Nat.pow 10 (-exponent).toNat
  let near := roundDiv num' den'
  let far := if near = num' / den' then near + 1 else near - 1
  ([near, far].map fun n => ⟨n, exponent⟩).find? x.isRoundedFrom

/-- The fewest digits that read back as a double. -/
def shortest (x : Double) : Scientific :=
  match (List.range 17).findSome? fun n => x.withDigits? (n + 1) with
  | some d => d.trim
  | none => ⟨0, 0⟩

end Double

-- ========================================================= notation

/-- Where numbers are written out in full, and where with an exponent. -/
structure Layout where
  /-- The smallest exponent of a leading digit that is written out. -/
  least : Int
  /-- The greatest exponent of a leading digit that is written out. -/
  greatest : Int

/-- A decimal with a point, and an exponent where the layout asks for one. -/
def Layout.render (layout : Layout) (d : Scientific) : Text :=
  let ds := digits d.significand
  let leading := d.exponent + ds.length - 1
  let zeros (n : Int) : Text := List.replicate n.toNat '0'
  if d.significand = 0 then
    "0.0".toList
  else if leading < layout.least ∨ layout.greatest < leading then
    let fraction := if ds.length = 1 then [] else '.' :: ds.drop 1
    let sign := if leading < 0 then '-' else '+'
    ds.take 1 ++ fraction ++ ['e', sign] ++ digits leading.natAbs
  else if 0 ≤ d.exponent then
    ds ++ zeros d.exponent ++ ".0".toList
  else if 0 ≤ leading then
    ds.take (leading.toNat + 1) ++ ['.'] ++ ds.drop (leading.toNat + 1)
  else
    "0.".toList ++ zeros (-leading - 1) ++ ds

end CryptolEdit.Decimal
