import CryptolEdit.Decimal.Double
import CryptolEdit.Decimal.Digits

/-!
Numbers as programs read them from their arguments.

A reader takes the longest numeral at the start of a text, after blanks and a sign, and gives what
is left of the text. Integers have 64 bits; larger ones are cut to the nearest that fits.
-/

namespace CryptolEdit.Machine

/-- Blanks that may stand before a number. -/
def isGap (c : Char) : Bool :=
  c == ' ' || c == '\t' || c == '\n' || c == '\r' || c == '\x0b' || c == '\x0c'

/-- The value of a digit in bases up to 16. -/
def digitValue? (c : Char) : Option Nat :=
  if '0' ≤ c && c ≤ '9' then some (c.toNat - 48)
  else if 'a' ≤ c && c ≤ 'f' then some (c.toNat - 87)
  else if 'A' ≤ c && c ≤ 'F' then some (c.toNat - 55)
  else none

def isDigitIn (base : Nat) (c : Char) : Bool := (digitValue? c).any (· < base)

/-- The number that digits of a base stand for. -/
def valueIn (base : Nat) (ds : Text) : Nat :=
  ds.foldl (fun n d => n * base + (digitValue? d).getD 0) 0

/-- The sign at the start of a text, and the rest. -/
def sign : Text → Bool × Text
  | '-' :: r => (true, r)
  | '+' :: r => (false, r)
  | r => (false, r)

/-- The base that a numeral announces, and its digits. A lone zero before an `x` is a numeral of its
own. -/
def announced : Text → Nat × Text
  | '0' :: x :: d :: r =>
    if (x == 'x' || x == 'X') && isDigitIn 16 d then (16, d :: r) else (8, '0' :: x :: d :: r)
  | '0' :: r => (8, '0' :: r)
  | r => (10, r)

/-- A numeral that has been read. -/
structure Numeral where
  value : Int
  rest : Text
  /-- Whether there was a digit at all. -/
  isFound : Bool

/-- Reads an integer. Without a base the numeral announces it. -/
def Numeral.read (base? : Option Nat) (t : Text) : Numeral :=
  let (isNegative, r) := sign (t.dropWhile isGap)
  let (base, r) := match base? with
    | some base => (base, r)
    | none => announced r
  let ds := r.takeWhile (isDigitIn base)
  let n : Int := valueIn base ds
  if ds.isEmpty then ⟨0, t, false⟩ else ⟨if isNegative then -n else n, r.drop ds.length, true⟩

-- ======================================================= 64 bits

def greatestInteger : Int := Int.pow 2 63 - 1

def leastInteger : Int := -Int.pow 2 63

/-- The nearest integer of 64 bits. -/
def clamped (n : Int) : Int := max leastInteger (min greatestInteger n)

/-- The integer of 64 bits that agrees modulo 2 ^ 64. -/
def wrapped (n : Int) : Int := Int.bmod n (Nat.pow 2 64)

/-- The bits of an integer as a natural number. -/
def unsigned (n : Int) : Nat := (n % Int.pow 2 64).toNat

/-- An integer in decimal notation. -/
def integer (n : Int) : Text :=
  if n < 0 then '-' :: Decimal.digits n.natAbs else Decimal.digits n.natAbs

/-- The number of a text that is digits and nothing else. -/
def natural? (t : Text) : Option Nat :=
  if t ≠ [] ∧ t.all Decimal.isDigit then some (valueIn 10 t) else none

-- ============================================================= reals

/-- The exponent that follows a mark, and the rest. -/
def exponentAfter (mark : Char) (t : Text) : Int × Text :=
  match t with
  | e :: r =>
    if e.toLower == mark then
      let (isNegative, r) := sign r
      let ds := r.takeWhile Decimal.isDigit
      let n : Int := min (valueIn 10 ds) 20000
      if ds.isEmpty then (0, t) else (if isNegative then -n else n, r.drop ds.length)
    else
      (0, t)
  | [] => (0, [])

/-- A number that has been read. -/
structure Reading where
  isNegative : Bool := false
  /-- Its amount, unless that is too large for a double. -/
  amount : Option Decimal.Double
  rest : Text
  /-- Whether there was a number at all. -/
  isFound : Bool

/-- Reads digits with a point among them and an exponent after them, which stands for a power of ten
or, after hexadecimal digits, of two. -/
def readDigits (isNegative : Bool) (base : Nat) (t : Text) : Option Reading :=
  let whole := t.takeWhile (isDigitIn base)
  let r := t.drop whole.length
  let part := if r.head? = some '.' then (r.drop 1).takeWhile (isDigitIn base) else []
  if whole.isEmpty && part.isEmpty then none
  else
    let r := if r.head? = some '.' then r.drop (1 + part.length) else r
    let (exponent, rest) := exponentAfter (if base = 16 then 'p' else 'e') r
    let (root, places) := if base = 16 then (2, 4 * part.length) else (10, part.length)
    let scale : Int := exponent - places
    let amount := Decimal.Double.nearest?
      (valueIn base (whole ++ part) * Nat.pow root scale.toNat) (Nat.pow root (-scale).toNat)
    some { isNegative, amount, rest, isFound := true }

/-- Reads a number, which may be in hexadecimal notation. -/
def readNumber (t : Text) : Reading :=
  let (isNegative, r) := sign (t.dropWhile isGap)
  let isHexadecimal := (r.take 2).map Char.toLower == "0x".toList
  let hexadecimal := if isHexadecimal then readDigits isNegative 16 (r.drop 2) else none
  (hexadecimal <|> readDigits isNegative 10 r).getD
    { amount := some .zero, rest := t, isFound := false }

end CryptolEdit.Machine
