import CryptolEdit.Text

/-!
Natural numbers in decimal notation, written and read one digit at a time.
-/

namespace CryptolEdit.Decimal

/-- The character for a digit. -/
def digit (n : Nat) : Char := Char.ofNat (48 + n % 10)

/-- The digits of a number, without leading zeros. -/
def digits (n : Nat) : Text :=
  if n < 10 then [digit n] else digits (n / 10) ++ [digit n]

def isDigit (c : Char) : Bool := '0' ≤ c && c ≤ '9'

/-- The number that a digit stands for. -/
def valueOf (c : Char) : Nat := c.toNat - 48

end CryptolEdit.Decimal
