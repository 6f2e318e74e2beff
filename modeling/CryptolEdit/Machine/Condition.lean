import CryptolEdit.Machine.Numeral

/-!
Conditions on texts and numbers, written as a list of words.

Whether a word is an operator depends on how many words there are, so that any text can be tested.
-/

namespace CryptolEdit.Machine.Condition

/-- Why a condition makes no sense. -/
inductive Fault where
  /-- A word is no number. -/
  | number (word : Text)
  /-- There is no operator for what follows a word. -/
  | operator (word : Text)
deriving DecidableEq, Repr

def Fault.message : Fault → Text
  | number word => "Illegal number: ".toList ++ word
  | operator word => word ++ ": unexpected operator".toList

/-- A number of a condition. Blanks may stand around it. -/
def number (t : Text) : Except Fault Int :=
  let n := Numeral.read (some 10) t
  if n.isFound && (n.rest.dropWhile isGap).isEmpty && n.value = clamped n.value then .ok n.value
  else .error (.number t)

/-- Comparisons of numbers by their operators. -/
def comparison? (operator : Text) : Option (Int → Int → Bool) :=
  match String.ofList operator with
  | "-eq" => some fun a b => a = b
  | "-ne" => some fun a b => a ≠ b
  | "-ge" => some fun a b => b ≤ a
  | "-gt" => some fun a b => b < a
  | "-le" => some fun a b => a ≤ b
  | "-lt" => some fun a b => a < b
  | _ => none

/-- The value of a condition. A word without an operator stands for whether it is there. -/
def evaluate (ws : List Text) : Except Fault Bool :=
  match ws with
  | [a, op, b] =>
    match String.ofList op, comparison? op with
    | "=", _ => .ok (a == b)
    | "!=", _ => .ok (a != b)
    | _, some compare => do return compare (← number a) (← number b)
    | _, none => .error (.operator a)
  | [['-', 'n'], a] => .ok !a.isEmpty
  | [['-', 'z'], a] => .ok a.isEmpty
  | a :: _ :: _ => .error (.operator a)
  | [a] => .ok !a.isEmpty
  | [] => .ok false

end CryptolEdit.Machine.Condition
