import CryptolEdit.Text.Printable

/-!
Text quoted in messages. Control characters that have a short escape get it, and so do the quote
and the backslash; other characters that cannot be shown are written as code points.
-/

namespace CryptolEdit.Text

/-- The letter of a short escape. -/
def shortEscape? : Char → Option Char
  | '\x00' => some '0'
  | '\t' => some 't'
  | '\r' => some 'r'
  | '\n' => some 'n'
  | '\\' => some '\\'
  | '"' => some '"'
  | _ => none

/-- A character by its code point. -/
def codePoint (c : Char) : Text := "\\u\x7b".toList ++ Nat.toDigits 16 c.toNat ++ ['\x7d']

/-- A character as it stands between quotes. -/
def shown (c : Char) : Text :=
  match shortEscape? c with
  | some letter => ['\\', letter]
  | none => if isExtending c || !isPrintable c then codePoint c else [c]

/-- A text between quotes. -/
def quoted (t : Text) : Text := ['"'] ++ t.flatMap shown ++ ['"']

end CryptolEdit.Text
