import CryptolEdit.Machine.Numeral

/-!
Backslash escapes in what programs are asked to write.

The shell and the programs of the system agree on the letters and on octal digits. They differ in
what else they know, and in where `\c` ends the output.
-/

namespace CryptolEdit.Machine

/-- Who reads an escape: a command of the shell, or a program of its own. -/
inductive Reader where
  | shell
  | tool
deriving DecidableEq, Repr

/-- Where an escape stands: in a format, or in a text that is written by itself. -/
inductive Spot where
  | format
  | text
deriving DecidableEq, Repr

/-- What the characters after a backslash say. -/
inductive Escape where
  /-- Some characters, and the rest of the text. -/
  | gives (written rest : Text)
  /-- Nothing more is written. -/
  | stops
  /-- A number is missing. -/
  | fails

namespace Escape

/-- The character of an escape with one letter. -/
def letter? : Char → Option Char
  | 'a' => some '\x07'
  | 'b' => some '\x08'
  | 'e' => some '\x1b'
  | 'f' => some '\x0c'
  | 'n' => some '\n'
  | 'r' => some '\r'
  | 't' => some '\t'
  | 'v' => some '\x0b'
  | '\\' => some '\\'
  | _ => none

/-- The byte of some digits. -/
def byte (base : Nat) (ds : Text) : Char := Char.ofNat (valueIn base ds % 256)

/-- At most `count` digits. -/
def digits (base count : Nat) (t : Text) : Text := (t.take count).takeWhile (isDigitIn base)

/-- The escape that follows a backslash. In a text a leading zero is not one of the octal digits. -/
def read (reader : Reader) (spot : Spot) : Text → Escape
  | [] => .gives ['\\'] []
  | c :: r =>
    if isDigitIn 8 c then
      if spot = .text ∧ c = '0' then
        let ds := digits 8 3 r
        .gives [byte 8 ds] (r.drop ds.length)
      else
        let ds := digits 8 3 (c :: r)
        .gives [byte 8 ds] ((c :: r).drop ds.length)
    else if c == 'c' && (reader = .tool || spot = .text) then
      .stops
    else if c == 'x' && reader = .tool then
      let ds := digits 16 2 r
      if ds.isEmpty then .fails else .gives [byte 16 ds] (r.drop ds.length)
    else
      match letter? c with
      | some w => .gives [w] r
      | none => if reader = .tool then .gives ['\\', c] r else .gives ['\\'] (c :: r)

theorem length_read {reader : Reader} {spot : Spot} {t w rest : Text}
    (h : read reader spot t = .gives w rest) : rest.length ≤ t.length := by
  unfold read at h
  dsimp only at h
  split at h
  · simp_all
  · next c r =>
    have hd (n : Nat) : (r.drop n).length ≤ (c :: r).length := by simp; omega
    have hd' (n : Nat) : ((c :: r).drop n).length ≤ (c :: r).length := by simp
    have hr : r.length ≤ (c :: r).length := by simp
    repeat' split at h
    all_goals cases h
    · exact hd _
    · exact hd' _
    · exact hd _
    · exact hr
    · exact hr
    · exact Nat.le_refl _

end Escape

/-- Writes a text that is not a format. The flag says whether it broke off at `\c`. -/
def unescaped (reader : Reader) (t : Text) : Text × Bool :=
  match t with
  | [] => ([], false)
  | '\\' :: r =>
    match _h : Escape.read reader .text r with
    | .stops => ([], true)
    | .fails =>
      let (w, isCut) := unescaped reader r
      ('\\' :: w, isCut)
    | .gives w rest =>
      let (v, isCut) := unescaped reader rest
      (w ++ v, isCut)
  | c :: r =>
    let (w, isCut) := unescaped reader r
    (c :: w, isCut)
termination_by t.length
decreasing_by
  · simp
  · exact Nat.lt_succ_of_le (Escape.length_read _h)
  · simp

end CryptolEdit.Machine
