import CryptolEdit.Text

/-!
User settings: which interpreter to run and with which arguments, and how far to indent.
-/

namespace CryptolEdit

/-- The settings of a user. -/
structure Settings where
  /-- The program to run. -/
  interpreter : Text := "cryptol".toList
  /-- What stands before the document when a session starts. -/
  replArgs : List Text := ["-n".toList]
  /-- What stands before the document when it is compiled. -/
  compileArgs : List Text := ["-b".toList]
  /-- What makes the interpreter list its backends. -/
  backendArgs : List Text := ["--backends".toList]
  /-- Columns per level; the editor's tab width if there is none. -/
  indentWidth : Option UInt64 := none
deriving DecidableEq, Repr

namespace Settings

/-- The settings of a user who has set nothing. -/
def standard : Settings := {}

/-- Columns per level under an editor's tab width. -/
def widthUnder (s : Settings) (tab : UInt64) : UInt64 := s.indentWidth.getD tab

/-- A text is at most this long. -/
def longestText : Nat := Nat.pow 2 63 - 1

/-- The blanks that indent to a level. There are none where no text could hold them. This is a build
that checks products for overflow and gives up on one that 64 bits cannot hold; a build without
these checks goes on with what is left of the product modulo 2 ^ 64. -/
def indent? (s : Settings) (level tab : UInt64) : Option Text :=
  let columns := (s.widthUnder tab).toNat * level.toNat
  if columns ≤ longestText then some (List.replicate columns ' ') else none

end Settings

end CryptolEdit
