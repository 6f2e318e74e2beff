import CryptolEdit.Shell.Pattern

/-!
Expanded words, and how they fall into fields.

Only what comes from an expansion outside quotes is split. Blanks among the separators count
together, and with one other separator next to them; every other separator ends a field of its own.
-/

namespace CryptolEdit.Shell

/-- A piece of an expanded word. -/
inductive Piece where
  /-- A character. One from an expansion outside quotes may separate fields. -/
  | glyph (c : Char) (isQuoted mayCut : Bool)
  /-- Quotes around nothing, which make a field. -/
  | hollow
  /-- The border between two arguments. -/
  | border
deriving DecidableEq, Repr

namespace Piece

/-- Pieces of a text. -/
def ofText (isQuoted mayCut : Bool) (t : Text) : List Piece :=
  t.map fun c => .glyph c isQuoted (mayCut && !isQuoted)

/-- Pieces of a text that comes from an expansion. -/
def ofValue (isQuoted : Bool) (t : Text) : List Piece :=
  if isQuoted && t.isEmpty then [.hollow] else ofText isQuoted true t

/-- The characters of pieces that are not split. -/
def glyphs (ps : List Piece) : List Glyph :=
  ps.flatMap fun
    | .glyph c q _ => [(c, q)]
    | .hollow | .border => []

/-- The text of pieces that are not split. -/
def text (ps : List Piece) : Text := (glyphs ps).map Prod.fst

/-- Fields that have been cut off, and the one that has begun, all in reverse. -/
structure Cutting where
  fields : List (List Glyph) := []
  current : Option (List Glyph) := none
  /-- Whether blanks have just ended a field. -/
  isAfterBlank : Bool := false

def isBlank (c : Char) : Bool := c == ' ' || c == '\t' || c == '\n'

namespace Cutting

/-- Ends the field that has begun. -/
def close (s : Cutting) : Cutting :=
  match s.current with
  | some f => { s with fields := f.reverse :: s.fields, current := none }
  | none => s

/-- Goes past a piece. -/
def step (separators : Text) (s : Cutting) : Piece → Cutting
  | .hollow => { s with current := some (s.current.getD []), isAfterBlank := false }
  | .border => { s.close with isAfterBlank := false }
  | .glyph c q mayCut =>
    if mayCut && separators.contains c then
      if isBlank c then
        if s.current.isSome then { s.close with isAfterBlank := true } else s
      else if s.current.isNone && !s.isAfterBlank then
        { s with fields := [] :: s.fields }
      else
        { s.close with isAfterBlank := false }
    else
      { s with current := some ((c, q) :: s.current.getD []), isAfterBlank := false }

end Cutting

/-- The fields of pieces. -/
def fields (separators : Text) (ps : List Piece) : List (List Glyph) :=
  ((ps.foldl (Cutting.step separators) {}).close).fields.reverse

end Piece

end CryptolEdit.Shell
