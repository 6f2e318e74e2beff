import CryptolEdit.Event
import CryptolEdit.Text.Extent
import CryptolEdit.Text.Position

/-!
The outline of a text: the theorems it declares.

A line declares a theorem if it begins with the word `theorem` and at least one space, and has a
colon somewhere after them. The name is all that stands between the spaces and the first colon. It
may be empty, and nothing else of the line is looked at.
-/

namespace CryptolEdit

/-- A theorem that a text declares. -/
structure Declaration where
  name : Text
  /-- Where the name begins. -/
  offset : Nat
deriving DecidableEq, Repr

/-- Where the name stands. -/
def Declaration.extent (d : Declaration) : Extent :=
  ⟨d.offset, d.offset + Text.size d.name, by omega⟩

/-- A declaration, with the position of its name. -/
structure Entry where
  declaration : Declaration
  position : Position
deriving DecidableEq, Repr

namespace Outline

/-- What is left of a text after a given beginning. -/
def after? : Text → Text → Option Text
  | [], t => some t
  | _ :: _, [] => none
  | w :: ws, c :: t => if w = c then after? ws t else none

/-- The column and the name, if a line declares a theorem. -/
def nameOnLine? (line : Text) : Option (Nat × Text) := do
  let rest ← after? Vocabulary.theoremWord line
  let spaces := rest.takeWhile (· == ' ')
  let named := rest.dropWhile (· == ' ')
  if spaces.isEmpty || !named.contains ':' then
    none
  else
    return (Vocabulary.theoremWord.size + Text.size spaces, named.takeWhile (· != ':'))

/-- The entries of some lines, the first of which has the given number and offset. -/
def ofLines : Nat → Nat → List Text → List Entry
  | _, _, [] => []
  | number, start, line :: lines =>
    let rest := ofLines (number + 1) (start + line.size + 1) lines
    match nameOnLine? line with
    | some (col, name) => ⟨⟨name, start + col⟩, ⟨number, col⟩⟩ :: rest
    | none => rest

/-- The entries of a text, in order. -/
def ofText (text : Text) : List Entry := ofLines 0 0 text.lines

/-- The entries of a text, for the log. -/
def ofTextLogged (text : Text) : Logged (List Entry) :=
  let entries := ofText text
  ⟨entries, [.outlined entries.length]⟩

/-- The declarations of a text, in order. -/
def declarations (text : Text) : List Declaration := (ofText text).map Entry.declaration

end Outline

end CryptolEdit
