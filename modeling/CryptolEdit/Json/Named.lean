import CryptolEdit.Json.Choice
import CryptolEdit.Mode

/-!
Modes and categories as documents. Either is written as a string with its name.
-/

namespace CryptolEdit

namespace Mode

/-- Reads a document that names a mode. -/
def read (t : Text) : Except Json.Fault Mode :=
  Json.document (Json.choice (all.map fun m => (m.name.toList, m)) t)

/-- A mode as a document. -/
def render (m : Mode) : Text := Json.quoted m.name.toList

end Mode

namespace Category

/-- Reads a document that names a category. -/
def read (t : Text) : Except Json.Fault Category :=
  Json.document (Json.choice (all.map fun c => (c.name.toList, c)) t)

/-- A category as a document. -/
def render (c : Category) : Text := Json.quoted c.name.toList

end Category

end CryptolEdit
