import CryptolEdit.Event
import CryptolEdit.Text.Extent
import CryptolEdit.Token

/-!
Highlighting. The lexemes of a text become pieces, each with a category or plain; plain neighbours
are merged into one piece, and the pieces laid end to end are the spans of the text. Every byte is
in exactly one span. Pieces with a category are never merged, not even with their like.
-/

namespace CryptolEdit

-- =========================================================== pieces

/-- A piece of text that is highlighted alike. Plain text has no category. -/
structure Piece where
  category : Option Category
  text : Text
deriving DecidableEq, Repr

namespace Piece

def isPlain (p : Piece) : Bool := p.category.isNone

def ofLexeme (l : Lexeme) : Piece := ⟨l.kind.category?, l.text⟩

/-- Puts a piece in front of others, as part of the first if both are plain. -/
def cons (p : Piece) : List Piece → List Piece
  | [] => [p]
  | q :: qs => if p.isPlain && q.isPlain then ⟨none, p.text ++ q.text⟩ :: qs else p :: q :: qs

/-- Merges plain neighbours. -/
def merge : List Piece → List Piece
  | [] => []
  | p :: ps => cons p (merge ps)

/-- The pieces of a text, no two neighbours of them plain. -/
def ofText (mode : Mode) (text : Text) : List Piece :=
  merge ((Lexeme.scan mode.rules text).map ofLexeme)

end Piece

-- ============================================================ spans

/-- A piece in its place. -/
abbrev Span := Text.Located Piece

namespace Span

/-- Where a span ends. -/
def stop (s : Span) : Nat := s.start + Text.size s.item.text

/-- The spans of a text. -/
def ofText (mode : Mode) (text : Text) : List Span :=
  Text.place Piece.text 0 (Piece.ofText mode text)

/-- The spans of a text, for the log. -/
def ofTextLogged (mode : Mode) (text : Text) : Logged (List Span) :=
  let spans := ofText mode text
  ⟨spans, [.highlighted mode spans.length]⟩

/-- The spans of a part of a text, as if that part stood alone, at their places in the whole. A part
that does not exist has none. -/
def ofExtent (mode : Mode) (text : Text) (extent : Extent) : List Span :=
  match extent.of? text with
  | none => []
  | some part => Text.place Piece.text extent.start (Piece.ofText mode part)

end Span

/-- The category of a text that is a single token. -/
def Category.ofText? (mode : Mode) (text : Text) : Option Category :=
  match Lexeme.scan mode.rules text with
  | [l] => l.kind.category?
  | _ => none

end CryptolEdit
