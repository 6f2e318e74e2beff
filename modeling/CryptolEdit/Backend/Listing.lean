import CryptolEdit.Text
import CryptolEdit.Text.Blank

/-!
Reading a list of backends. Each line may begin with a label that ends in a colon; the names after
it are separated by white space and commas. A name counts once, where it first appears.
-/

namespace CryptolEdit.Backend

/-- What is left of a line without its label. -/
def unlabelled (line : Text) : Text :=
  match line.dropWhile (· != ':') with
  | [] => line
  | _ :: rest => rest

/-- Whether a character stands between names. -/
def separates (c : Char) : Bool := Text.isBlank c || c == ','

/-- The names on a line. -/
def namesOnLine (line : Text) : List Text :=
  (Text.split separates (unlabelled line)).filter (· != [])

/-- The names of a listing, each once. -/
def names (listing : Text) : List Text :=
  (listing.lines.flatMap namesOnLine).eraseDups

end CryptolEdit.Backend
