import CryptolEdit.Path
import CryptolEdit.Vocabulary

/-!
Editing modes, and the file names that select them.

A pattern that begins with `*` selects every name that ends in the rest of the pattern and is
longer than it; any other pattern selects itself alone. The first association that selects a
file's name decides its mode.
-/

namespace CryptolEdit

/-- How a document is edited. -/
inductive Mode where
  /-- Source text, with all of its syntax. -/
  | source
  /-- A script of interpreter commands. -/
  | batch
deriving DecidableEq, Repr

namespace Mode

def all : List Mode := [.source, .batch]

/-- Name of a mode in settings documents. -/
def name : Mode → String
  | source => "Cryptol"
  | batch => "Batch"

/-- Name of a mode in menus and mode lines. -/
def title : Mode → String
  | source => "Cryptol"
  | batch => "Cryptol-Batch"

/-- Extension of the files that a mode is meant for, without the dot. -/
def extension : Mode → Text
  | source => "cry".toList
  | batch => "scr".toList

/-- What begins a comment in a mode. -/
def commentStart : Mode → Text
  | source => Vocabulary.lineComment
  | batch => Vocabulary.batchComment

/-- The mode for a file extension. -/
def ofExtension? (ext : Text) : Option Mode := all.find? fun m => m.extension == ext

end Mode

/-- A pattern for file names, and the mode it selects. -/
structure Association where
  pattern : Text
  mode : Mode
deriving DecidableEq, Repr

namespace Association

/-- Whether a pattern selects a file name. -/
def selects (pattern name : Text) : Bool :=
  match pattern with
  | '*' :: ending => ending.length < name.length && ending.isSuffixOf name
  | _ => name == pattern

/-- The associations in force, first to last. -/
def table : List Association :=
  [⟨"*.cry".toList, .source⟩, ⟨"*.scr".toList, .batch⟩]

end Association

/-- The mode for a path, by its file name. Names that are not text select nothing. -/
def Mode.ofPath? (p : Path) : Option Mode := do
  let name ← p.fileName?.bind Text.decode?
  let found ← Association.table.find? fun a => Association.selects a.pattern name
  return found.mode

end CryptolEdit
