import CryptolEdit.Shell.Syntax

/-!
The text of a script while it is read, character by character.

Here-documents are read when the line that asks for them ends.
-/

namespace CryptolEdit.Shell

/-- What a script is cut into. -/
inductive Token where
  | word (w : Word)
  | mark (t : Text)
  | redirect (descriptor? : Option Nat) (mark : Text)
  | newline
  | ended

namespace Token

/-- The reserved word that a token is. -/
def reserved? : Token → Option Text
  | .word w => (Word.literal? w).filter reserved.contains
  | _ => none

/-- A token in a message. -/
def display : Token → Text
  | .word w => ((reserved? (.word w)).map fun t => ['"'] ++ t ++ ['"']).getD "word".toList
  | .mark t => ['"'] ++ t ++ ['"']
  | .redirect .. => "redirection".toList
  | .newline => "newline".toList
  | .ended => "end of file".toList

end Token

/-- A here-document that has been asked for. -/
structure Pending where
  number : Nat
  delimiter : Text

/-- A script that is being read. -/
structure Source where
  rest : Text
  line : Nat := 1
  /-- A token that has been read and put back. -/
  pushed : Option Token := none
  pending : List Pending := []
  documents : List (Nat × Word) := []
  nextDocument : Nat := 0
  aliases : List (Text × Text) := []

/-- The number of steps that a reader can need at most: one for each character, one for a token that
has been put back, and one for the end. Each character may be an alias. -/
def Source.bound (s : Source) : Nat :=
  let longest := s.aliases.foldl (fun n (_, value) => max n value.length) 0
  (s.rest.length + 2) * (longest + 1)

/-- Where and why a script cannot be read. -/
structure Misreading where
  line : Nat
  reason : Text

abbrev Parse := StateT Source (Except Misreading)

namespace Parse

/-- Gives up. -/
def fail {α : Type} (reason : Text) : Parse α := do
  throw ⟨(← get).line, "Syntax error: ".toList ++ reason⟩

/-- Refuses a token. -/
def unexpected {α : Type} (t : Token) : Parse α := fail (t.display ++ " unexpected".toList)

/-- Refuses a token where a mark or a word is wanted. -/
def expecting {α : Type} (t : Token) (wanted : String) : Parse α :=
  fail (t.display ++ " unexpected (expecting \"".toList ++ wanted.toList ++ "\")".toList)

/-- The next character. -/
def peek : Parse (Option Char) := do return (← get).rest.head?

/-- Goes past the next character. -/
def skip : Parse Unit :=
  modify fun s => { s with
    rest := s.rest.drop 1, line := if s.rest.head? = some '\n' then s.line + 1 else s.line }

/-- Goes past some characters that are not line ends. -/
def advance (count : Nat) : Parse Unit := modify fun s => { s with rest := s.rest.drop count }

/-- Takes characters as long as they are of a kind. -/
def takeWhile (p : Char → Bool) : Parse Text := do
  let s ← get
  let t := s.rest.takeWhile p
  set { s with rest := s.rest.drop t.length, line := s.line + t.count '\n' }
  return t

/-- Puts a token back. -/
def putBack (t : Token) : Parse Unit := modify fun s => { s with pushed := some t }

/-- Reads another text from a line on with a reader, and goes on with this one. -/
def within {α : Type} (t : Text) (line : Nat) (read : Parse α) : Parse α := do
  let s ← get
  set { s with rest := t, line, pushed := none, pending := [] }
  let a ← read
  modify fun after =>
    { after with rest := s.rest, line := s.line, pushed := s.pushed, pending := s.pending }
  return a

/-- The number of steps that a reader can need at most. -/
def bound : Parse Nat := do return (← get).bound

end Parse

/-- Where parts of words stand. -/
inductive Context where
  | word
  /-- Between double quotes. -/
  | quoted
  /-- In the braces of a parameter. -/
  | braces (isQuoted : Bool)
  | document
  | arithmetic
deriving DecidableEq, Repr

namespace Context

/-- Whether quotes and escapes in a context protect what they quote. -/
def isQuoted : Context → Bool
  | .word => false
  | .braces isQuoted => isQuoted
  | _ => true

/-- Whether a text may end in a context. -/
def mayEnd (c : Context) : Bool := c = .word || c = .document

end Context

/-- What kind of list of commands is read. -/
inductive Scope where
  /-- The commands of a line. -/
  | line
  /-- At least one command, over any number of lines. -/
  | block
  /-- Any number of commands. -/
  | body
deriving DecidableEq, Repr

/-- Readers for what can contain itself. -/
structure Grammar where
  parts : Context → Parse Word
  commands : Scope → Parse Command

end CryptolEdit.Shell
