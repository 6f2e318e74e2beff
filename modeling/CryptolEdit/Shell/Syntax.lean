import CryptolEdit.Text

/-!
What scripts of the shell are made of: words, and the commands built from them.

A word is a list of parts, some of them quoted. Quoted parts are never split and never taken for
patterns. The text of a here-document is kept apart from the command that reads it, since it comes
after the line of that command: the command only holds its number.
-/

namespace CryptolEdit.Shell

mutual

/-- A part of a word. -/
inductive Part where
  | plain (text : Text) (isQuoted : Bool)
  | parameter (name : Text) (use : Use) (isQuoted : Bool)
  | output (body : Command) (isQuoted : Bool)
  | arithmetic (expression : List Part) (isQuoted : Bool)

/-- What is done with the value of a parameter. -/
inductive Use where
  | value
  | length
  /-- The word instead of a parameter that is not set, or of one that is. -/
  | substitute (ifSet orEmpty : Bool) (word : List Part)
  /-- Takes off the start or the end that matches a pattern. -/
  | trim (atEnd isLongest : Bool) (pattern : List Part)

/-- Where a descriptor leads. -/
inductive Redirect where
  | file (descriptor : Nat) (isOutput : Bool) (path : List Part)
  /-- To where another descriptor leads. -/
  | copy (descriptor : Nat) (source : List Part)
  /-- To the here-document with a number. -/
  | document (descriptor number : Nat)

/-- An assignment in front of a command. -/
inductive Assignment where
  | mk (name : Text) (value : List Part)

/-- A branch of a choice: patterns, and what to do for them. -/
inductive Branch where
  | mk (patterns : List (List Part)) (body : Command)

/-- A command of a script, however it is put together. -/
inductive Command where
  | nothing
  | simple (line : Nat) (assignments : List Assignment) (words : List (List Part))
      (redirects : List Redirect)
  | pipeline (stages : List Command)
  | negation (body : Command)
  | both (first second : Command)
  | either (first second : Command)
  | sequence (first second : Command)
  | background (body : Command)
  | subshell (line : Nat) (body : Command) (redirects : List Redirect)
  | redirected (line : Nat) (body : Command) (redirects : List Redirect)
  | choice (condition yes no : Command)
  | loop (condition body : Command)
  /-- Runs the body for each word. -/
  | each (line : Nat) (name : Text) (words : List (List Part)) (body : Command)
  | select (line : Nat) (word : List Part) (branches : List Branch)
  | define (name : Text) (body : Command)

end

instance : Inhabited Command := ⟨.nothing⟩

/-- A word. -/
abbrev Word := List Part

namespace Word

/-- The text of a word without quotes or expansions. -/
def literal? : Word → Option Text
  | [] => some []
  | .plain t false :: ps => (literal? ps).map (t ++ ·)
  | _ :: _ => none

/-- Puts a part in front of a word, joining plain texts. -/
def push (p : Part) (w : Word) : Word :=
  match p, w with
  | .plain s a, .plain t b :: rest =>
    if a == b then .plain (s ++ t) a :: rest else .plain s a :: .plain t b :: rest
  | p, w => p :: w

end Word

-- ============================================================= names

def isNameStart (c : Char) : Bool := c.isAlpha || c == '_'

def isNameChar (c : Char) : Bool := c.isAlphanum || c == '_'

/-- Whether a text can be the name of a variable. -/
def isName : Text → Bool
  | [] => false
  | c :: r => isNameStart c && r.all isNameChar

/-- Parameters that have a mark for a name. -/
def isSpecial (c : Char) : Bool := "@*#?-$".toList.contains c

/-- Words with a meaning of their own at the start of a command. -/
def reserved : List Text :=
  ["!", "case", "do", "done", "else", "esac", "fi", "for", "if", "in", "then", "while", "\x7b",
   "\x7d"].map String.toList

/-- Commands that are part of the shell to such a degree that their failure ends it. -/
def specialBuiltins : List Text :=
  [":", "break", "eval", "exec", "exit", "return", "set", "shift", "trap"].map String.toList

end CryptolEdit.Shell
