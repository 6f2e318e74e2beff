import CryptolEdit.Mode

/-!
Cutting text into tokens.

A mode has a list of rules. At each point of the text the rule that reaches furthest makes the next
lexeme; of rules that reach equally far the first does, and literals are listed before the rule for
words, so a keyword is only recognised when it is a whole word. Where no rule matches, one
character stands alone. Nothing is skipped: the lexemes of a text concatenate to the text.
-/

namespace CryptolEdit

-- ============================================================ rules

/-- What sort of thing a lexeme is. -/
inductive Kind where
  | blank
  | word
  | comment
  /-- A literal that stands in the vocabulary under a category. -/
  | literal (category : Category)
  /-- A character that no rule matches. -/
  | stray
deriving DecidableEq, Repr

/-- The category that a kind is highlighted as; plain text has none. -/
def Kind.category? : Kind → Option Category
  | blank | word | stray => none
  | comment => some .comment
  | literal c => some c

/-- The texts that a rule matches. -/
inductive Pattern where
  /-- One text and no other. -/
  | exactly (text : Text)
  /-- A first character of one class, then any number of characters of another. -/
  | run (first later : Char → Bool)

/-- How many characters of a text a pattern matches at its start, at most; zero for no match. -/
def Pattern.reach : Pattern → Text → Nat
  | exactly w, t => if w.isPrefixOf t then w.length else 0
  | run _ _, [] => 0
  | run first later, c :: t => if first c then 1 + (t.takeWhile later).length else 0

/-- A pattern and the kind of the lexemes it makes. -/
structure Rule where
  kind : Kind
  pattern : Pattern

namespace Rule

/-- The kind and length of the furthest match of any rule, the first of equals. -/
def furthest? : List Rule → Text → Option (Kind × Nat)
  | [], _ => none
  | r :: rs, t =>
    let n := r.pattern.reach t
    match furthest? rs t with
    | none => if n = 0 then none else some (r.kind, n)
    | some (kind, m) => if n < m then some (kind, m) else some (r.kind, n)

/-- The literals of one category. -/
def under (category : Category) (words : List String) : List (Category × Text) :=
  words.map fun w => (category, w.toList)

/-- The literals of source text that have a rule of their own. -/
def sourceLiterals : List (Category × Text) :=
  under .stringMarker ["\""] ++
    under .builtinSymbol ["[", "]", ",", "\x7b", "\x7d", "@", "#"] ++
    under .operatorSymbol ["=>", "->", "|", ":"] ++
    under .constantKeyword ["True", "False"] ++
    under .typeKeyword ["Bit", "inf", "fin"] ++
    under .controlKeyword
      ["module", "theorem", "where", "include", "let", "if", "else", "then", "type"]

/-- The literals of a batch script that have a rule of their own, the longer commands first. -/
def batchLiterals : List (Category × Text) :=
  under .builtinSymbol [":"] ++ under .operatorSymbol ["@"] ++
    under .controlKeyword
      ["install-runtime", "isabelle-b", "isabelle-i", "isabelle", "sendserial", "definition",
       "getserial", "bind_file", "translate", "autotrace", "genTests", "compile", "version",
       "exhaust", "runWith", "config", "equals", "browse", "reload", "script", "showtr", "check",
       "deltr", "print", "prove", "trace", "edit", "help", "info", "load", "quit", "safe", "type",
       "let", "sat", "set", "sfm", "cd", "fm"]

/-- Rules for literals. -/
def literals (table : List (Category × Text)) : List Rule :=
  table.map fun (category, w) => ⟨.literal category, .exactly w⟩

def blanks : Rule :=
  let blank := fun c => c == ' ' || c == '\t' || c == '\r' || c == '\n'
  ⟨.blank, .run blank blank⟩

/-- Characters with which a word begins. -/
def beginsWord (c : Char) : Bool := c.isAlphanum || c == '_'

/-- Characters with which a word of source text goes on. -/
def continuesWord (c : Char) : Bool := beginsWord c || c == '\''

/-- Characters with which a word of a batch script goes on. -/
def continuesBatchWord (c : Char) : Bool := continuesWord c || c == '-'

end Rule

/-- The rules of a mode, literals before words. -/
def Mode.rules : Mode → List Rule
  | .source =>
    Rule.literals Rule.sourceLiterals ++
      [⟨.word, .run Rule.beginsWord Rule.continuesWord⟩, Rule.blanks]
  | .batch =>
    Rule.literals Rule.batchLiterals ++
      [⟨.word, .run Rule.beginsWord Rule.continuesBatchWord⟩,
       ⟨.comment, .run (· == '#') (· != '\n')⟩, Rule.blanks]

-- ========================================================== lexemes

/-- A piece of text and its kind. -/
structure Lexeme where
  kind : Kind
  text : Text
deriving DecidableEq, Repr

namespace Lexeme

/-- The lexemes of a text under some rules. -/
def scan (rules : List Rule) : Text → List Lexeme
  | [] => []
  | c :: t =>
    match Rule.furthest? rules (c :: t) with
    | none => ⟨.stray, [c]⟩ :: scan rules t
    | some (kind, n) => ⟨kind, c :: t.take (n - 1)⟩ :: scan rules (t.drop (n - 1))
termination_by t => t.length

end Lexeme

-- =========================================================== tokens

/-- A lexeme in its place. -/
abbrev Token := Text.Located Lexeme

namespace Token

/-- Where a token ends. -/
def stop (t : Token) : Nat := t.start + Text.size t.item.text

def category? (t : Token) : Option Category := t.item.kind.category?

/-- The tokens of a text, blanks and all. -/
def ofText (mode : Mode) (text : Text) : List Token :=
  Text.place Lexeme.text 0 (Lexeme.scan mode.rules text)

end Token

end CryptolEdit
