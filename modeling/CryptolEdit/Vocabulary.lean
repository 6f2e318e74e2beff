import CryptolEdit.Category
import CryptolEdit.Text

/-!
The words and symbols that are highlighted.

Source text has a table of literals for each category; batch scripts have a list of interpreter
commands. A host looks words up here. The rules that cut text into tokens name their literals
themselves, in an order of their own, and these have to be the same.
-/

namespace CryptolEdit.Vocabulary

/-- The quote that opens or closes a string. -/
def quote : Text := "\"".toList

/-- Begins a comment in a batch script. -/
def batchComment : Text := "#".toList

/-- Begins a comment in source text. -/
def lineComment : Text := "//".toList

/-- Begins a theorem declaration. -/
def theoremWord : Text := "theorem".toList

def builtinSymbols : List Text :=
  ["[", "]", ",", "\x7b", "\x7d", "@", "#"].map String.toList

def operatorSymbols : List Text :=
  ["=>", "->", "|", ":"].map String.toList

def constantKeywords : List Text :=
  ["True", "False"].map String.toList

def typeKeywords : List Text :=
  ["Bit", "inf", "fin"].map String.toList

def controlKeywords : List Text :=
  ["module", "theorem", "where", "include", "let", "if", "else", "then", "type"].map String.toList

/-- The commands of the interpreter that a batch script may give. -/
def batchCommands : List Text :=
  ["autotrace", "bind_file", "browse", "cd", "check", "compile", "config", "definition", "deltr",
   "edit", "equals", "exhaust", "fm", "genTests", "getserial", "help", "info", "install-runtime",
   "isabelle", "isabelle-b", "isabelle-i", "let", "load", "print", "prove", "quit", "reload",
   "runWith", "safe", "sat", "script", "sendserial", "set", "sfm", "showtr", "trace", "translate",
   "type", "version"].map String.toList

/-- The literals of source text by category, in order of precedence. -/
def tables : List (Category × List Text) :=
  [(.stringMarker, [quote]), (.builtinSymbol, builtinSymbols), (.operatorSymbol, operatorSymbols),
   (.constantKeyword, constantKeywords), (.typeKeyword, typeKeywords),
   (.controlKeyword, controlKeywords)]

/-- The category under which source text lists a literal. -/
def categoryOf? (literal : Text) : Option Category :=
  (tables.find? fun (_, table) => table.contains literal).map Prod.fst

end CryptolEdit.Vocabulary
