import CryptolEdit.Failure
import CryptolEdit.Path
import CryptolEdit.Settings

/-!
Command lines for the interpreter. The document is always the last argument, its bytes unchanged.
-/

namespace CryptolEdit

/-- A program and its arguments. -/
structure Command where
  program : Text
  args : List Bytes := []
deriving DecidableEq, Repr

namespace Command

/-- A command as it is shown to people: words joined by single spaces, nothing quoted. -/
def display (c : Command) : Text :=
  Text.join [' '] (c.program :: c.args.map Text.decodeLossy)

/-- Stands for a word with a NUL byte in it, which no program can be given. -/
def unpassable : Bytes := Text.encode "<string-with-nul>".toList

/-- A word of a command as the operating system is given it. -/
def passed (word : Bytes) : Bytes := if word.contains 0 then unpassable else word

/-- The document that a command is about. An empty path is no document. -/
def document? : Option Path → Except Failure Path
  | none | some [] => .error .noFile
  | some (b :: p) => .ok (b :: p)

/-- Starts a session for a document. -/
def repl (s : Settings) (document : Path) : Command :=
  ⟨s.interpreter, s.replArgs.map Text.encode ++ [document]⟩

/-- Starts a session for what a path names. -/
def repl? (s : Settings) (path : Option Path) : Except Failure Command :=
  (document? path).map (repl s)

/-- The argument that chooses a backend. -/
def backendArg (name : Text) : Bytes := Text.encode ("--backend=".toList ++ name)

/-- Compiles a document, for a backend if one is named. -/
def compile (s : Settings) (backend : Option Text) (document : Path) : Command :=
  ⟨s.interpreter, s.compileArgs.map Text.encode ++ backend.toList.map backendArg ++ [document]⟩

/-- Compiles what a path names. -/
def compile? (s : Settings) (path : Option Path) (backend : Option Text) :
    Except Failure Command :=
  (document? path).map (compile s backend)

/-- Asks the interpreter for its backends. -/
def listBackends (s : Settings) : Command :=
  ⟨s.interpreter, s.backendArgs.map Text.encode⟩

end Command

end CryptolEdit
