import CryptolEdit.Backend.Listing
import CryptolEdit.Command
import CryptolEdit.Event

/-!
The backends of the interpreter, asked for once and kept. The list changes only when it is
refreshed, and is lost only when it is forgotten; a query that fails leaves it alone. A list with
no names in it is a list all the same and is not asked for again.
-/

namespace CryptolEdit.Backend

/-- Runs a command and gives what it prints, or the reason why it failed. -/
abbrev Query := Command → Except Text Text

/-- The list of backends, once it is known. -/
structure Cache where
  listed : Option (List Text) := none
deriving DecidableEq, Repr

/-- What came of asking for the list. -/
structure Answer where
  result : Except Failure (List Text)
  cache : Cache
  /-- The command that was run for it. -/
  asked : Option Command := none
  events : List Event := []

namespace Cache

def isLoaded (c : Cache) : Bool := c.listed.isSome

/-- Asks the interpreter, and keeps what it lists. -/
def refresh (c : Cache) (query : Query) (s : Settings) : Answer :=
  let command := Command.listBackends s
  match query command with
  | .error reason => ⟨.error (.queryFailed s.interpreter reason), c, some command, []⟩
  | .ok output =>
    let found := names output
    ⟨.ok found, ⟨some found⟩, some command, [.listed found.length]⟩

/-- The list, asked for only if it is not known. -/
def load (c : Cache) (query : Query) (s : Settings) : Answer :=
  match c.listed with
  | none => c.refresh query s
  | some known => ⟨.ok known, c, none, []⟩

/-- Drops the list. -/
def forget (c : Cache) : Logged Cache :=
  ⟨{}, if c.isLoaded then [.forgotten] else []⟩

/-- Whether a backend is listed, if the list is known. -/
def lists? (c : Cache) (name : Text) : Option Bool := c.listed.map (·.contains name)

end Cache

end CryptolEdit.Backend
