import CryptolEdit.Shell.Expansion

/-!
Where the input and output of commands lead.
-/

namespace CryptolEdit.Shell

open Machine

/-- Why a file cannot be opened, in the words of the shell. -/
def openTrouble (isOutput : Bool) : Trouble → Text
  | .missing | .notDirectory =>
    (if isOutput then "Directory nonexistent" else "No such file").toList
  | t => t.reason

/-- Leads a descriptor to a file. -/
def connectFile (descriptor : Nat) (isOutput : Bool) (path : Text) : Act Bool := do
  let s ← get
  match s.world.openPath s.directory path with
  | .ok c =>
    connect descriptor c
    return true
  | .error t =>
    let what := if isOutput then "cannot create " else "cannot open "
    complain (what.toList ++ path ++ ": ".toList ++ openTrouble isOutput t)
    return false

/-- A redirection whose words have been expanded. -/
inductive Opening where
  | file (descriptor : Nat) (isOutput : Bool) (path : Text)
  /-- Leads to where another descriptor leads. -/
  | copy (descriptor source : Nat)
  | document (descriptor number : Nat)

/-- Expands the words of a redirection. -/
def opening (e : Engine) : Redirect → Act Opening
  | .document descriptor number => return .document descriptor number
  | .file descriptor isOutput path => do return .file descriptor isOutput (← e.text path)
  | .copy descriptor source => do
    match natural? (← e.text source) with
    | some n => return .copy descriptor n
    | none => refuse "Syntax error: Bad fd number".toList

/-- Follows a redirection, and says whether that worked. -/
def follow (e : Engine) : Opening → Act Bool
  | .document descriptor number => do
    let word := ((← get).documents.lookup number).getD []
    connect descriptor (← newPipe (← e.text word))
    return true
  | .copy descriptor source => do
    match ← channel? source with
    | some c =>
      connect descriptor c
      return true
    | none =>
      complain (Decimal.digits source ++ ": Bad file descriptor".toList)
      return false
  | .file descriptor isOutput path => connectFile descriptor isOutput path

/-- Follows redirections up to the first that fails. -/
def followAll (e : Engine) : List Opening → Act Bool
  | [] => return true
  | o :: os => do
    if ← follow e o then followAll e os else return false

/-- Expands the words of all redirections, and follows them up to the first that fails. -/
def redirectAll (e : Engine) (rs : List Redirect) : Act Bool := do
  followAll e (← rs.mapM (opening e))

end CryptolEdit.Shell
