import CryptolEdit.Shell.State

/-!
Commands of the shell about directories and permissions.
-/

namespace CryptolEdit.Shell

open Machine

-- ======================================================= directories

/-- A path without `.`, `..` and double slashes, from names in reverse. -/
def cleaned : List Text → List Text → Text
  | done, [] => Files.path done.reverse
  | done, name :: names =>
    if name = [] ∨ name = ['.'] then cleaned done names
    else if name = ['.', '.'] then cleaned (done.drop 1) names
    else cleaned (name :: done) names

/-- The path of a directory as a user reaches it: names are taken off for `..`, whatever they lead
to. -/
def logicalPath (s : State) (path : Text) : Text :=
  let full := if path.head? = some '/' then path else s.here ++ ['/'] ++ path
  cleaned [] (Text.split (· == '/') full)

/-- Changes the directory. -/
def cd (args : List Text) : Act Nat := do
  let (os, words) ← optionsOf "LP" args
  let isPhysical := os.getLast? == some 'P'
  let s ← get
  let path := words.headD ((s.var? "HOME".toList).getD [])
  let shown := logicalPath s path
  match s.world.files.find s.directory (if isPhysical then path else shown) with
  | .error _ => refuse ("can't cd to ".toList ++ path)
  | .ok p =>
    if s.world.files.node? p ≠ some .directory then refuse ("can't cd to ".toList ++ path)
    set { s with directory := p, here := if isPhysical then Files.path p else shown }
    return 0

/-- Writes the present directory. -/
def pwd (args : List Text) : Act Nat := do
  let (os, _) ← optionsOf "LP" args
  let s ← get
  say ((if os.getLast? == some 'P' then Files.path s.directory else s.here) ++ ['\n'])
  return 0

-- ============================================================== mask

/-- Permissions of one party as letters. -/
def permissionLetters (n : Nat) : Text :=
  (if n &&& 4 ≠ 0 then ['r'] else []) ++ (if n &&& 2 ≠ 0 then ['w'] else []) ++
    (if n &&& 1 ≠ 0 then ['x'] else [])

/-- Shows or sets the mask for new files. -/
def umask (args : List Text) : Act Nat := do
  let (os, words) ← optionsOf "S" args
  let mask := (← get).mask
  let mode := 0o777 - mask
  match words with
  | [] =>
    if os.isEmpty then
      let ds := Nat.toDigits 8 mask
      say (List.replicate (4 - ds.length) '0' ++ ds ++ ['\n'])
    else
      say ("u=".toList ++ permissionLetters (mode / 64) ++ ",g=".toList ++
        permissionLetters (mode / 8 % 8) ++ ",o=".toList ++ permissionLetters (mode % 8) ++ ['\n'])
  | t :: _ =>
    if !t.all (isDigitIn 8) then refuse ("Illegal number: ".toList ++ t)
    modify fun s => { s with mask := valueIn 8 t % 512 }
  return 0

end CryptolEdit.Shell
