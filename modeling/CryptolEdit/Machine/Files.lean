import CryptolEdit.Text

/-!
The files of a machine: a tree of directories, and how a path leads through it.

A path is followed name by name. What a name means is decided where it stands, so a path can fail
because something is missing, because something in the middle is no directory, or because a name is
too long, whichever comes first. Nothing here changes the tree, and the contents of plain files are
not known.
-/

namespace CryptolEdit.Machine

/-- Why a file cannot be used. -/
inductive Trouble where
  | missing
  | denied
  | notDirectory
  | nameTooLong
deriving DecidableEq, Repr

namespace Trouble

/-- What the system says. -/
def reason : Trouble → Text
  | missing => "No such file or directory".toList
  | denied => "Permission denied".toList
  | notDirectory => "Not a directory".toList
  | nameTooLong => "File name too long".toList

/-- The number of an error. -/
def number : Trouble → Nat
  | missing => 2
  | denied => 13
  | notDirectory => 20
  | nameTooLong => 36

end Trouble

/-- A device that can be read and written. -/
inductive Device where
  | null
  | zero
  | full
deriving DecidableEq, Repr

/-- What a name can stand for. -/
inductive Node where
  | directory
  /-- A file that is no program. -/
  | plain
  /-- A program, by the name of what it does. -/
  | program (name : Text)
  | device (d : Device)
  /-- Another place, as names from the root. -/
  | link (target : List Text)
deriving DecidableEq, Repr

/-- A place as names from the root. -/
abbrev Place := List Text

/-- What stands at places. The root is always there. -/
abbrev Files := List (Place × Node)

namespace Files

/-- A name has at most this many bytes. -/
def longestName : Nat := 255

/-- A path is shorter than this many bytes. -/
def longestPath : Nat := 4096

def node? (fs : Files) (p : Place) : Option Node :=
  if p.isEmpty then some .directory else fs.lookup p

/-- Follows names from a place. -/
def walk (fs : Files) : Place → List Text → Except Trouble Place
  | p, [] => .ok p
  | p, name :: names =>
    if fs.node? p ≠ some .directory then .error .notDirectory
    else if name = [] ∨ name = ['.'] then walk fs p names
    else if name = ['.', '.'] then walk fs p.dropLast names
    else if longestName < name.length then .error .nameTooLong
    else
      match fs.node? (p ++ [name]) with
      | none => .error .missing
      | some (.link target) => walk fs target names
      | some _ => walk fs (p ++ [name]) names

/-- The place that a path leads to from a directory. -/
def find (fs : Files) (here : Place) (path : Text) : Except Trouble Place :=
  if path.isEmpty then .error .missing
  else if longestPath ≤ path.length then .error .nameTooLong
  else fs.walk (if path.head? = some '/' then [] else here) (Text.split (· == '/') path)

/-- What is at the end of a path. -/
def look (fs : Files) (here : Place) (path : Text) : Except Trouble Node := do
  let p ← fs.find here path
  return (fs.node? p).getD .directory

/-- The place of an absolute path. -/
def placeOf (path : Text) : Place := (Text.split (· == '/') path).filter (· ≠ [])

/-- A place as a path. -/
def path (p : Place) : Text := if p.isEmpty then ['/'] else p.flatMap ('/' :: ·)

-- ========================================================== programs

/-- What the program at the end of a path does. -/
def program (fs : Files) (here : Place) (path : Text) : Except Trouble Text := do
  match ← fs.look here path with
  | .program p => return p
  | _ => throw .denied

/-- Looks for a program in directories. A file that cannot be run is only reported if nothing better
comes after it. -/
def search (fs : Files) (here : Place) (name : Text) : List Text → Trouble → Except Trouble Text
  | [], t => .error t
  | d :: ds, t =>
    match fs.program here (if d.isEmpty then name else d ++ ['/'] ++ name) with
    | .ok p => .ok p
    | .error .denied => search fs here name ds .denied
    | .error _ => search fs here name ds t

/-- The program that a command names: by its path, or by its name in the directories that colons
separate in a list. -/
def command (fs : Files) (here : Place) (directories name : Text) : Except Trouble Text :=
  if name.contains '/' then fs.program here name
  else fs.search here name (Text.split (· == ':') directories) .missing

end Files

end CryptolEdit.Machine
