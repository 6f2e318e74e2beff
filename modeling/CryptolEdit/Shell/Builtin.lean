import CryptolEdit.Shell.Builtin.Places
import CryptolEdit.Shell.Builtin.Signals
import CryptolEdit.Shell.Builtin.Variables
import CryptolEdit.Shell.Builtin.Writing

/-!
The commands that are part of the shell.
-/

namespace CryptolEdit.Shell

open Machine

-- =========================================================== leaving

/-- Leaves the shell, with a status of its own or with that of the last command. -/
def exit (args : List Text) : Act Nat := do
  args.head?.forM fun w => do setStatus (← numberOf w)
  throw .ending

/-- Leaves a function in the same way. -/
def returnWith (args : List Text) : Act Nat := do
  args.head?.forM fun w => do setStatus (← numberOf w)
  throw .returning

/-- Leaves some loops: at most as many as there are. -/
def breakLoops (args : List Text) : Act Nat := do
  let n ← (args.head?.map numberOf).getD (pure 1)
  if n = 0 then refuse "Illegal number: 0".toList
  match min n (← get).loops with
  | 0 => return 0
  | n =>
    setStatus 0
    throw (.breaking n)

-- =========================================================== running

/-- What is said of a program that cannot be run, and the status for that. -/
def troubleOf (name : Text) : Trouble → Text × Nat
  | .missing | .notDirectory => (name ++ ": not found".toList, 127)
  | .nameTooLong => (name ++ ": ".toList ++ Trouble.nameTooLong.reason, 127)
  | t => (name ++ ": ".toList ++ t.reason, 126)

/-- Complains that there is no program of a name. If it was looked for in some places, it does not
matter for the status what was found instead. -/
def missProgram (name : Text) (t : Trouble) : Act Nat := do
  let (told, status) := troubleOf name t
  complain told
  return if name.contains '/' then status else 127

/-- Becomes another program. -/
def become (e : Engine) (args : List Text) : Act Nat := do
  match args with
  | [] => return 0
  | name :: rest =>
    match (← get).program? name with
    | .ok tool =>
      e.launch tool name rest
      return 0
    | .error t => leave (← missProgram name t)

/-- The commands of the shell by name. -/
def builtin? (e : Engine) (m : Mode) (name : Text) : Option (List Text → Act Nat) :=
  match String.ofList name with
  | ":" | "true" => some fun _ => return 0
  | "false" => some fun _ => return 1
  | "[" => some bracket
  | "alias" => some setAliases
  | "break" => some breakLoops
  | "cd" => some cd
  | "echo" => some echo
  | "eval" => some fun args => runText e m.isTested (Text.join [' '] args)
  | "exec" => some (become e)
  | "exit" => some exit
  | "getopts" => some getopts
  | "kill" => some kill
  | "printf" => some printf
  | "pwd" => some pwd
  | "read" => some read
  | "return" => some returnWith
  | "set" => some fun args => do
      setFrom args
      return 0
  | "shift" => some shift
  | "test" => some test
  | "trap" => some trap
  | "umask" => some umask
  | "unalias" => some dropAliases
  | "wait" => some waitCommand
  | _ => none

end CryptolEdit.Shell
