import CryptolEdit.Shell.Run
import CryptolEdit.Tool.Writing

/-!
All programs of the system, by name, and the engine that runs them.

A program and the shell can start each other, so the engine is built level by level: what runs at
one level starts what it needs at the level below. A script that would need more levels than there
are is taken to go on forever.
-/

namespace CryptolEdit.Tool

open Machine Shell

/-- The microseconds of a number of seconds. -/
def span? (t : Text) : Option Nat :=
  let x := readNumber t
  if x.isFound && x.rest.isEmpty && !x.isNegative then x.amount.map (·.roundedTimesTen 6) else none

/-- Sleeps. -/
def sleep (args : List Text) : Act Nat := do
  match args.mapM span? with
  | some spans =>
    pass (spans.foldl (· + ·) 0)
    return 0
  | none => failWith "invalid time interval".toList

/-- Becomes another program, with some variables set. -/
def env (e : Engine) : List Text → Act Nat
  | [] => return 0
  | w :: ws => do
    match nameAndValue w with
    | (name, some value) =>
      storeVariable name { value, isExported := true }
      env e ws
    | (name, none) =>
      match (← get).program? name with
      | .ok tool =>
        e.launch tool name ws
        return 0
      | .error t =>
        let _ ← failWith (name ++ ": ".toList ++ t.reason)
        return if t = .missing then 127 else 126

/-- The programs of the system. -/
def names : List Text :=
  ["cat", "dash", "echo", "env", "od", "printf", "sleep", "tr", "true"].map String.toList

/-- Runs a program by what it does. -/
def run (e : Engine) (tool name : Text) (args : List Text) : Act Unit := do
  let done (act : Act Nat) : Act Unit := do setStatus (← act)
  match String.ofList tool with
  | "dash" => runShell e name args
  | "cat" => done (cat args)
  | "echo" => done (echo args)
  | "env" => done (env e args)
  | "od" => done (od args)
  | "printf" => done (printf args)
  | "sleep" => done (sleep args)
  | "tr" => done (tr args)
  | _ => setStatus 0

/-- The engine for what is nested at most so deep. -/
def engine : Nat → Engine
  | 0 => ⟨fun _ _ => throw .endless, fun _ _ => throw .endless, fun _ _ _ => throw .endless⟩
  | n + 1 =>
    ⟨fun m c => runCommand (engine n) m c, fun m w => wordPieces (engine n) m w,
      fun tool name args => asProgram (engine n) name (run (engine n) tool name args)⟩

end CryptolEdit.Tool
