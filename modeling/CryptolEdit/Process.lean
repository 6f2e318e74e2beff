import CryptolEdit.Command

/-!
Processes, as far as a session can see them. A process can be asked whether it runs, and may answer
differently each time; its answers so far are kept. A table numbers processes in the order in which
they were started and never forgets one.
-/

namespace CryptolEdit

/-- What a process answers when it is asked whether it runs. -/
inductive Poll where
  | running
  | exited
  /-- It cannot be told. -/
  | unreadable (reason : Text)
deriving DecidableEq, Repr

/-- A process that was started. -/
structure Process where
  pid : Nat
  command : Command
  /-- What it answers when it is asked for the first time, the second time, and so on. -/
  script : Nat → Poll
  /-- What it has answered, first to last. -/
  answers : List Poll := []

namespace Process

/-- What a process answers next. -/
def nextAnswer (p : Process) : Poll := p.script p.answers.length

/-- The process after its next answer. -/
def asked (p : Process) : Process := { p with answers := p.answers ++ [p.nextAnswer] }

/-- The process if it gives one answer from now on. -/
def settled (p : Process) (answer : Poll) : Process := { p with script := fun _ => answer }

end Process

/-- What comes of starting a command. -/
inductive Start where
  | failed (reason : Text)
  | begun (pid : Nat) (script : Nat → Poll)

/-- Decides what comes of starting a command, by the attempts made and the processes started
before it. -/
abbrev Launcher := (attempts started : Nat) → Command → Start

/-- All attempts to start a process, and the processes that came of them. -/
structure ProcessTable where
  launcher : Launcher
  attempts : List Command := []
  started : List Process := []

namespace ProcessTable

/-- Starts a command. Gives the number and the process id, or the reason why there are none. -/
def start (t : ProcessTable) (c : Command) : Except Text (Nat × Nat) × ProcessTable :=
  let tried := { t with attempts := t.attempts ++ [c] }
  match t.launcher t.attempts.length t.started.length c with
  | .failed reason => (.error reason, tried)
  | .begun pid script =>
    (.ok (t.started.length, pid), { tried with started := t.started ++ [⟨pid, c, script, []⟩] })

/-- Asks a process whether it runs. A number that was never given stands for no process. -/
def poll (t : ProcessTable) (number : Nat) : Poll × ProcessTable :=
  match t.started[number]? with
  | none => (.exited, t)
  | some p => (p.nextAnswer, { t with started := t.started.modify number Process.asked })

/-- Makes a process give one answer from now on. -/
def settle (t : ProcessTable) (number : Nat) (answer : Poll) : ProcessTable :=
  { t with started := t.started.modify number (·.settled answer) }

/-- The process id of a process. -/
def pid? (t : ProcessTable) (number : Nat) : Option Nat := t.started[number]?.map Process.pid

end ProcessTable

end CryptolEdit
