import CryptolEdit.Session
import CryptolEdit.Text.Octet
import CryptolEdit.Tool

/-!
The programs of a host as interpreters.

A program is found by its name or by its path. Programs that are asked for their output run to the
end on no input at all. Programs in a session wait for input that never comes, so they run until
they are killed or their input is closed.
-/

namespace CryptolEdit

namespace Program

open Machine Shell

/-- A machine with programs: its files, the directory in which programs are started, and the
variables that they find. -/
structure Host where
  files : Files
  directory : Place
  environment : List (Text × Text)

-- =========================================================== finding

/-- What the system says of a program that cannot be started. -/
def reason (t : Trouble) : Text :=
  t.reason ++ " (os error ".toList ++ Decimal.digits t.number ++ [')']

/-- What is said of a command with a NUL byte in it. -/
def nulByte : Text := "nul byte found in provided data".toList

namespace Host

/-- What the program of a command does, or the reason why it cannot be started. A name without a
slash is looked for in some directories, unless it is too long for any. -/
def find? (h : Host) (c : Command) : Except Text Text :=
  let name := Text.spread c.program
  let directories := (h.environment.lookup "PATH".toList).getD []
  if c.program.contains '\x00' || c.args.any (·.contains 0) then .error nulByte
  else if name.isEmpty then .error (reason .missing)
  else if !name.contains '/' && Files.longestName < name.length then .error (reason .nameTooLong)
  else (h.files.command h.directory directories name).mapError reason

-- =========================================================== running

/-- How deep commands and words can be nested in each other while a script runs. -/
def depth : Nat := 5000

/-- A process with nothing to read, whose output is kept and whose complaints are dropped. -/
def process (h : Host) : State :=
  let (output, world) := World.pipe { files := h.files } []
  { name := [], vars := h.environment.map fun (name, value) => (name, { value, isExported := true })
    pid := 2, lineage := [2, 1], directory := h.directory
    channels := [(0, .device .null), (1, output), (2, .device .null)], world }

/-- What a command writes on no input, and how it ends. One that never ends is ended by force. -/
def run (h : Host) (tool : Text) (c : Command) : Bytes × Status :=
  let args := c.args.map Text.ofOctets
  let (result, after) := ((Tool.engine depth).launch tool (Text.spread c.program) args) h.process
  let output := Text.toOctets (after.world.unread (.pipe 0))
  match result with
  | .ok () | .error .ending => (output, .exited after.status)
  | .error (.dying n) => (output, .signalled n)
  | .error _ => (output, .signalled 9)

/-- Runs the program of a command for its output. -/
def query (h : Host) : Backend.Query := fun c =>
  match h.find? c with
  | .error reason => .error reason
  | .ok tool =>
    let (output, status) := h.run tool c
    if status = .success then
      .ok (Text.decodeLossy output)
    else
      .error (['`'] ++ c.display ++ "` exited with ".toList ++ status.display)

/-- Starts programs that run until they are made to end. -/
def launcher (h : Host) : Launcher := fun _ started c =>
  match h.find? c with
  | .error reason => .failed reason
  | .ok _ => .begun (started + 1) fun _ => .running

end Host

-- ========================================================== sessions

/-- Sessions with programs of a host, and the programs that were made to end. -/
structure Desk where
  host : Host
  registry : Registry
  ended : List (Nat × Status) := []

namespace Desk

/-- A desk without sessions. -/
def ofSettings (h : Host) (s : Settings) : Desk := ⟨h, Registry.ofLauncher s h.launcher, []⟩

/-- How the program with a number ends if its input is closed. -/
def statusOf (d : Desk) (number : Nat) : Status :=
  match d.registry.processes.started[number]? with
  | none => .success
  | some process =>
    match d.host.find? process.command with
    | .error _ => .success
    | .ok tool => (d.host.run tool process.command).2

/-- Makes the program of a document's session end, unless it has ended. Gives how it ended. -/
def endWith (d : Desk) (path : Path) (how : Nat → Status) : Option Status × Desk :=
  match d.registry.session? path with
  | none => (none, d)
  | some session =>
    match d.ended.lookup session.process with
    | some status => (some status, d)
    | none =>
      let status := how session.process
      let processes := d.registry.processes.settle session.process .exited
      (some status, { d with
        registry := { d.registry with processes := processes }
        ended := (session.process, status) :: d.ended })

/-- Kills the program of a document's session, and says whether there is one. -/
def kill (d : Desk) (path : Path) : Option Bool × Desk :=
  let (status, d) := d.endWith path fun _ => .signalled 9
  (status.map fun _ => true, d)

/-- Closes the input of the program of a document's session, and waits for its status. -/
def finish (d : Desk) (path : Path) : Option Status × Desk := d.endWith path d.statusOf

/-- Whether the process of a document's session is the one that its handle names. -/
def samePid? (d : Desk) (path : Path) : Option Bool :=
  (d.registry.session? path).map fun s =>
    d.registry.processes.pid? s.process == some s.handle.pid

end Desk

end Program

end CryptolEdit
