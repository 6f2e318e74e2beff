import CryptolEdit.Backend.Cache
import CryptolEdit.Process

/-!
Interactive sessions, one for each document.

A session is registered under a name made from its document's path, and is reused for as long as its
process runs. No process is ever stopped from here. The process of a session that is closed or
replaced is set aside as detached, and dropped once it has been seen to end. Whenever a session is
set aside, and whenever the registry is pruned, all detached processes are asked.
-/

namespace CryptolEdit

-- ========================================================== registry

/-- What the user of a session needs to know of it. -/
structure Handle where
  displayName : Text
  path : Path
  pid : Nat
deriving DecidableEq, Repr

/-- A session, with the number of its process. -/
structure Session where
  handle : Handle
  process : Nat
deriving DecidableEq, Repr

/-- All sessions of an editor. -/
structure Registry where
  settings : Settings
  processes : ProcessTable
  /-- Sessions by name, in the order in which they were started. -/
  sessions : List (Text × Session) := []
  /-- Processes that have no session any more and were not seen to end. -/
  detached : List Nat := []
  /-- The session that was asked for last. -/
  focused : Option Text := none
  backends : Backend.Cache := {}
  /-- The commands that were run to list backends. -/
  queries : List Command := []
  log : List Event := []

namespace Registry

/-- A registry without sessions. -/
def ofLauncher (s : Settings) (launcher : Launcher) : Registry :=
  { settings := s, processes := { launcher := launcher } }

/-- The name under which a document's session is registered. -/
def displayName (r : Registry) (path : Path) : Text :=
  ['*'] ++ r.settings.interpreter ++ [':'] ++ path.display ++ ['*']

/-- The session with a name. -/
def find? (r : Registry) (name : Text) : Option Session := r.sessions.lookup name

/-- The session of a document, whether its process runs or not. -/
def session? (r : Registry) (path : Path) : Option Session := r.find? (r.displayName path)

def note (r : Registry) (e : Event) : Registry := { r with log := r.log ++ [e] }

def noteAll (r : Registry) (es : List Event) : Registry := { r with log := r.log ++ es }

def focus (r : Registry) (name : Text) : Registry := { r with focused := some name }

def remove (r : Registry) (name : Text) : Registry :=
  { r with sessions := r.sessions.filter fun entry => entry.1 != name }

-- =========================================================== polling

/-- Asks a process whether it runs. One that cannot tell counts as ended, and is noted. -/
def isRunning (r : Registry) (process : Nat) : Bool × Registry :=
  let (answer, processes) := r.processes.poll process
  let r := { r with processes := processes }
  match answer with
  | .running => (true, r)
  | .exited => (false, r)
  | .unreadable reason =>
    (false, r.note (.unreadable ((r.processes.pid? process).getD 0) reason))

/-- Asks the process of each item in turn, and keeps those whose process runs. -/
def sift {α : Type} (process : α → Nat) (r : Registry) : List α → List α × Registry
  | [] => ([], r)
  | a :: as =>
    let (running, r) := r.isRunning (process a)
    let (kept, r) := sift process r as
    (if running then a :: kept else kept, r)

/-- The number of the process of an entry. -/
def processOf (entry : Text × Session) : Nat := entry.2.process

/-- Drops the detached processes that have ended. -/
def reap (r : Registry) : Registry :=
  let (kept, r) := r.sift id r.detached
  { r with detached := kept }

/-- Sets a process aside. -/
def retire (r : Registry) (process : Nat) : Registry :=
  { r with detached := r.detached ++ [process] }.reap

-- ========================================================= launching

/-- Where a session came from. -/
inductive Origin where
  | started
  | reused
deriving DecidableEq, Repr

/-- A session that was asked for. -/
structure Launch where
  handle : Handle
  origin : Origin
deriving DecidableEq, Repr

/-- Starts a session under a name. -/
def start (r : Registry) (name : Text) (document : Path) : Except Failure Launch × Registry :=
  let command := Command.repl r.settings document
  match r.processes.start command with
  | (.error reason, processes) =>
    (.error (.startFailed r.settings.interpreter reason),
      { r with processes := processes }.note (.startFailed command.display reason))
  | (.ok (number, pid), processes) =>
    let handle : Handle := ⟨name, document, pid⟩
    let session : Session := ⟨handle, number⟩
    let r := { r with processes := processes, sessions := r.sessions ++ [(name, session)] }
    (.ok ⟨handle, .started⟩, (r.note (.started name pid command.display)).focus name)

/-- Gives the session of a document: the one it has if its process runs, and a new one
otherwise. -/
def launch (r : Registry) (path : Option Path) : Except Failure Launch × Registry :=
  match Command.document? path with
  | .error failure => (.error failure, r)
  | .ok document =>
    let name := r.displayName document
    match r.find? name with
    | none => r.start name document
    | some session =>
      let (running, r) := r.isRunning session.process
      if running then
        (.ok ⟨session.handle, .reused⟩, (r.note (.reused name session.handle.pid)).focus name)
      else
        (((r.note (.expired name)).remove name).retire session.process).start name document

-- =========================================================== closing

/-- Forgets the session of a document. -/
def close (r : Registry) (path : Path) : Option Handle × Registry :=
  let name := r.displayName path
  match r.find? name with
  | none => (none, r)
  | some session =>
    let r := r.remove name
    let r := if r.focused = some name then { r with focused := none } else r
    (some session.handle, (r.note (.closed name session.handle.pid)).retire session.process)

/-- Takes the focus away from a session that is not registered. -/
def refocus (r : Registry) : Registry :=
  match r.focused with
  | none => r
  | some name => if (r.find? name).isSome then r else { r with focused := none }

/-- Forgets all sessions whose processes have ended, and says how many there were. -/
def prune (r : Registry) : Nat × Registry :=
  let r := r.reap
  let (kept, r) := r.sift processOf r.sessions
  let removed := r.sessions.length - kept.length
  let r := { r with sessions := kept }.refocus
  (removed, if 0 < removed then r.note (.pruned removed) else r)

-- ============================================================ asking

/-- Whether a document has a session whose process runs. -/
def isLive (r : Registry) (path : Path) : Bool × Registry :=
  match r.session? path with
  | none => (false, r)
  | some session => r.isRunning session.process

/-- How many sessions have a process that runs. -/
def liveCount (r : Registry) : Nat × Registry :=
  let (kept, r) := r.sift processOf r.sessions
  (kept.length, r)

/-- Asks the process of a document's session, and leaves the answer to the caller. -/
def pollSession (r : Registry) (path : Path) : Option Poll × Registry :=
  match r.session? path with
  | none => (none, r)
  | some session =>
    let (answer, processes) := r.processes.poll session.process
    (some answer, { r with processes := processes })

-- ========================================================== backends

/-- Compiles what a path names, for a backend if one is named. A backend that the list is known not
to have is refused first. -/
def compile? (r : Registry) (path : Option Path) (backend : Option Text) :
    Except Failure Command :=
  match backend with
  | none => Command.compile? r.settings path none
  | some name =>
    if r.backends.lists? name = some false then
      .error (.unknownBackend name)
    else
      Command.compile? r.settings path (some name)

/-- Takes over what came of asking for the backends. -/
def answered (r : Registry) (a : Backend.Answer) : Except Failure (List Text) × Registry :=
  (a.result,
    { r with backends := a.cache, queries := r.queries ++ a.asked.toList }.noteAll a.events)

/-- The backends, asked for only if they are not known. -/
def loadBackends (r : Registry) (query : Backend.Query) :
    Except Failure (List Text) × Registry :=
  r.answered (r.backends.load query r.settings)

/-- The backends, asked for again. -/
def refreshBackends (r : Registry) (query : Backend.Query) :
    Except Failure (List Text) × Registry :=
  r.answered (r.backends.refresh query r.settings)

/-- Drops the list of backends. -/
def forgetBackends (r : Registry) : Registry :=
  let forgot := r.backends.forget
  { r with backends := forgot.value }.noteAll forgot.events

end Registry

end CryptolEdit
