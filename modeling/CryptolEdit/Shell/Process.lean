import CryptolEdit.Shell.Field
import CryptolEdit.Shell.Grammar
import CryptolEdit.Shell.State

/-!
Processes: how a shell runs the text of a script, comes to its end, answers signals, and starts
copies of itself.

A process in the background is run at once, from the time at which it is started.

Words and commands contain each other, so what expands a word is given what runs a command, and the
other way round. An `Engine` holds both for everything nested one level deeper.
-/

namespace CryptolEdit.Shell

open Machine

/-- How a word is expanded. -/
structure Manner where
  /-- Whether it falls into fields. -/
  isSplit : Bool := false
  /-- Whether its plain text can separate fields. -/
  cutsText : Bool := false

/-- How a command is run. -/
structure Mode where
  /-- Whether its failure is being tested for. -/
  isTested : Bool := false
  /-- Whether the process ends with it. -/
  isFinal : Bool := false
deriving DecidableEq, Repr

/-- How nested commands are run and nested words expanded. -/
structure Engine where
  run : Mode → Command → Act Unit
  pieces : Manner → Word → Act (List Piece)
  /-- Turns the process into a program, under a name and with arguments, and runs that to its
  end. -/
  launch : Text → Text → List Text → Act Unit

-- ====================================================== running text

/-- Runs a text line by line. -/
def runLines (e : Engine) (m : Mode) : Nat → Source → Act Unit
  | 0, _ => return ()
  | n + 1, source => do
    let s ← get
    match nextLine { source with aliases := s.aliases, nextDocument := s.nextDocument } with
    | .error fault =>
      modify fun s => { s with line := fault.line }
      refuse fault.reason
    | .ok none => return ()
    | .ok (some (c, source)) =>
      modify fun s => { s with
        documents := source.documents ++ s.documents, nextDocument := source.nextDocument }
      e.run m c
      runLines e m n { source with documents := [] }

/-- Runs a text, and gives the status of its last command. The flag says that its failure is being
tested for. -/
def runText (e : Engine) (isTested : Bool) (t : Text) : Act Nat := do
  runLines e { isTested } (t.length + 1) { rest := t }
  return (← get).status

-- =========================================================== signals

/-- What a signal does to a process. -/
inductive Effect where
  | nothing
  | trapped
  | death
  | halt
deriving DecidableEq, Repr

/-- What a signal does to the shell. -/
def effect (s : State) (n : Nat) : Effect :=
  match if undeniable.contains n then none else s.traps.lookup n with
  | some [] => .nothing
  | some _ => .trapped
  | none => if harmless.contains n then .nothing else if halting.contains n then .halt else .death

/-- Receives signals in the order in which they come, and gives those that a trap is set for. One
without a trap can end the process at its time. -/
def receive : List Sending → Act (List Nat)
  | [] => return []
  | x :: xs => do
    let s ← get
    match effect s x.signal with
    | .nothing => receive xs
    | .trapped => return x.signal :: (← receive xs)
    | .halt => throw .endless
    | .death =>
      set { s with clock := min s.clock x.time }
      throw (.dying x.signal)

/-- Runs the action of a trap. The status is as before after it. -/
def answer (e : Engine) (n : Nat) : Act Unit := do
  let s ← get
  match s.traps.lookup n with
  | none => return ()
  | some action =>
    let _ ← runText e false action
    setStatus s.status

/-- Signals in the order of their times. -/
def byTime (xs : List Sending) : List Sending := xs.mergeSort fun a b => a.time ≤ b.time

/-- Takes the signals that have come to the process, and answers those that a trap is set for. -/
def answerSignals (e : Engine) : Act Unit := do
  let s ← get
  let (mine, others) := s.world.sent.partition fun x => x.target == s.process && x.time ≤ s.clock
  if mine.isEmpty then return ()
  set { s with world := { s.world with sent := others } }
  let numbers ← receive (byTime mine)
  (numbers.mergeSort (· ≤ ·)).eraseReps.forM (answer e)

-- ============================================================ ending

/-- Does what has been asked for on leaving the shell. The status stays as it was unless the action
leaves with another one or fails. -/
def runExitTrap (e : Engine) : Act Unit := do
  let s ← get
  match s.traps.lookup 0 with
  | none => return ()
  | some action =>
    set { s with traps := s.traps.filter fun (n, _) => n != 0 }
    match ← attempt (runText e false action) with
    | .ok _ => setStatus s.status
    | .error .failing | .error .ending => return ()
    | .error f => throw f

/-- How a process ends that has come to a stop, unless it never does. -/
def ending (e : Engine) (result : Except Flow Unit) : Act (Option Status) := do
  match result with
  | .error (.dying n) => return some (.signalled n)
  | .error .endless => return none
  | _ =>
    match ← attempt (runExitTrap e) with
    | .error (.dying n) => return some (.signalled n)
    | .error _ => return none
    | .ok () => return some (.exited ((← get).status % 256))

-- =============================================================== jobs

/-- Whether a job has ended by now. -/
def Job.isDone (j : Job) (clock : Nat) : Bool := j.outcome.any fun (_, time) => time ≤ clock

/-- The number for a new job, and the jobs without the one that it replaces: the first that has
ended and has been waited for. -/
def freeNumber (clock : Nat) (jobs : List Job) : Nat × List Job :=
  let isFree (j : Job) : Bool := j.isWaited && j.isDone clock
  match (jobs.filter isFree).map Job.number |>.min? with
  | some n => (n, jobs.filter (·.number != n))
  | none => (jobs.length + 1, jobs)

/-- A new process id. -/
def newPid : Act Nat :=
  modifyGet fun s =>
    let pid := s.world.nextPid
    (pid, { s with world := { s.world with nextPid := pid + 1 } })

/-- Starting a process takes the shell so long. -/
def forkTime : Nat := 100

/-- A new process begins to run after so long. -/
def startTime : Nat := 200

/-- A process that has nothing more to do is gone after so long. -/
def endTime : Nat := 100

/-- Traps that a new process keeps: those that say that nothing is to be done. -/
def inheritedTraps (s : State) : List (Nat × Text) :=
  s.traps.filter fun (_, action) => action.isEmpty

/-- What a new process begins with. -/
def child (s : State) (pid : Nat) : State :=
  { s with
    lineage := pid :: s.lineage, clock := s.clock + startTime, traps := inheritedTraps s
    jobs := [] }

/-- Runs an action as a process. Gives how and when it ends, unless it never does. The shell is as
before after it, but for the world. -/
def runProcess (e : Engine) (start : State) (act : Act Unit) : Act (Option (Status × Nat)) := do
  let before ← get
  set { start with world := before.world }
  let result ← attempt act
  let status? ← ending e result
  let after ← get
  set { before with world := after.world }
  return status?.map (·, after.clock + endTime)

/-- Tells the shell that a process which it has started has ended. -/
def tellOfEnd (time : Nat) : Act Unit :=
  modify fun s => { s with world := { s.world with
    sent := s.world.sent ++ [⟨s.process, childSignal, time⟩] } }

/-- Starts a command in the background, which has no input of the shell's. -/
def startJob (e : Engine) (body : Command) : Act Unit := do
  let pid ← newPid
  let start := child (← get) pid
  let channels := (0, .device .null) :: start.channels.filter fun (d, _) => d != 0
  let outcome ← runProcess e { start with channels } (e.run { isFinal := true } body)
  if let some (_, time) := outcome then tellOfEnd time
  modify fun s =>
    let (number, jobs) := freeNumber s.clock s.jobs
    { s with
      clock := s.clock + forkTime, jobs := { number, pid, outcome } :: jobs, status := 0 }

-- ========================================================= subshells

/-- Runs an action in a copy of the shell. Gives how and when it ends, unless it never does. -/
def fork (e : Engine) (act : Act Unit) : Act (Option (Status × Nat)) := do
  let pid ← newPid
  let outcome ← runProcess e (child (← get) pid) do
    act
    answerSignals e
  pass forkTime
  if let some (_, time) := outcome then
    if ((← get).traps.lookup childSignal).isSome then tellOfEnd time
  return outcome

/-- Runs an action in a copy of the shell, waits for it, and gives its status. -/
def foreground (e : Engine) (act : Act Unit) : Act Nat := do
  match ← fork e act with
  | none => throw .endless
  | some (status, time) =>
    waitUntil time
    return status.shellCode

/-- What a command writes, without the line ends at its end. -/
def outputOf (e : Engine) (body : Command) : Act Text := do
  let c ← newPipe []
  let status ← foreground e do
    connect 1 c
    e.run { isFinal := true } body
  modify fun s => { s with substituted := some status }
  let t := (← readAll c).filter (· != '\x00')
  return (t.reverse.dropWhile (· == '\n')).reverse

end CryptolEdit.Shell
