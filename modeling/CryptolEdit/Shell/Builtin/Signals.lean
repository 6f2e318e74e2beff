import CryptolEdit.Shell.Process

/-!
Commands of the shell that send signals and answer them, and that wait for what runs in the
background.
-/

namespace CryptolEdit.Shell

open Machine

-- ============================================================= names

/-- The name of a signal. -/
def signalName (n : Nat) : Text :=
  if n = 0 then "EXIT".toList else (signals.lookup n).getD (Decimal.digits n)

/-- The number of a signal by its number, or by its name from a least one on. -/
def signal? (least : Nat) (t : Text) : Option Nat :=
  match natural? t with
  | some n => if n ≤ lastSignal then some n else none
  | none =>
    ((List.range (lastSignal + 1)).drop least).find? fun n =>
      signalName n == t.map Char.toUpper

-- =========================================================== sending

/-- Sends a signal to a process that the shell comes from, and says whether there is one. -/
def send (n : Nat) (target : Text) : Act Bool := do
  let pid ← numberOf target
  let s ← get
  if s.lineage.contains pid then
    let sending : Sending := ⟨pid, n, s.clock⟩
    set { s with world := { s.world with sent := s.world.sent ++ [sending] } }
    return true
  else
    complain "No such process\n".toList
    return false

/-- Names signals, or those that ended programs. -/
def listSignals (codes : List Text) : Act Nat := do
  codes.forM fun t => do
    let n ← numberOf t
    say (signalName (if 128 < n then n - 128 else n) ++ ['\n'])
  return 0

/-- Sends signals, or names them. -/
def kill (args : List Text) : Act Nat := do
  let sendAll (n : Nat) (targets : List Text) : Act Nat := do
    let sent ← targets.mapM (send n)
    return if sent.all id then 0 else 1
  match args with
  | ['-', 'l'] :: codes => listSignals (codes.take 1)
  | ('-' :: t) :: targets =>
    match signal? 1 t with
    | some n => sendAll n targets
    | none => refuse ("Illegal option -".toList ++ t.take 1)
  | targets => sendAll 15 targets

-- ============================================================= traps

/-- Says what is to be done on signals. -/
def setTraps (action? : Option Text) : List Text → Act Nat
  | [] => return 0
  | t :: ts => do
    match signal? 0 t with
    | none =>
      warn ("trap: ".toList ++ t ++ ": bad trap\n".toList)
      return 1
    | some n =>
      modify fun s =>
        let others := s.traps.filter fun (m, _) => m != n
        { s with traps := (action?.map (n, ·)).toList ++ others }
      setTraps action? ts

/-- Says what is to be done on signals. A dash, or no action at all, stands for what they do by
themselves. -/
def trap (args : List Text) : Act Nat := do
  match ← plainWords args with
  | [] => return 0
  | [t] => setTraps none [t]
  | ['-'] :: ts => setTraps none ts
  | action :: ts => setTraps (some action) ts

-- =========================================================== waiting

/-- The first signal with a trap that comes to the process before a point in time, unless that never
comes. -/
def interruption? (s : State) (time? : Option Nat) : Option Sending :=
  (byTime s.world.sent).find? fun x =>
    x.target == s.process && effect s x.signal = .trapped && time?.all (x.time < ·)

/-- Waits for a point in time, which may never come. A signal with a trap ends that early, and gives
the status. -/
def waitFor (time? : Option Nat) : Act (Option Nat) := do
  let s ← get
  match interruption? s time?, time? with
  | some x, _ =>
    waitUntil x.time
    return some (128 + x.signal)
  | none, some time =>
    waitUntil time
    return none
  | none, none => throw .endless

/-- Notes that jobs have been waited for. -/
def markWaited (isMeant : Job → Bool) : Act Unit :=
  modify fun s => { s with jobs := s.jobs.map fun j =>
    { j with isWaited := j.isWaited || isMeant j } }

/-- The job that a word names: by its number after a percent sign, or by its process. -/
def jobOf (t : Text) : Act Job := do
  let s ← get
  let job? := match t with
    | '%' :: n => (natural? n).bind fun n => s.jobs.find? (·.number == n)
    | t => (natural? t).bind fun n => s.jobs.find? (·.pid == n)
  match job? with
  | some j => return j
  | none => refuse ("No such job: ".toList ++ t)

/-- Waits for the jobs that words name, and gives the status of the last one. -/
def waitForAll (status : Nat) : List Text → Act Nat
  | [] => return status
  | t :: ts => do
    let j ← jobOf t
    match ← waitFor (j.outcome.map Prod.snd) with
    | some status => return status
    | none =>
      markWaited (·.number == j.number)
      waitForAll ((j.outcome.map (·.1.shellCode)).getD status) ts

/-- Waits for jobs, or for all of them. -/
def waitCommand (args : List Text) : Act Nat := do
  match ← plainWords args with
  | [] =>
    let times := (← get).jobs.map fun j => j.outcome.map Prod.snd
    let last : Option Nat := times.foldl (fun a b => do return max (← a) (← b)) (some 0)
    match ← waitFor last with
    | some status => return status
    | none =>
      markWaited fun _ => true
      return 0
  | words => waitForAll 127 words

end CryptolEdit.Shell
