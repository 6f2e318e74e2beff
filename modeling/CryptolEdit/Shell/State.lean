import CryptolEdit.Machine.Numeral
import CryptolEdit.Machine.Status
import CryptolEdit.Machine.World
import CryptolEdit.Shell.Syntax

/-!
What a running shell knows, and actions that change it.

An action either goes on or leaves its place: a loop, a function or the whole shell. What it has
done up to there stays done. A subshell works on a copy of all but the world, which programs share.

Every process has a clock of its own, in microseconds, since processes that run side by side are run
one after the other here.
-/

namespace CryptolEdit.Shell

open Machine

/-- A variable, and whether programs inherit it. -/
structure Variable where
  value : Text
  isExported : Bool := false

/-- Why a command does not go on to the next one. -/
inductive Flow where
  | breaking (count : Nat)
  | returning
  /-- Leaves the shell with the status of the last command. -/
  | ending
  /-- Something is wrong, which ends the shell unless a command of it answers for that. -/
  | failing
  | dying (signal : Nat)
  /-- The command never ends. -/
  | endless
deriving DecidableEq, Repr

/-- A command that runs in the background. -/
structure Job where
  number : Nat
  pid : Nat
  /-- How and when it ends, unless it never does. -/
  outcome : Option (Status × Nat)
  /-- Whether it has been waited for. -/
  isWaited : Bool := false

/-- What a shell knows. Its jobs have the latest first. -/
structure State where
  /-- The name that the shell goes by. -/
  name : Text
  args : List Text := []
  vars : List (Text × Variable) := []
  functions : List (Text × Command) := []
  aliases : List (Text × Text) := []
  /-- Letters of the options that are on. -/
  options : Text := []
  status : Nat := 0
  /-- The status of the last substitution in the present command. -/
  substituted : Option Nat := none
  /-- The process that scripts take the shell for; in a subshell it is not the one that runs. -/
  pid : Nat
  /-- The process that runs, and those that it comes from. -/
  lineage : List Nat
  jobs : List Job := []
  /-- What is done on a signal, or on leaving under the number zero. -/
  traps : List (Nat × Text) := []
  channels : List (Nat × Channel) := []
  directory : Place := []
  /-- The path on which the directory was reached. -/
  here : Text := []
  loops : Nat := 0
  line : Nat := 1
  /-- The command of the shell that runs. -/
  command : Option Text := none
  /-- What that command has to write when it ends, the last first. -/
  unwritten : List Text := []
  documents : List (Nat × Word) := []
  nextDocument : Nat := 0
  /-- The next word to read options from, and how far the one before it has been read. -/
  optionIndex : Nat := 1
  optionOffset : Option Nat := none
  /-- Time that has passed. -/
  clock : Nat := 0
  mask : Nat := 18
  world : World

/-- What a shell does. -/
abbrev Act := ExceptT Flow (StateM State)

/-- Runs an action and gives its result, or why it did not go on. -/
def attempt {α : Type} (act : Act α) : Act (Except Flow α) :=
  tryCatch (do return .ok (← act)) fun f => return .error f

/-- Runs an action and another one after it, however the first one ends. -/
def ensuring {α : Type} (act : Act α) (after : Act Unit) : Act α := do
  let result ← attempt act
  after
  match result with
  | .ok a => return a
  | .error f => throw f

-- ============================================================ output

/-- Writes to a channel, and says whether that worked. -/
def State.write (s : State) (c : Channel) (t : Text) : Bool × State :=
  let (isDone, world) := s.world.write s.clock c t
  (isDone, { s with world })

/-- Writes to a descriptor, and says whether that worked. -/
def put (descriptor : Nat) (t : Text) : Act Bool :=
  modifyGet fun s =>
    match s.channels.lookup descriptor with
    | none => (t.isEmpty, s)
    | some c => s.write c t

/-- Writes to the output when the command ends, after all that it has to say about errors. -/
def say (t : Text) : Act Unit := modify fun s => { s with unwritten := t :: s.unwritten }

/-- Writes what a command has to write, and says whether that worked. -/
def flush : Act Bool := do
  let t := (← get).unwritten.reverse.flatten
  modify fun s => { s with unwritten := [] }
  put 1 t

/-- Writes to the error output. -/
def warn (t : Text) : Act Unit := do
  let _ ← put 2 t
  return ()

/-- Says something about a command on the error output. -/
def complain (t : Text) : Act Unit := do
  let s ← get
  let who := match s.command with
    | some c => c ++ ": ".toList
    | none => []
  warn (s.name ++ ": ".toList ++ Decimal.digits s.line ++ ": ".toList ++ who ++ t ++ ['\n'])

def setStatus (status : Nat) : Act Unit := modify fun s => { s with status }

/-- Leaves the shell with a status. -/
def leave {α : Type} (status : Nat) : Act α := do
  setStatus status
  throw .ending

/-- Complains, and goes on with nothing. -/
def refuse {α : Type} (t : Text) : Act α := do
  complain t
  setStatus 2
  throw .failing

/-- The number of a word, which has to be one. Blanks may stand around it. -/
def numberOf (t : Text) : Act Nat :=
  let n := Numeral.read (some 10) t
  if n.isFound && (n.rest.dropWhile isGap).isEmpty && 0 ≤ n.value && n.value < Int.pow 2 31 then
    return n.value.toNat
  else
    refuse ("Illegal number: ".toList ++ t)

-- =========================================================== options

/-- The letters of options in front of words, and the other words. -/
def optionsOf (known : String) : List Text → Act (Text × List Text)
  | ['-', '-'] :: ws => return ([], ws)
  | ('-' :: c :: cs) :: ws => do
    match (c :: cs).find? (!known.toList.contains ·) with
    | some c => refuse ("Illegal option -".toList ++ [c])
    | none =>
      let (os, rest) ← optionsOf known ws
      return (c :: cs ++ os, rest)
  | ws => return ([], ws)

/-- The words of a command without options. -/
def plainWords (args : List Text) : Act (List Text) := do return (← optionsOf "" args).2

-- ========================================================= variables

/-- Puts an entry into a table in place of the old one. -/
def insert {α : Type} (key : Text) (a : α) : List (Text × α) → List (Text × α)
  | [] => [(key, a)]
  | (k, b) :: rest => if k = key then (key, a) :: rest else (k, b) :: insert key a rest

/-- Takes an entry out of a table. -/
def erase {α : Type} (key : Text) (table : List (Text × α)) : List (Text × α) :=
  table.filter fun (k, _) => k != key

/-- Options by their letters, in the order in which they are listed. -/
def optionLetters : Text := "pubaCEVvxsnmiIfe".toList

namespace State

/-- The process that runs. -/
def process (s : State) : Nat := s.lineage.headD 0

/-- The value of a variable. -/
def var? (s : State) (name : Text) : Option Text := (s.vars.lookup name).map Variable.value

def hasOption (s : State) (c : Char) : Bool := s.options.contains c

/-- The separators of fields. -/
def separators (s : State) : Text := (s.var? "IFS".toList).getD " \t\n".toList

/-- The value of a parameter with a mark or a number for a name, or of a variable. -/
def parameter? (s : State) (name : Text) : Option Text :=
  match name with
  | ['?'] => some (Decimal.digits s.status)
  | ['$'] => some (Decimal.digits s.pid)
  | ['#'] => some (Decimal.digits s.args.length)
  | ['-'] => some (optionLetters.filter s.hasOption)
  | ['0'] => some s.name
  | ['@'] | ['*'] => some (Text.join (s.separators.take 1) s.args)
  | _ =>
    match natural? name with
    | some n => s.args[n - 1]?
    | none => s.var? name

/-- The program that a command names. -/
def program? (s : State) (name : Text) : Except Trouble Text :=
  s.world.files.command s.directory ((s.var? "PATH".toList).getD []) name

end State

/-- Changes a variable, whatever it was. -/
def storeVariable (name : Text) (v : Variable) : Act Unit :=
  modify fun s => { s with vars := insert name v s.vars }

/-- Assigns a value. -/
def assign (name value : Text) : Act Unit := do
  let s ← get
  storeVariable name { value, isExported := (s.vars.lookup name).any (·.isExported) }
  if name = "OPTIND".toList then
    let n ← numberOf value
    modify fun s => { s with optionIndex := max n 1, optionOffset := none }

-- ======================================================= descriptors

/-- The channel of a descriptor. -/
def channel? (descriptor : Nat) : Act (Option Channel) := do
  return (← get).channels.lookup descriptor

/-- Leads a descriptor to a channel. -/
def connect (descriptor : Nat) (c : Channel) : Act Unit :=
  modify fun s => { s with
    channels := (descriptor, c) :: s.channels.filter fun (d, _) => d != descriptor }

/-- Runs an action with the descriptors of now restored afterwards, however it ends. -/
def keepingChannels {α : Type} (act : Act α) : Act α := do
  let before := (← get).channels
  ensuring act (modify fun s => { s with channels := before })

/-- A new pipe with some content. -/
def newPipe (content : Text) : Act Channel :=
  modifyGet fun s =>
    let (c, world) := s.world.pipe content
    (c, { s with world })

-- ============================================================== time

/-- Lets time pass. -/
def pass (microseconds : Nat) : Act Unit :=
  modify fun s => { s with clock := s.clock + microseconds }

/-- Waits for a point in time. -/
def waitUntil (time : Nat) : Act Unit := modify fun s => { s with clock := max s.clock time }

/-- Reads all of a channel, which takes until nothing more can come. -/
def readAll (c : Channel) : Act Text :=
  modifyGet fun s =>
    let clock := max s.clock (s.world.finish c)
    let (t, world) := s.world.readAll c
    (t, { s with world, clock })

end CryptolEdit.Shell
