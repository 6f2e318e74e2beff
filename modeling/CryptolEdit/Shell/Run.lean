import CryptolEdit.Shell.Builtin
import CryptolEdit.Shell.Redirection

/-!
Running commands.

A command is run by an engine for everything nested in it. The status of the last command is part of
the state. If the shell is told to leave on failure, it does so after a command whose failure
nothing tests for.
-/

namespace CryptolEdit.Shell

open Machine

/-- A loop that goes round so often is taken to go on forever. -/
def manyRounds : Nat := 200000

/-- A round of a loop takes at least so long. -/
def roundTime : Nat := 10

/-- Leaves the shell if a failure is not tested for and the shell is told to. -/
def check (m : Mode) : Act Unit := do
  let s ← get
  if !m.isTested && s.status ≠ 0 && s.hasOption 'e' then throw .ending

/-- Whether the process may become the last program that it runs. -/
def mayBecome (m : Mode) (s : State) : Bool :=
  m.isFinal && s.traps.all fun (_, action) => action.isEmpty

-- ====================================================== assignments

/-- Assigns values before a command, and gives the names and the values. -/
def assignFor (e : Engine) (isExported : Bool) : List Assignment → Act (List (Text × Text))
  | [] => return []
  | .mk name word :: rest => do
    let v ← e.text word
    assign name v
    if isExported then storeVariable name { value := v, isExported }
    return (name, v) :: (← assignFor e isExported rest)

/-- Variables with some of them as they were before. -/
def restored (before : List (Text × Variable)) :
    List (Text × Text) → List (Text × Variable) → List (Text × Variable)
  | [], vars => vars
  | (name, _) :: done, vars =>
    restored before done ((before.lookup name).elim (erase name vars) (insert name · vars))

/-- Runs an action with what was assigned taken back after it. It stays if the shell is left. -/
def keepingVars (before : List (Text × Variable)) (done : List (Text × Text)) (act : Act Unit) :
    Act Unit := do
  let result ← attempt act
  let isLeft := match result with
    | .ok () | .error (.breaking _) | .error .returning => false
    | .error _ => true
  if !isLeft then modify fun s => { s with vars := restored before done s.vars }
  MonadExcept.ofExcept result

-- =================================================== simple commands

/-- Writes a command before it is run, to where errors went before its redirections. -/
def trace (errors : Option Channel) (words : List Text) : Act Unit := do
  let s ← get
  if !s.hasOption 'x' then return ()
  match errors with
  | none => return ()
  | some c => modify fun s => (s.write c ("+ ".toList ++ Text.join [' '] words ++ ['\n'])).2

/-- Calls a function. -/
def call (e : Engine) (m : Mode) (body : Command) (args : List Text) : Act Unit := do
  let s ← get
  set { s with args, loops := 0, optionIndex := 1, optionOffset := none }
  let result ← attempt (e.run { isTested := m.isTested } body)
  modify fun after => { after with
    args := s.args, loops := s.loops, optionIndex := s.optionIndex, optionOffset := s.optionOffset }
  match result with
  | .ok () | .error .returning => return ()
  | .error f => throw f

/-- Runs a command of the shell. Only special ones end the shell if something is wrong. -/
def callBuiltin (name : Text) (act : Act Nat) : Act Unit := do
  let before := (← get).command
  modify fun s => { s with command := some name }
  let result ← attempt act
  let isDone ← flush
  if !isDone then complain (name ++ ": I/O error".toList)
  modify fun s => { s with command := before }
  match result with
  | .ok status => setStatus (if isDone then status else status ||| 1)
  | .error .failing => if specialBuiltins.contains name then throw .failing
  | .error f => throw f

/-- Runs a program. It takes the place of the shell if that has nothing more to do. -/
def callProgram (e : Engine) (m : Mode) (name : Text) (args : List Text) : Act Unit := do
  let s ← get
  match s.program? name with
  | .ok tool =>
    let act := e.launch tool name args
    if mayBecome m s then act else setStatus (← foreground e act)
  | .error t => setStatus (← missProgram name t)

/-- Runs a command whose words are known. -/
def callCommand (e : Engine) (m : Mode) (name : Text) (args : List Text) : Act Unit := do
  match (← get).functions.lookup name, builtin? e m name with
  | some body, _ => call e m body args
  | none, some run => callBuiltin name (run args)
  | none, none => callProgram e m name args

/-- Runs a simple command. What is assigned before a special command of the shell stays assigned. -/
def runSimple (e : Engine) (m : Mode) (line : Nat) (assignments : List Assignment)
    (words : List Word) (redirects : List Redirect) : Act Unit := do
  modify fun s => { s with line, substituted := none }
  let fields ← e.fields words
  let errors ← channel? 2
  let isSpecial := fields.head?.any specialBuiltins.contains
  let traced (done : List (Text × Text)) : Act Unit :=
    trace errors (done.map (fun (name, v) => name ++ ['='] ++ v) ++ fields)
  (if fields.head? = some "exec".toList then id else keepingChannels) do
    if ← redirectAll e redirects then
      match fields with
      | [] =>
        traced (← assignFor e false assignments)
        setStatus ((← get).substituted.getD 0)
      | name :: args =>
        let before := (← get).vars
        let done ← assignFor e (!isSpecial) assignments
        traced done
        let run := callCommand e m name args
        if isSpecial then run else keepingVars before done run
    else
      setStatus 2
      if isSpecial then throw .failing

-- ========================================================= pipelines

/-- Runs the stages of a pipeline side by side, each on what the one before it writes. A stage that
never ends is cut off as soon as nobody reads any more. Gives how and when each of them ends. -/
def runStages (e : Engine) (m : Mode) :
    Option Channel → List Command → Act (List (Option (Status × Nat)))
  | _, [] => return []
  | input?, [c] => do
    let outcome ← fork e do
      input?.forM (connect 0)
      e.run m c
    return [outcome]
  | input?, c :: cs => do
    let pipe ← newPipe []
    let outcome ← fork e do
      input?.forM (connect 0)
      connect 1 pipe
      e.run m c
    if let some (_, time) := outcome then
      modify fun s => { s with world := s.world.close pipe time }
    return outcome :: (← runStages e m (some pipe) cs)

/-- Runs a pipeline. Its status is that of the last stage. -/
def runPipeline (e : Engine) (m : Mode) (stages : List Command) : Act Nat := do
  let outcomes ← runStages e { m with isFinal := true } none stages
  outcomes.forM fun outcome => (outcome.map Prod.snd).forM waitUntil
  match outcomes.getLast?.join with
  | some (status, _) => return status.shellCode
  | none => throw .endless

/-- Runs a command in a copy of the shell, where its redirections are followed. -/
def runSubshell (e : Engine) (m : Mode) (body : Command) (redirects : List Redirect) :
    Act Unit := do
  let openings ← redirects.mapM (opening e)
  let act : Act Unit := do
    if ← followAll e openings then e.run { m with isFinal := true } body
    else
      setStatus 2
      throw .failing
  let s ← get
  if mayBecome m s then
    set { s with jobs := [] }
    act
  else
    setStatus (← foreground e act)

-- ============================================================= loops

/-- Repeats an action as long as it gives something to go on with, and gives the last result. -/
def iterate {α : Type} (act : α → Act (α × Bool)) : Nat → α → Act α
  | 0, _ => throw .endless
  | n + 1, a => do
    pass roundTime
    match ← act a with
    | (b, true) => iterate act n b
    | (b, false) => return b

/-- Runs the body of a loop, and says whether the loop goes on. -/
def runBody (act : Act Unit) : Act Bool := do
  match ← attempt act with
  | .ok () => return true
  | .error (.breaking n) => if n ≤ 1 then return false else throw (.breaking (n - 1))
  | .error f => throw f

/-- Runs a loop. -/
def inLoop (act : Act Unit) : Act Unit := do
  let loops := (← get).loops
  modify fun s => { s with loops := loops + 1 }
  ensuring act (modify fun s => { s with loops })

/-- Runs a loop with a condition. Its status is that of the last round of the body. -/
def runLoop (e : Engine) (m : Mode) (condition body : Command) : Act Unit :=
  inLoop do
    let status ← iterate round manyRounds 0
    setStatus status
where
  /-- One round, with the status of the body in the round before. -/
  round (status : Nat) : Act (Nat × Bool) := do
    if !(← runBody (e.run { isTested := true } condition)) || (← get).status ≠ 0 then
      return (status, false)
    let goesOn ← runBody (e.run { isTested := m.isTested } body)
    return ((← get).status, goesOn)

/-- Runs a loop over words. -/
def runEach (e : Engine) (m : Mode) (name : Text) (body : Command) (ws : List Text) : Act Unit :=
  inLoop (rounds ws)
where
  /-- Goes through the words that are left. -/
  rounds : List Text → Act Unit
    | [] => return ()
    | w :: ws => do
      assign name w
      if ← runBody (e.run { isTested := m.isTested } body) then rounds ws

/-- Runs the body of a branch, which succeeds if there is nothing in it. -/
def runBranch (e : Engine) (m : Mode) : Command → Act Unit
  | .nothing => setStatus 0
  | body => e.run m body

/-- Whether a text matches one of some patterns. -/
def fitsAny (e : Engine) (t : Text) : List Word → Act Bool
  | [] => return false
  | w :: ws => do
    if Pattern.fits (← e.pattern w) t then return true else fitsAny e t ws

/-- Runs the first branch with a pattern that a text matches. -/
def runBranches (e : Engine) (m : Mode) (t : Text) : List Branch → Act Unit
  | [] => setStatus 0
  | .mk patterns body :: rest => do
    if ← fitsAny e t patterns then runBranch e m body else runBranches e m t rest

-- ========================================================== commands

/-- Runs a command that is not turned off, between signals. -/
def runActive (e : Engine) (m : Mode) : Command → Act Unit
  | .nothing => return ()
  | .simple line assignments words redirects => do
    runSimple e m line assignments words redirects
    check m
  | .pipeline stages => do
    setStatus (← runPipeline e m stages)
    check m
  | .negation body => do
    e.run { isTested := true } body
    setStatus (if (← get).status = 0 then 1 else 0)
  | .both first second => do
    e.run { isTested := true } first
    if (← get).status = 0 then e.run m second
  | .either first second => do
    e.run { isTested := true } first
    if (← get).status ≠ 0 then e.run m second
  | .sequence first second => do
    e.run { m with isFinal := false } first
    e.run m second
  | .background body => startJob e body
  | .subshell line body redirects => do
    modify fun s => { s with line }
    runSubshell e m body redirects
    check m
  | .redirected line body redirects => do
    modify fun s => { s with line }
    let isDone ← keepingChannels do
      let isDone ← redirectAll e redirects
      if isDone then e.run { m with isFinal := false } body else setStatus 2
      return isDone
    if !isDone then check m
  | .choice condition yes no => do
    e.run { isTested := true } condition
    runBranch e m (if (← get).status = 0 then yes else no)
  | .loop condition body => runLoop e m condition body
  | .each line name words body => do
    modify fun s => { s with line }
    let ws ← e.fields words
    if ws.isEmpty then setStatus 0
    runEach e m name body ws
  | .select line word branches => do
    modify fun s => { s with line }
    runBranches e m (← e.text word) branches
  | .define name body =>
    modify fun s => { s with functions := insert name body s.functions, status := 0 }

/-- Runs a command. Signals are answered before and after it. -/
def runCommand (e : Engine) (m : Mode) (c : Command) : Act Unit := do
  answerSignals e
  runActive e m c
  answerSignals e

-- ========================================================= the shell

/-- Sets the variables that a shell begins with. -/
def begin (s : State) : State :=
  let here := (s.var? "PWD".toList).getD []
  let isRight := here.head? = some '/' &&
    (s.world.files.find s.directory here).toOption == some s.directory
  let own : List (String × Text) :=
    [("IFS", " \t\n".toList), ("OPTIND", ['1']), ("PPID", Decimal.digits (s.lineage.getD 1 0))]
  { s with
    pid := s.process
    here := if isRight then here else Files.path s.directory
    vars := own.foldl (fun vs (name, value) => insert name.toList { value } vs) s.vars }

/-- Reads the letters of options in front of words. The letter `c` says that the first of the other
words is a script. -/
def readOptions (hasScript : Bool) : List Text → Act (Bool × List Text)
  | ['-', '-'] :: ws => return (hasScript, ws)
  | ('-' :: c :: cs) :: ws => do
    ((c :: cs).filter (· != 'c')).forM (setOption true)
    readOptions (hasScript || (c :: cs).contains 'c') ws
  | ws => return (hasScript, ws)

/-- Runs the shell with the words after its name. Without a script it runs its input. -/
def runShell (e : Engine) (name : Text) (args : List Text) : Act Unit := do
  modify fun s => begin { s with name, line := 0 }
  match ← readOptions false args with
  | (true, script :: rest) =>
    modify fun s => { s with name := rest.headD s.name, args := rest.drop 1 }
    setStatus (← runText e false script)
  | (false, []) =>
    let t ← ((← channel? 0).map readAll).getD (pure [])
    setStatus (← runText e false t)
  | (true, []) => refuse "-c requires an argument".toList
  | (false, path :: _) => refuse ("cannot open ".toList ++ path)

/-- Starting a program takes so long. -/
def launchTime : Nat := 1000

/-- Turns the process into a program, and runs that to its end. Only what programs inherit is
left of the shell. -/
def asProgram (e : Engine) (name : Text) (act : Act Unit) : Act Unit := do
  let s ← get
  set { name
        vars := s.vars.filter (·.2.isExported), pid := s.process, lineage := s.lineage
        traps := inheritedTraps s, channels := s.channels, directory := s.directory
        clock := s.clock + launchTime, mask := s.mask, world := s.world : State }
  let result ← attempt do
    act
    answerSignals e
  match ← ending e result with
  | some (.exited code) =>
    modify fun s => { s with traps := [] }
    leave code
  | some (.signalled n) => throw (.dying n)
  | none => throw .endless

end CryptolEdit.Shell
