import CryptolEdit.Shell.State

/-!
Commands of the shell that change its options, arguments and aliases.
-/

namespace CryptolEdit.Shell

open Machine

-- =========================================================== options

/-- Turns an option on or off. -/
def setOption (isOn : Bool) (c : Char) : Act Unit :=
  if optionLetters.contains c then
    modify fun s => { s with options := s.options.filter (· != c) ++ if isOn then [c] else [] }
  else
    refuse ("Illegal option -".toList ++ [c])

/-- Sets the arguments of the shell. -/
def setArguments (args : List Text) : Act Unit :=
  modify fun s => { s with args, optionIndex := 1, optionOffset := none }

/-- Sets options, and the arguments if there are any left. -/
def setFrom : List Text → Act Unit
  | [] => return ()
  | ['-', '-'] :: rest => setArguments rest
  | ['-'] :: rest => do
    setOption false 'x'
    setOption false 'v'
    if !rest.isEmpty then setArguments rest
  | ('-' :: letters) :: rest => do
    letters.forM (setOption true)
    setFrom rest
  | ('+' :: letters) :: rest => do
    letters.forM (setOption false)
    setFrom rest
  | args => setArguments args

/-- Drops the first arguments. -/
def shift (args : List Text) : Act Nat := do
  let n ← (args.head?.map numberOf).getD (pure 1)
  let s ← get
  if s.args.length < n then refuse "can't shift that many".toList
  setArguments (s.args.drop n)
  return 0

-- ================================================ options of a script

/-- The characters to read options from: those left of a word, or those of the next word. Then the
number of words that have been begun. There are none at the end of the options. -/
def optionText (s : State) (words : List Text) : Option Text × Nat :=
  let index := s.optionIndex - 1
  let left := match s.optionOffset with
    | some n => if index = 0 then [] else (words.getD (index - 1) []).drop n
    | none => []
  if !left.isEmpty then (some left, index)
  else
    match words[index]? with
    | some ('-' :: c :: cs) =>
      if c == '-' && cs.isEmpty then (none, index + 1) else (some (c :: cs), index + 1)
    | _ => (none, index)

/-- What an option letter comes to: the letter to give, its argument, and whether the rest of the
word is still to be read and the word after it is used. -/
structure OptionStep where
  letter : Char
  argument : Text := []
  rest : Text := []
  takesWord : Bool := false

/-- Reads an option letter by a list of those that are known. -/
def optionStep (spec : Text) (c : Char) (rest : Text) (next? : Option Text) : OptionStep :=
  match (if c == ':' then [] else spec.dropWhile (· != c)), rest, next? with
  | [], rest, _ => { letter := '?', rest }
  | _ :: ':' :: _, [], some w => { letter := c, argument := w, takesWord := true }
  | _ :: ':' :: _, [], none => { letter := '?' }
  | _ :: ':' :: _, rest, _ => { letter := c, argument := rest }
  | _, rest, _ => { letter := c, rest }

/-- Reads the next option of the arguments. -/
def getopts (args : List Text) : Act Nat := do
  match args with
  | [spec, name] =>
    let s ← get
    let finish (letter : Char) (index : Nat) (offset : Option Nat) : Act Unit := do
      assign "OPTIND".toList (Decimal.digits (index + 1))
      assign name [letter]
      modify fun s => { s with optionIndex := index + 1, optionOffset := offset }
    match optionText s s.args with
    | (some (c :: rest), index) =>
      let step := optionStep spec c rest s.args[index]?
      assign "OPTARG".toList step.argument
      let word := s.args.getD (index - 1) []
      let offset := if step.rest.isEmpty then none else some (word.length - step.rest.length)
      finish step.letter (if step.takesWord then index + 1 else index) offset
      return 0
    | (_, index) =>
      finish '?' index none
      return 1
  | _ => refuse "Usage: getopts optstring var".toList

-- =========================================================== aliases

/-- The name and the value of a word with an equals sign. -/
def nameAndValue (t : Text) : Text × Option Text :=
  let name := t.takeWhile (· != '=')
  (name, if name.length < t.length then some (t.drop (name.length + 1)) else none)

/-- Defines aliases, and gives the status. -/
def setAliases : List Text → Act Nat
  | [] => return 0
  | arg :: args => do
    match nameAndValue arg with
    | (name, some v) =>
      modify fun s => { s with aliases := insert name v s.aliases }
      setAliases args
    | (name, none) =>
      warn ("alias: ".toList ++ name ++ " not found\n".toList)
      return 1

/-- Takes aliases away. -/
def dropAliases (names : List Text) : Act Nat := do
  names.forM fun name => modify fun s => { s with aliases := erase name s.aliases }
  return 0

end CryptolEdit.Shell
