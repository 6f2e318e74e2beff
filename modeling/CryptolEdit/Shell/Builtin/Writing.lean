import CryptolEdit.Machine.Condition
import CryptolEdit.Machine.Format
import CryptolEdit.Shell.Field
import CryptolEdit.Shell.State

/-!
Commands of the shell that write, read and test.
-/

namespace CryptolEdit.Shell

open Machine

-- =========================================================== writing

/-- Writes words between spaces, and a line end unless the first is `-n`. -/
def echo (args : List Text) : Act Nat := do
  let isShort := args.head? == some "-n".toList
  let args := if isShort then args.drop 1 else args
  let (t, isCut) := unescaped .shell (Text.join [' '] args)
  say (if isCut || isShort then t else t ++ ['\n'])
  return 0

/-- Writes words by a format. -/
def printf (args : List Text) : Act Nat := do
  match ← plainWords args with
  | [] => refuse "usage: printf format [arg ...]".toList
  | t :: words =>
    let d := formatted .shell t words
    say d.output
    d.lapses.forM fun lapse => complain lapse.message
    if !d.isRight then refuse "invalid directive".toList
    return if d.lapses.isEmpty then 0 else 1

-- =========================================================== testing

/-- Tests a condition. -/
def test (args : List Text) : Act Nat := do
  match Condition.evaluate args with
  | .ok b => return if b then 0 else 1
  | .error fault => refuse fault.message

/-- Tests a condition in brackets. Of the last word only the first character matters. -/
def bracket (args : List Text) : Act Nat :=
  if (args.getLastD []).head? = some ']' then test args.dropLast else refuse "missing ]".toList

-- =========================================================== reading

def isBlankSeparator (separators : Text) (c : Char) : Bool :=
  separators.contains c && Piece.isBlank c

/-- A text without the blanks at its end. -/
def withoutBlanks (separators t : Text) : Text :=
  (t.reverse.dropWhile (isBlankSeparator separators)).reverse

/-- What is left after the separator at the start. -/
def afterSeparator (separators t : Text) : Text :=
  let t := t.dropWhile (isBlankSeparator separators)
  match t with
  | c :: r => if separators.contains c then r.dropWhile (isBlankSeparator separators) else t
  | [] => []

/-- The values of the variables that a line is read into. The last one takes what is left, without a
separator that only ends its field. -/
def readFields (separators : Text) : Nat → Text → List Text
  | 0, _ => []
  | 1, t =>
    let t := withoutBlanks separators t
    let field := t.takeWhile (!separators.contains ·)
    let rest := afterSeparator separators (t.drop field.length)
    [if rest.isEmpty then field else t]
  | n + 1, t =>
    let field := t.takeWhile (!separators.contains ·)
    field :: readFields separators n (afterSeparator separators (t.drop field.length))

/-- Reads a line of the input, which takes until it is there, and says whether it has an end. -/
def readLine : Act (Text × Bool) := do
  match ← channel? 0 with
  | none => return ([], false)
  | some c =>
    let s ← get
    let t := s.world.unread c
    let line := t.takeWhile (· != '\n')
    let isWhole := decide (line.length < t.length)
    let count := line.length + isWhole.toNat
    let time := if isWhole then s.world.arrival c count else s.world.finish c
    set { s with world := s.world.consume c count, clock := max s.clock time }
    return (line.filter (· != '\x00'), isWhole)

/-- Reads a line into variables. -/
def read (args : List Text) : Act Nat := do
  let names ← plainWords args
  if names.isEmpty then refuse "arg count".toList
  let (line, isWhole) ← readLine
  let separators := (← get).separators
  let line := line.dropWhile (isBlankSeparator separators)
  (names.zip (readFields separators names.length line)).forM fun (name, v) => assign name v
  return if isWhole then 0 else 1

end CryptolEdit.Shell
