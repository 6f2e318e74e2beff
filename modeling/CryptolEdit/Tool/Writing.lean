import CryptolEdit.Machine.Format
import CryptolEdit.Shell.State

/-!
Programs of the system that write what they are told, or what they read.
-/

namespace CryptolEdit.Tool

open Machine Shell

/-- Says something about the program on the error output, and gives the status of a failure. -/
def failWith (t : Text) : Act Nat := do
  warn ((← get).name ++ ": ".toList ++ t ++ ['\n'])
  return 1

/-- Writes a text, and gives a status unless that fails. -/
def written (t : Text) (status : Nat) : Act Nat := do
  if ← put 1 t then return status else failWith "write error: No space left on device".toList

/-- All of the input. -/
def input : Act Text := do ((← channel? 0).map readAll).getD (pure [])

-- ============================================================= words

/-- The options in front of the words to write: whether to leave out the line end, and whether to
read escapes. -/
def echoOptions (isShort reads : Bool) : List Text → Bool × Bool × List Text
  | ('-' :: c :: cs) :: ws =>
    if (c :: cs).all fun x => x == 'n' || x == 'e' || x == 'E' then
      let last := (c :: cs).reverse.find? (· != 'n')
      echoOptions (isShort || (c :: cs).contains 'n') (last.elim reads (· == 'e')) ws
    else
      (isShort, reads, ('-' :: c :: cs) :: ws)
  | ws => (isShort, reads, ws)

/-- Writes words between spaces. -/
def echo (args : List Text) : Act Nat :=
  let (isShort, reads, words) := echoOptions false false args
  let t := Text.join [' '] words
  let (t, isCut) := if reads then unescaped .tool t else (t, false)
  written (if isCut || isShort then t else t ++ ['\n']) 0

/-- Writes words by a format. -/
def printf (args : List Text) : Act Nat := do
  match args with
  | [] => failWith "missing operand".toList
  | t :: words =>
    let d := formatted .tool t words
    d.lapses.forM fun lapse => do
      let _ ← failWith lapse.message
    written d.output (if d.lapses.isEmpty && d.isRight then 0 else 1)

-- ============================================================= files

/-- Copies files to the output, each as soon as it has been read. A dash stands for the input. -/
def copyAll : List Text → Act Nat
  | [] => return 0
  | path :: paths => do
    let s ← get
    let t? ← if path = ['-'] then do pure (some (← input))
      else (s.world.openPath s.directory path).toOption.mapM readAll
    match t? with
    | none =>
      let _ ← failWith (path ++ ": cannot be read".toList)
      let _ ← copyAll paths
      return 1
    | some t => if (← written t 0) = 0 then copyAll paths else return 1

/-- Copies files, or the input if there are none. -/
def cat (args : List Text) : Act Nat := copyAll (if args.isEmpty then [['-']] else args)

-- ======================================================== characters

/-- The characters of a set. -/
def setOf (t : Text) : Text := (unescaped .tool t).1

/-- Exchanges the characters of one set for those of another at the same places, and for the last
of these as often as it is needed, or deletes those of one set. -/
def tr (args : List Text) : Act Nat := do
  match args with
  | [['-', 'd'], set] => written ((← input).filter fun c => !(setOf set).contains c) 0
  | [source, target] =>
    let target := setOf target
    let moved (c : Char) : Char :=
      match (setOf source).idxOf? c with
      | some i => target.getD i (target.getLastD c)
      | none => c
    written ((← input).map moved) 0
  | _ => failWith "missing operand".toList

/-- A character as it is shown among others. -/
def shown (c : Char) : Text :=
  match "\x07\x08\t\n\x0b\x0c\r".toList.idxOf? c with
  | some i => ['\\', "abtnvfr".toList.getD i c]
  | none =>
    if 32 ≤ c.toNat && c.toNat < 127 then [c]
    else
      let ds := Nat.toDigits 8 c.toNat
      List.replicate (3 - ds.length) '0' ++ ds

/-- Rows of sixteen characters, each on the right of a cell of four. -/
def rows : Nat → Text → Text
  | 0, _ => []
  | n + 1, t =>
    if t.isEmpty then []
    else
      let cells := (t.take 16).flatMap fun c =>
        List.replicate (4 - (shown c).length) ' ' ++ shown c
      cells ++ '\n' :: rows n (t.drop 16)

/-- Shows the characters of the input, without their positions. -/
def od (args : List Text) : Act Nat := do
  if args ≠ ["-An".toList, "-c".toList] then failWith "only -An -c is known".toList
  else
    let t ← input
    written (rows (t.length + 1) t) 0

end CryptolEdit.Tool
