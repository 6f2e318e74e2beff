import CryptolEdit.Decimal.Places
import CryptolEdit.Machine.Escape
import CryptolEdit.Text

/-!
Formats with directives, and how they write words.

A format is a list of items. Writing it once uses up a word for each directive; it is written again
and again until no word is left. Words that are no numbers count as far as they are, and the writer
reports that something was wrong.
-/

namespace CryptolEdit.Machine

-- ============================================================= items

/-- A size in a directive: written there, or taken from the words. -/
inductive Size where
  | given (n : Nat)
  | taken
deriving DecidableEq, Repr

/-- How a word is written. -/
structure Directive where
  flags : Text
  width : Size
  precision : Option Size
  letter : Char
deriving DecidableEq, Repr

/-- A part of a format. -/
inductive Item where
  | text (t : Text)
  | directive (d : Directive)
  /-- The output ends here. -/
  | stop
  /-- The format is wrong from here on. -/
  | wrong
deriving DecidableEq, Repr

namespace Directive

def isFlag (c : Char) : Bool := "-+ #0".toList.contains c

/-- The letters of directives. -/
def letters : Text := "bcdiouxXaAeEfFgGs".toList

/-- The size at the start of a text, and how many characters it takes. -/
def size (t : Text) : Size × Nat :=
  match t with
  | '*' :: _ => (.taken, 1)
  | _ =>
    let ds := t.takeWhile Decimal.isDigit
    (.given (valueIn 10 ds), ds.length)

/-- The directive after a percent sign, if it is one, and how many characters it takes. -/
def read (t : Text) : Option (Directive × Nat) :=
  let flags := t.takeWhile isFlag
  let t := t.drop flags.length
  let (width, m) := size t
  let t := t.drop m
  let (precision, n) := match t with
    | '.' :: r => ((some (size r).1 : Option Size), 1 + (size r).2)
    | _ => (none, 0)
  match t.drop n with
  | [] => none
  | c :: _ =>
    if letters.contains c then some (⟨flags, width, precision, c⟩, flags.length + m + n + 1)
    else none

end Directive

/-- Puts a character in front of items. -/
def Item.push (c : Char) : List Item → List Item
  | .text t :: is => .text (c :: t) :: is
  | is => .text [c] :: is

/-- The items of a format. -/
def Item.read (reader : Reader) (t : Text) : List Item :=
  match t with
  | [] => []
  | '%' :: '%' :: r => push '%' (read reader r)
  | '%' :: r =>
    match Directive.read r with
    | none => [.wrong]
    | some (d, n) => .directive d :: read reader (r.drop n)
  | '\\' :: r =>
    match _h : Escape.read reader .format r with
    | .stops => [.stop]
    | .fails => [.wrong]
    | .gives w rest => w.foldr push (read reader rest)
  | c :: r => push c (read reader r)
termination_by t.length
decreasing_by
  · simp only [List.length_cons]; omega
  · simp only [List.length_drop, List.length_cons]; omega
  · exact Nat.lt_succ_of_le (Escape.length_read _h)
  · simp

-- =========================================================== writing

/-- How a value is laid out. -/
structure Shape where
  isLeft : Bool
  hasPlus : Bool
  hasSpace : Bool
  isAlternate : Bool
  isZeroed : Bool
  width : Nat
  precision : Option Nat

namespace Shape

/-- Fills a text up with spaces. -/
def fill (s : Shape) (t : Text) : Text :=
  let gap := List.replicate (s.width - t.length) ' '
  if s.isLeft then t ++ gap else gap ++ t

/-- Fills a number up, with zeros between its mark and its digits if the shape wants them. -/
def fillNumber (s : Shape) (isZeroed : Bool) (mark digits : Text) : Text :=
  if isZeroed && !s.isLeft then
    mark ++ List.replicate (s.width - mark.length - digits.length) '0' ++ digits
  else
    s.fill (mark ++ digits)

/-- The mark before a number that has a sign. -/
def signMark (s : Shape) (isNegative : Bool) : Text :=
  if isNegative then ['-'] else if s.hasPlus then ['+'] else if s.hasSpace then [' '] else []

/-- The digits of a whole number, at least as many as the precision says. -/
def wholeDigits (s : Shape) (base n : Nat) : Text :=
  let ds := if n = 0 ∧ s.precision = some 0 then [] else Nat.toDigits base n
  List.replicate (s.precision.getD 0 - ds.length) '0' ++ ds

/-- A whole number with a sign. -/
def signed (s : Shape) (n : Int) : Text :=
  s.fillNumber (s.isZeroed && s.precision.isNone) (s.signMark (n < 0)) (s.wholeDigits 10 n.natAbs)

/-- The bits of a whole number in a base. -/
def bits (s : Shape) (letter : Char) (n : Nat) : Text :=
  let base := if letter == 'o' then 8 else if letter == 'u' then 10 else 16
  let ds := s.wholeDigits base n
  let ds := if letter == 'X' then ds.map Char.toUpper else ds
  let ds := if letter == 'o' && s.isAlternate && ds.head? != some '0' then '0' :: ds else ds
  let mark := if base = 16 ∧ s.isAlternate ∧ n ≠ 0 then ['0', letter] else []
  s.fillNumber (s.isZeroed && s.precision.isNone) mark ds

/-- A text without the zeros at its end. -/
def withoutZeros (t : Text) : Text := (t.reverse.dropWhile (· == '0')).reverse

/-- Whole part and places, with a point between them if it is wanted. -/
def pointed (isAlternate : Bool) (whole part : Text) : Text :=
  if part.isEmpty && !isAlternate then whole else whole ++ ['.'] ++ part

/-- Digits and a power of ten. -/
def exponential (isAlternate : Bool) (ds : Text) (exponent : Int) : Text :=
  let mark := if exponent < 0 then ['e', '-'] else ['e', '+']
  pointed isAlternate (ds.take 1) (ds.drop 1) ++ mark ++ Decimal.padded 2 exponent.natAbs

/-- A number in one of the notations `f`, `e` and `g`. -/
def decimal (s : Shape) (letter : Char) (x : Decimal.Double) : Text :=
  let count := s.precision.getD 6
  if letter == 'f' then
    let (whole, part) := x.places count
    pointed s.isAlternate whole part
  else if letter == 'e' then
    let (ds, e) := x.leading count
    exponential s.isAlternate ds e
  else
    let count := max count 1
    let (ds, e) := x.leading (count - 1)
    let short (t : Text) : Text := if s.isAlternate then t else withoutZeros t
    if -4 ≤ e ∧ e < count then
      let (whole, part) := x.places (count - 1 - e).toNat
      pointed s.isAlternate whole (short part)
    else
      exponential s.isAlternate (ds.take 1 ++ short (ds.drop 1)) e

/-- The places that a significand needs in hexadecimal notation. -/
def places : Nat := 13

/-- A finite number in hexadecimal notation, with as many places as it needs or as the precision
says. -/
def hexadecimal (s : Shape) (x : Decimal.Double) : Text :=
  let count := s.precision.getD places
  let n := Decimal.Double.roundDiv (x.significand * Nat.pow 16 count) (Nat.pow 16 places)
  let ds := Nat.toDigits 16 n
  let ds := List.replicate (count + 1 - ds.length) '0' ++ ds
  let (whole, part) := (ds.take (ds.length - count), ds.drop (ds.length - count))
  let part := if s.precision.isNone then withoutZeros part else part
  let exponent := if x.isZero then 0 else x.exponent + 4 * places
  let mark := if exponent < 0 then ['p', '-'] else ['p', '+']
  pointed s.isAlternate whole part ++ mark ++ Decimal.digits exponent.natAbs

/-- A number that need not be finite. -/
def number (s : Shape) (letter : Char) (isNegative : Bool) (x? : Option Decimal.Double) : Text :=
  let cased (t : Text) : Text := if letter.isUpper then t.map Char.toUpper else t
  match x? with
  | none => s.fill (s.signMark isNegative ++ cased "inf".toList)
  | some x =>
    if letter.toLower == 'a' then
      s.fillNumber s.isZeroed (s.signMark isNegative ++ cased "0x".toList) (cased (s.hexadecimal x))
    else
      s.fillNumber s.isZeroed (s.signMark isNegative) (cased (s.decimal letter.toLower x))

end Shape

/-- What is wrong with a word that should be a number. -/
inductive Lapse where
  | notNumber (word : Text)
  | notWhole (word : Text)
deriving DecidableEq, Repr

/-- What is said of such a word. -/
def Lapse.message : Lapse → Text
  | notNumber word => word ++ ": expected numeric value".toList
  | notWhole word => word ++ ": not completely converted".toList

/-- What a directive has written. -/
structure Written where
  text : Text
  lapse : Option Lapse := none
  /-- Whether the output ends here. -/
  isCut : Bool := false

namespace Written

/-- The value of a word that a quote begins: the character after the quote. -/
def quotedValue? : Text → Option Nat
  | q :: r => if q == '"' || q == '\'' then some ((r.head?.map Char.toNat).getD 0) else none
  | [] => none

/-- What is wrong with a word of which a number was found, and some of it was left. -/
def lapse? (word rest : Text) (isFound : Bool) : Option Lapse :=
  if word.isEmpty then none
  else if !isFound then some (.notNumber word)
  else if !rest.isEmpty then some (.notWhole word)
  else none

/-- The integer of a word. -/
def integerOf (word : Text) : Int × Option Lapse :=
  match quotedValue? word with
  | some n => (n, none)
  | none =>
    let n := Numeral.read none word
    (n.value, lapse? word n.rest n.isFound)

/-- Writes a word in a shape. -/
def ofWord (reader : Reader) (s : Shape) (letter : Char) (word : Text) : Written :=
  let clip (t : Text) : Text := match s.precision with
    | some n => t.take n
    | none => t
  match letter with
  | 's' => { text := s.fill (clip word) }
  | 'b' =>
    let (t, isCut) := unescaped reader word
    { text := s.fill (clip t), isCut }
  | 'c' => { text := s.fill [word.headD '\x00'] }
  | 'd' | 'i' =>
    let (n, lapse) := integerOf word
    { text := s.signed (clamped n), lapse }
  | 'o' | 'u' | 'x' | 'X' =>
    let (n, lapse) := integerOf word
    { text := s.bits letter (unsigned n), lapse }
  | _ =>
    let x := readNumber word
    { text := s.number letter x.isNegative x.amount, lapse := lapse? word x.rest x.isFound }

end Written

-- =========================================================== formats

/-- What writing a format has come to. -/
structure Draft where
  output : Text := []
  words : List Text
  lapses : List Lapse := []
  isCut : Bool := false
  /-- Whether the format makes sense as far as it has been written. -/
  isRight : Bool := true

namespace Draft

/-- A size, taken from the words if the directive says so. It is kept in 32 bits. -/
def size (d : Draft) : Size → Int × Draft
  | .given n => (n, d)
  | .taken =>
    let (n, lapse) := Written.integerOf (d.words.headD [])
    (Int.bmod (clamped n) (Nat.pow 2 32),
      { d with words := d.words.drop 1, lapses := d.lapses ++ lapse.toList })

/-- Writes a directive with the words that it needs. A negative width stands for its size and the
flag for the left side, a negative precision for none. -/
def directive (reader : Reader) (d : Draft) (x : Directive) : Draft :=
  let (width, d) := d.size x.width
  let (precision, d) := match x.precision with
    | some p => d.size p
    | none => (-1, d)
  let has (c : Char) : Bool := x.flags.contains c
  let shape : Shape :=
    { isLeft := has '-' || width < 0, hasPlus := has '+', hasSpace := has ' '
      isAlternate := has '#', isZeroed := has '0', width := min width.natAbs 100000
      precision := if precision < 0 then none else some (min precision.natAbs 100000) }
  let w := Written.ofWord reader shape x.letter (d.words.headD [])
  { d with
    output := d.output ++ w.text, words := d.words.drop 1
    lapses := d.lapses ++ w.lapse.toList, isCut := w.isCut }

/-- Writes the items of a format once. -/
def once (reader : Reader) (d : Draft) : List Item → Draft
  | [] => d
  | .stop :: _ => { d with isCut := true }
  | .wrong :: _ => { d with isCut := true, isRight := false }
  | .text t :: is => once reader { d with output := d.output ++ t } is
  | .directive x :: is =>
    let d := d.directive reader x
    if d.isCut then d else once reader d is

/-- Writes a format until all words are used, at most `count` times more. -/
def repeated (reader : Reader) (items : List Item) : Nat → Draft → Draft
  | 0, d => d
  | n + 1, d =>
    let next := d.once reader items
    if next.isCut || next.words.isEmpty || next.words.length == d.words.length then next
    else repeated reader items n next

end Draft

/-- Writes words by a format. -/
def formatted (reader : Reader) (t : Text) (words : List Text) : Draft :=
  Draft.repeated reader (Item.read reader t) (words.length + 1) { words }

end CryptolEdit.Machine
