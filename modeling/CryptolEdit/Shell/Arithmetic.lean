import CryptolEdit.Machine.Numeral
import CryptolEdit.Shell.Syntax

/-!
Sums of the shell: integers of 64 bits, with variables that can be assigned.

An expression is read by the binding strength of its operators, and then evaluated from left to
right. The second operand of `&&` and `||`, and the branch of a choice that is not taken, are not
evaluated at all.
-/

namespace CryptolEdit.Shell.Arithmetic

open Machine

-- ============================================================ tokens

/-- What a sum is cut into. -/
inductive Token where
  | number (n : Int)
  | name (t : Text)
  | mark (t : Text)
deriving DecidableEq, Repr

/-- Marks, longer ones first. -/
def marks : List Text :=
  ["<<=", ">>=", "&&", "||", "<<", ">>", "<=", ">=", "==", "!=", "+=", "-=", "*=", "/=", "%=",
   "&=", "^=", "|=", "(", ")", "!", "~", "+", "-", "*", "/", "%", "<", ">", "=", "&", "^", "|",
   "?", ":"].map String.toList

/-- The tokens of an expression. An unknown character ends it with a mark that nothing expects. -/
def tokens (t : Text) : List Token :=
  match t with
  | [] => []
  | c :: r =>
    if isGap c then tokens r
    else if c.isDigit then
      let n := Numeral.read none (c :: r)
      .number (clamped n.value) :: tokens (r.drop (r.length - n.rest.length))
    else if isNameStart c then
      .name (c :: r.takeWhile isNameChar) :: tokens (r.drop (r.takeWhile isNameChar).length)
    else
      match marks.find? (·.isPrefixOf (c :: r)) with
      | some m => .mark m :: tokens (r.drop (m.length - 1))
      | none => [.mark [c]]
termination_by t.length
decreasing_by all_goals simp only [List.length_cons, List.length_drop]; omega

-- ======================================================= expressions

/-- A sum as it is meant. -/
inductive Expression where
  | number (n : Int)
  | reference (name : Text)
  | unary (mark : Text) (e : Expression)
  | binary (mark : Text) (a b : Expression)
  | both (a b : Expression)
  | either (a b : Expression)
  | choice (c a b : Expression)
  /-- Assigns a value, joined to the old one by an operator unless its mark is empty. -/
  | assign (mark name : Text) (e : Expression)
deriving Repr

/-- An expression and the tokens after it, unless it makes no sense. -/
abbrev Read := Option (Expression × List Token)

/-- Operators between two operands, those that bind closest first. -/
def levels : List (List Text) :=
  [["*", "/", "%"], ["+", "-"], ["<<", ">>"], ["<", "<=", ">", ">="], ["==", "!="], ["&"], ["^"],
   ["|"]].map (·.map String.toList)

def assignMarks : List Text :=
  ["=", "+=", "-=", "*=", "/=", "%=", "<<=", ">>=", "&=", "^=", "|="].map String.toList

/-- Reads an operand. -/
def primary (whole : List Token → Read) : List Token → Read
  | .number v :: ts => some (.number v, ts)
  | .name v :: ts => some (.reference v, ts)
  | .mark ['('] :: ts => do
    match ← whole ts with
    | (e, .mark [')'] :: ts) => return (e, ts)
    | _ => none
  | .mark m :: ts => do
    if !(["!", "~", "+", "-"].any (·.toList == m)) then none
    let (e, ts) ← primary whole ts
    return (.unary m e, ts)
  | [] => none

/-- Reads what follows an operand at a level. -/
def chain (operand : List Token → Read) (marks : List Text) : Nat → Expression → List Token → Read
  | 0, e, ts => some (e, ts)
  | n + 1, e, ts =>
    match ts with
    | .mark m :: rest =>
      if marks.contains m then do
        let (f, rest) ← operand rest
        chain operand marks n (.binary m e f) rest
      else
        some (e, ts)
    | _ => some (e, ts)

/-- Reads an expression of the operators at some levels. -/
def levelled (operand : List Token → Read) : List (List Text) → List Token → Read
  | [], ts => operand ts
  | marks :: closer, ts => do
    let (e, rest) ← levelled operand closer ts
    chain (levelled operand closer) marks rest.length e rest

/-- Reads operands that a mark joins, from the right. -/
def joined (mark : Text) (join : Expression → Expression → Expression)
    (operand : List Token → Read) : Nat → List Token → Read
  | 0, _ => none
  | n + 1, ts => do
    let (a, rest) ← operand ts
    if rest.head? = some (.mark mark) then
      let (b, rest) ← joined mark join operand n rest.tail
      return (join a b, rest)
    else
      return (a, rest)

/-- Reads what has no choice in it. -/
def disjunction (whole : List Token → Read) (ts : List Token) : Read :=
  let count := ts.length + 1
  let operand := levelled (primary whole) levels.reverse
  joined ['|', '|'] .either (joined ['&', '&'] .both operand count) count ts

/-- Reads a choice, or what has none. Its last branch assigns nothing without brackets. -/
def conditional (whole : List Token → Read) : Nat → List Token → Read
  | 0, _ => none
  | n + 1, ts => do
    match ← disjunction whole ts with
    | (c, .mark ['?'] :: rest) =>
      match ← whole rest with
      | (a, .mark [':'] :: rest) =>
        let (b, rest) ← conditional whole n rest
        return (.choice c a b, rest)
      | _ => none
    | r => return r

/-- Reads an expression with brackets and choices nested at most so deep. -/
def expression : Nat → List Token → Read
  | 0, _ => none
  | n + 1, ts =>
    match ts with
    | .name v :: .mark m :: rest =>
      if assignMarks.contains m then do
        let (e, rest) ← expression n rest
        return (.assign m.dropLast v e, rest)
      else
        conditional (expression n) (ts.length + 1) ts
    | _ => conditional (expression n) (ts.length + 1) ts

/-- Reads a whole text. -/
def Expression.ofText? (t : Text) : Option Expression :=
  let ts := tokens t
  match expression (ts.length + 1) ts with
  | some (e, []) => some e
  | _ => none

-- ========================================================== evaluation

/-- The values of variables as texts, with those that have been assigned first. -/
abbrev Values := List (Text × Text)

/-- Evaluation may stop, and keeps what it has assigned until then. -/
abbrev Evaluation := OptionT (StateM Values)

def truth (b : Bool) : Int := if b then 1 else 0

/-- Applies an operator to two numbers. Nothing is divided by zero. -/
def operate (mark : Text) (a b : Int) : Option Int :=
  let shift : Nat := unsigned b % 64
  match String.ofList mark with
  | "*" => some (wrapped (a * b))
  | "/" => if b = 0 then none else some (wrapped (Int.tdiv a b))
  | "%" => if b = 0 then none else some (Int.tmod a b)
  | "+" => some (wrapped (a + b))
  | "-" => some (wrapped (a - b))
  | "<<" => some (wrapped (a * Int.pow 2 shift))
  | ">>" => some (a / Int.pow 2 shift)
  | "<" => some (truth (a < b))
  | "<=" => some (truth (a ≤ b))
  | ">" => some (truth (b < a))
  | ">=" => some (truth (b ≤ a))
  | "==" => some (truth (a = b))
  | "!=" => some (truth (a ≠ b))
  | "&" => some (wrapped ((unsigned a &&& unsigned b : Nat) : Int))
  | "^" => some (wrapped ((unsigned a ^^^ unsigned b : Nat) : Int))
  | "|" => some (wrapped ((unsigned a ||| unsigned b : Nat) : Int))
  | _ => some b

/-- The number that the value of a variable stands for; nothing stands for zero. -/
def valueOf (name : Text) : Evaluation Int := do
  let value := ((← get).lookup name).getD []
  let n := Numeral.read none value
  if (value.dropWhile isGap).isEmpty then return 0
  else if n.isFound && (n.rest.dropWhile isGap).isEmpty then return clamped n.value
  else failure

/-- The value of an expression. -/
def evaluate : Expression → Evaluation Int
  | .number n => return n
  | .reference name => valueOf name
  | .unary mark e => do
    let n ← evaluate e
    match mark with
    | ['!'] => return truth (n = 0)
    | ['~'] => return -n - 1
    | ['-'] => return wrapped (-n)
    | _ => return n
  | .binary mark a b => do
    let m ← evaluate a
    let n ← evaluate b
    OptionT.mk (pure (operate mark m n))
  | .both a b => do
    if (← evaluate a) = 0 then return 0
    return truth ((← evaluate b) ≠ 0)
  | .either a b => do
    if (← evaluate a) ≠ 0 then return 1
    return truth ((← evaluate b) ≠ 0)
  | .choice c a b => do
    if (← evaluate c) = 0 then evaluate b else evaluate a
  | .assign mark name e => do
    let n ← evaluate e
    let old ← if mark.isEmpty then pure 0 else valueOf name
    let v ← OptionT.mk (pure (operate mark old n))
    modify ((name, integer v) :: ·)
    return v

end CryptolEdit.Shell.Arithmetic
