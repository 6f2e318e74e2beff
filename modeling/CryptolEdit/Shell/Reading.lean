import CryptolEdit.Shell.Source

/-!
How words are read: quotes, parameters, commands and sums within them.
-/

namespace CryptolEdit.Shell

open Parse

-- ======================================================== parameters

/-- Characters that end a word. -/
def endsWord (c : Char) : Bool := " \t\n;&|<>()".toList.contains c

/-- What may follow a backslash that is taken away. -/
def isEscaped (context : Context) (c : Char) : Bool :=
  match context with
  | .word | .braces false => true
  | .quoted | .arithmetic => "$`\"\\".toList.contains c
  | .braces true => "$`\"\\\x7d".toList.contains c
  | .document => "$`\\".toList.contains c

/-- Refuses the end of the script within quotes or brackets. -/
def refuseEnd {α : Type} : Parse α := fail "Unterminated quoted string".toList

/-- The use of a parameter after its name, up to the closing brace. -/
def use (g : Grammar) (isQuoted : Bool) : Parse Use := do
  let orEmpty := (← peek) == some ':'
  if orEmpty then skip
  match ← peek with
  | none => refuseEnd
  | some '\x7d' =>
    skip
    return .value
  | some c =>
    skip
    if c == '-' || c == '+' then
      return .substitute (c == '+') orEmpty (← g.parts (.braces isQuoted))
    else if c == '%' || c == '#' then
      let isLongest := (← peek) == some c
      if isLongest then skip
      return .trim (c == '%') isLongest (← g.parts (.braces false))
    else
      fail "Bad substitution".toList

/-- The name of a variable or the number of an argument. -/
def takeName : Parse Text := do
  match ← peek with
  | some c => takeWhile (if c.isDigit then Char.isDigit else isNameChar)
  | none => return []

/-- A parameter in braces. A number sign before a name asks for a length. -/
def braced (g : Grammar) (isQuoted : Bool) : Parse Part := do
  match (← get).rest with
  | [] => refuseEnd
  | '#' :: d :: _ =>
    skip
    if isNameChar d then
      let name ← takeName
      skip
      return .parameter name .length isQuoted
    else
      return .parameter ['#'] (← use g isQuoted) isQuoted
  | c :: _ =>
    if isNameChar c then
      let name ← takeName
      return .parameter name (← use g isQuoted) isQuoted
    else if isSpecial c then
      skip
      return .parameter [c] (← use g isQuoted) isQuoted
    else
      fail "Bad substitution".toList

-- ====================================================== substitution

/-- The commands between brackets after a dollar sign. -/
def output (g : Grammar) (isQuoted : Bool) : Parse Part := do
  let pending := (← get).pending
  modify fun s => { s with pending := [] }
  let body ← g.commands .body
  match (← get).pushed.getD .ended with
  | .mark [')'] =>
    modify fun s => { s with pushed := none, pending }
    return .output body isQuoted
  | t => expecting t ")"

/-- What stands up to a backquote. A backslash is taken away before some characters. -/
def backquotedText (isQuoted : Bool) : Text → Option (Text × Text)
  | [] => none
  | '`' :: r => some ([], r)
  | '\\' :: c :: r =>
    let kept := if "$`\\".toList.contains c || (isQuoted && c == '"') then [c] else ['\\', c]
    (backquotedText isQuoted r).map fun (t, rest) => (kept ++ t, rest)
  | c :: r => (backquotedText isQuoted r).map fun (t, rest) => (c :: t, rest)

/-- The commands between backquotes, whose lines are counted for themselves. -/
def backquoted (g : Grammar) (isQuoted : Bool) : Parse Part := do
  let s ← get
  match backquotedText isQuoted s.rest with
  | none => fail "EOF in backquote substitution".toList
  | some (t, rest) =>
    let body ← within t 1 (g.commands .body)
    modify fun s => { s with rest, line := s.line + t.count '\n' }
    return .output body isQuoted

/-- What a dollar sign begins in a context. -/
def dollar (g : Grammar) (context : Context) : Parse Part := do
  let isQuoted := context.isQuoted
  match ← peek with
  | some '(' =>
    skip
    if (← peek) == some '(' then
      skip
      return .arithmetic (← g.parts .arithmetic) isQuoted
    else
      output g isQuoted
  | some '\x7b' =>
    skip
    braced g isQuoted
  | some c =>
    if isNameStart c then
      return .parameter (← takeWhile isNameChar) .value isQuoted
    else if c.isDigit || isSpecial c then
      skip
      return .parameter [c] .value isQuoted
    else
      return .plain ['$'] isQuoted
  | none => return .plain ['$'] isQuoted

-- ============================================================= parts

/-- A text between single quotes, after the first one. -/
def singleQuoted : Parse Part := do
  let t ← takeWhile (· != '\'')
  if (← peek).isNone then refuseEnd
  skip
  return .plain t true

/-- What a backslash begins. -/
def escaped (context : Context) : Parse Part := do
  skip
  match ← peek with
  | none => return .plain ['\\'] true
  | some c =>
    if isEscaped context c then
      skip
      return .plain [c] true
    else
      return .plain ['\\'] true

/-- Reads parts up to the end of their context. The number of open brackets counts in sums. -/
def partsFrom (g : Grammar) (context : Context) : Nat → Nat → Parse Word
  | 0, _ => return []
  | n + 1, depth => do
    let q := context.isQuoted
    let go (p : Part) : Parse Word := do return (← partsFrom g context n depth).push p
    match ← peek with
    | none => if context.mayEnd then return [] else refuseEnd
    | some '\\' => do go (← escaped context)
    | some '$' =>
      skip
      let p ← dollar g context
      go p
    | some '`' =>
      skip
      let p ← backquoted g q
      go p
    | some '"' =>
      skip
      match context with
      | .quoted => return []
      | .document | .arithmetic => go (.plain ['"'] true)
      | .word | .braces _ =>
        let inner ← g.parts .quoted
        let rest ← partsFrom g context n depth
        -- Quotes make a field, but quotes around just one part leave that to the part.
        let joined := inner.foldr Word.push rest
        return if inner.length = 1 then joined else joined.push (.plain [] true)
    | some '\'' =>
      skip
      if q then go (.plain ['\''] true)
      else
        let p ← singleQuoted
        go p
    | some c =>
      match context with
      | .word => if endsWord c then return [] else do
          skip
          go (.plain [c] false)
      | .braces _ =>
        skip
        if c == '\x7d' then return [] else go (.plain [c] q)
      | .arithmetic =>
        skip
        if c == ')' && depth = 0 && (← peek) == some ')' then
          skip
          return []
        else
          let depth := if c == '(' then depth + 1 else if c == ')' then depth - 1 else depth
          return (← partsFrom g context n depth).push (.plain [c] true)
      | .quoted | .document =>
        skip
        go (.plain [c] true)

/-- Reads the parts of a context. -/
def readParts (g : Grammar) (context : Context) : Parse Word := do
  partsFrom g context (← bound) 0

end CryptolEdit.Shell
