import CryptolEdit.Shell.Reading

/-!
How commands are read: lists, pipelines, and what stands between reserved words.

A script is read one complete line of commands at a time, since what a line does can decide how the
next one is read, and a fault in a later line does not keep the earlier ones from running.
-/

namespace CryptolEdit.Shell

open Parse

-- ============================================================ tokens

/-- Goes past blanks and a comment. -/
def skipBlanks : Parse Unit := do
  let _ ← takeWhile fun c => c == ' ' || c == '\t'
  if (← peek) == some '#' then
    let _ ← takeWhile (· != '\n')

/-- Marks between commands, longer ones first. -/
def marks : List Text := [";;", "&&", "||", ";", "&", "|", "(", ")"].map String.toList

/-- Marks of redirections, longer ones first. -/
def redirectMarks : List Text := ["<<", ">&", "<", ">"].map String.toList

/-- The lines up to the one that ends a here-document, with their ends, and what follows that
one. -/
def documentText (delimiter : Text) : List Text → Text × List Text
  | [] => ([], [])
  | l :: ls =>
    if l = delimiter then ([], ls)
    else
      let (t, rest) := documentText delimiter ls
      (l ++ '\n' :: t, rest)

/-- Reads a here-document. -/
def readDocument (g : Grammar) (p : Pending) : Parse Unit := do
  let s ← get
  let (t, rest) := documentText p.delimiter (Text.lines s.rest)
  let word ← within t s.line (g.parts .document)
  modify fun s => { s with
    rest := Text.join ['\n'] rest, line := s.line + t.count '\n' + 1
    documents := (p.number, word) :: s.documents }

/-- Reads all here-documents that have been asked for. -/
def readDocuments (g : Grammar) : Parse Unit := do
  let pending := (← get).pending
  modify fun s => { s with pending := [] }
  pending.forM (readDocument g)

/-- The next token as it is written. -/
def bareToken (g : Grammar) : Parse Token := do
  match (← get).pushed with
  | some t =>
    modify fun s => { s with pushed := none }
    return t
  | none =>
    skipBlanks
    match ← peek with
    | none =>
      readDocuments g
      return .ended
    | some '\n' =>
      skip
      return .newline
    | some _ =>
      let rest := (← get).rest
      match marks.find? (·.isPrefixOf rest), redirectMarks.find? (·.isPrefixOf rest) with
      | some m, _ =>
        advance m.length
        return .mark m
      | none, some m =>
        advance m.length
        return .redirect none m
      | none, none =>
        let w ← g.parts .word
        let rest := (← get).rest
        match Word.literal? w, redirectMarks.find? (·.isPrefixOf rest) with
        | some [c], some m =>
          if c.isDigit then
            advance m.length
            return .redirect (some (c.toNat - 48)) m
          else
            return .word w
        | _, _ => return .word w

/-- The text of an alias that a token stands for. What has a meaning of its own may come first. -/
def aliasOf? (s : Source) (keepsReserved : Bool) (t : Token) : Option Text :=
  match t with
  | .word w => do
    let name ← Word.literal? w
    if keepsReserved && reserved.contains name then none else s.aliases.lookup name
  | _ => none

/-- Puts the text of an alias in place of a token. -/
def expandAlias (g : Grammar) (keepsReserved : Bool) (t : Token) : Parse Token := do
  let s ← get
  match aliasOf? s keepsReserved t with
  | none => return t
  | some value =>
    set { s with rest := value ++ s.rest }
    bareToken g


/-- The next token where a command can begin. -/
def nextOfCommand (g : Grammar) : Parse Token := do expandAlias g true (← bareToken g)

/-- Reads a reserved word. -/
def expect (g : Grammar) (wanted : String) : Parse Unit := do
  let t ← bareToken g
  if t.reserved? = some wanted.toList then return () else expecting t wanted

/-- The next token of a kind that is not a line end. -/
def nextAfterLines (g : Grammar) (token : Parse Token) : Nat → Parse Token
  | 0 => return .ended
  | n + 1 => do
    match ← token with
    | .newline =>
      readDocuments g
      nextAfterLines g token n
    | t => return t

/-- Goes past line ends to a place where a command can begin. -/
def skipLines (g : Grammar) : Parse Unit := do
  putBack (← nextAfterLines g (nextOfCommand g) (← bound))

-- ====================================================== redirections

/-- Reads the word after a redirection mark. The delimiter of a here-document is taken as it is. -/
def redirection (g : Grammar) (descriptor? : Option Nat) (mark : Text) : Parse Redirect := do
  match ← bareToken g with
  | .word w =>
    match String.ofList mark with
    | "<" => return .file (descriptor?.getD 0) false w
    | ">" => return .file (descriptor?.getD 1) true w
    | ">&" => return .copy (descriptor?.getD 1) w
    | _ =>
      let s ← get
      let p : Pending := ⟨s.nextDocument, (Word.literal? w).getD []⟩
      set { s with nextDocument := p.number + 1, pending := s.pending ++ [p] }
      return .document (descriptor?.getD 0) p.number
  | t => unexpected t

/-- Reads redirections as long as there are any. -/
def redirections (g : Grammar) : Nat → Parse (List Redirect)
  | 0 => return []
  | n + 1 => do
    match ← bareToken g with
    | .redirect d m =>
      let r ← redirection g d m
      return r :: (← redirections g n)
    | t =>
      putBack t
      return []

-- =================================================== simple commands

/-- The assignment that a word is. -/
def assignment? : Word → Option Assignment
  | .plain t false :: rest =>
    let name := t.takeWhile (· != '=')
    let value := t.drop (name.length + 1)
    if isName name && name.length < t.length then
      some ⟨name, if value.isEmpty then rest else .plain value false :: rest⟩
    else
      none
  | _ => none

/-- The parts of a simple command that have been read, in reverse. -/
structure Simple where
  assignments : List Assignment := []
  words : List Word := []
  redirects : List Redirect := []

/-- The command of these parts. -/
def Simple.command (s : Simple) (line : Nat) : Command :=
  .simple line s.assignments.reverse s.words.reverse s.redirects.reverse

/-- Reads a simple command, or the definition of a function. -/
def simple (g : Grammar) (command : Parse Command) (line : Nat) : Nat → Simple → Parse Command
  | 0, _ => return .nothing
  | n + 1, s => do
    let t ← bareToken g
    let t ← if s.words.isEmpty then expandAlias g false t else pure t
    match t with
    | .word w =>
      match s.words, assignment? w with
      | [], some a => simple g command line n { s with assignments := a :: s.assignments }
      | _, _ => simple g command line n { s with words := w :: s.words }
    | .redirect d m =>
      let r ← redirection g d m
      simple g command line n { s with redirects := r :: s.redirects }
    | .mark ['('] =>
      match ← bareToken g, s.words with
      | .mark [')'], [w] =>
        let name := (Word.literal? w).getD []
        if isName name && !specialBuiltins.contains name then
          skipLines g
          return .define name (← command)
        else
          fail "Bad function name".toList
      | t, _ => unexpected t
    | t =>
      putBack t
      return s.command line

-- ================================================= compound commands

/-- Reads what follows the condition of a choice. -/
def choiceFrom (g : Grammar) : Parse Command := do
  let condition ← g.commands .block
  expect g "then"
  let yes ← g.commands .block
  let t ← bareToken g
  if t.reserved? = some "else".toList then
    let no ← g.commands .block
    expect g "fi"
    return .choice condition yes no
  else if t.reserved? = some "fi".toList then
    return .choice condition yes .nothing
  else
    expecting t "fi"

/-- Reads words up to a mark. -/
def wordsFrom (g : Grammar) : Nat → Parse (List Word)
  | 0 => return []
  | n + 1 => do
    match ← bareToken g with
    | .word w => return w :: (← wordsFrom g n)
    | t =>
      putBack t
      return []

/-- Reads the body of a loop. -/
def loopBody (g : Grammar) : Parse Command := do
  expect g "do"
  let body ← g.commands .block
  expect g "done"
  return body

/-- Reads a loop over words. -/
def eachFrom (g : Grammar) (line : Nat) : Parse Command := do
  let name ← match ← bareToken g with
    | .word w => pure ((Word.literal? w).getD [])
    | _ => pure []
  if !isName name then fail "Bad for loop variable".toList
  expect g "in"
  let ws ← wordsFrom g (← bound)
  match ← bareToken g with
  | .newline | .mark [';'] =>
    skipLines g
    return .each line name ws (← loopBody g)
  | t => unexpected t

/-- Reads the patterns of a branch, the first of which stands in a token. -/
def patternsFrom (g : Grammar) : Nat → Token → Parse (List Word)
  | 0, _ => return []
  | n + 1, t => do
    match t, ← bareToken g with
    | .word w, .mark ['|'] => return w :: (← patternsFrom g n (← bareToken g))
    | .word w, .mark [')'] => return [w]
    | .word _, t => expecting t ")"
    | t, _ => unexpected t

/-- Reads the branches of a selection. -/
def branchesFrom (g : Grammar) : Nat → Parse (List Branch)
  | 0 => return []
  | n + 1 => do
    let t ← nextAfterLines g (bareToken g) (← bound)
    if t.reserved? = some "esac".toList then return []
    let patterns ← patternsFrom g (← bound) t
    let branch := Branch.mk patterns (← g.commands .body)
    let t ← nextAfterLines g (bareToken g) (← bound)
    match t with
    | .mark [';', ';'] => return branch :: (← branchesFrom g n)
    | t => if t.reserved? = some "esac".toList then return [branch] else expecting t ";;"

/-- Reads a selection. -/
def selectFrom (g : Grammar) (line : Nat) : Parse Command := do
  match ← bareToken g with
  | .word w =>
    expect g "in"
    return .select line w (← branchesFrom g (← bound))
  | t => unexpected t

/-- Adds the redirections that follow a compound command. -/
def withRedirections (g : Grammar) (line : Nat) (c : Command) : Parse Command := do
  let rs ← redirections g (← bound)
  return if rs.isEmpty then c else .redirected line c rs

/-- Reads a command. -/
def commandFrom (g : Grammar) : Nat → Parse Command
  | 0 => fail "nested too deeply".toList
  | n + 1 => do
    let t ← nextOfCommand g
    let line := (← get).line
    match t.reserved?.map String.ofList with
    | some "if" =>
      let c ← choiceFrom g
      withRedirections g line c
    | some "while" =>
      let condition ← g.commands .block
      let body ← loopBody g
      withRedirections g line (.loop condition body)
    | some "for" =>
      let c ← eachFrom g line
      withRedirections g line c
    | some "case" =>
      let c ← selectFrom g line
      withRedirections g line c
    | some "\x7b" =>
      let body ← g.commands .block
      expect g "\x7d"
      withRedirections g line body
    | some _ => unexpected t
    | none =>
      match t with
      | .mark ['('] =>
        let body ← g.commands .block
        match ← bareToken g with
        | .mark [')'] => return .subshell line body (← redirections g (← bound))
        | t => expecting t ")"
      | .word _ | .redirect .. =>
        putBack t
        simple g (commandFrom g n) line (← bound) {}
      | t => unexpected t

-- ============================================================= lists

/-- Reads the stages of a pipeline. -/
def stagesFrom (g : Grammar) : Nat → Parse (List Command)
  | 0 => return []
  | n + 1 => do
    let c ← commandFrom g (← bound)
    match ← bareToken g with
    | .mark ['|'] =>
      skipLines g
      return c :: (← stagesFrom g n)
    | t =>
      putBack t
      return [c]

/-- Reads a pipeline. -/
def pipeline (g : Grammar) : Parse Command := do
  let t ← nextOfCommand g
  let isNegated := t.reserved? = some ['!']
  if !isNegated then putBack t
  let c ← match ← stagesFrom g (← bound) with
    | [c] => pure c
    | cs => pure (.pipeline cs)
  return if isNegated then .negation c else c

/-- Reads pipelines that depend on each other. -/
def chainFrom (g : Grammar) : Nat → Command → Parse Command
  | 0, c => return c
  | n + 1, c => do
    match ← bareToken g with
    | .mark ['&', '&'] =>
      skipLines g
      let d ← pipeline g
      chainFrom g n (.both c d)
    | .mark ['|', '|'] =>
      skipLines g
      let d ← pipeline g
      chainFrom g n (.either c d)
    | t =>
      putBack t
      return c

/-- Whether a token can end a list of commands. -/
def Token.endsList (t : Token) : Bool :=
  match t with
  | .ended | .mark [')'] | .mark [';', ';'] => true
  | .word _ =>
    (["do", "done", "else", "esac", "fi", "then", "\x7d"].map String.toList).any
      fun r => t.reserved? == some r
  | _ => false

/-- Puts one list of commands after another. -/
def Command.andThen : Command → Command → Command
  | .nothing, c => c
  | c, d => .sequence c d

/-- Reads the commands of a list after some. The flag says whether the list may end here. -/
def listFrom (g : Grammar) (scope : Scope) : Nat → Bool → Command → Parse Command
  | 0, _, c => return c
  | n + 1, mayEnd, c => do
    let t ← if scope = .line then nextOfCommand g
      else nextAfterLines g (nextOfCommand g) (← bound)
    match t with
    | .newline =>
      readDocuments g
      return c
    | .ended =>
      putBack .ended
      return c
    | t =>
      putBack t
      if mayEnd && scope != .line && t.endsList then return c
      let first ← pipeline g
      let d ← chainFrom g (← bound) first
      match ← bareToken g, scope with
      | .mark ['&'], _ => listFrom g scope n true (c.andThen (.background d))
      | .mark [';'], _ => listFrom g scope n true (c.andThen d)
      | .newline, .line =>
        readDocuments g
        return c.andThen d
      | .newline, _ =>
        readDocuments g
        listFrom g scope n true (c.andThen d)
      | .ended, _ =>
        putBack .ended
        return c.andThen d
      | t, .line => unexpected t
      | t, _ =>
        putBack t
        return c.andThen d

/-- Reads a list of commands. -/
def readCommands (g : Grammar) (scope : Scope) : Parse Command := do
  listFrom g scope (← bound) (scope = .body) .nothing

/-- Readers for what is nested at most so deep. -/
def Grammar.nested : Nat → Grammar
  | 0 => ⟨fun _ => fail "nested too deeply".toList, fun _ => fail "nested too deeply".toList⟩
  | n + 1 => ⟨fun c => readParts (nested n) c, fun s => readCommands (nested n) s⟩

/-- Reads the commands of the next line; there are none at the end of the script. -/
def nextLine (s : Source) : Except Misreading (Option (Command × Source)) :=
  if s.rest.isEmpty then
    .ok none
  else
    (readCommands (Grammar.nested s.bound) .line s).map fun (c, s) =>
      some (c, { s with pushed := none })

end CryptolEdit.Shell
