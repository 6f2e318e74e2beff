import CryptolEdit.Text

/-!
Patterns of the shell: `*` stands for any text, `?` for any character, and brackets for one of
several characters. Quoted characters stand for themselves.
-/

namespace CryptolEdit.Shell

/-- A character, and whether it is quoted. -/
abbrev Glyph := Char × Bool

namespace Pattern

/-- What a set of characters lists. -/
inductive Member where
  | range (first last : Char)
  | family (name : Text)
deriving DecidableEq, Repr

/-- A part of a pattern. -/
inductive Atom where
  | char (c : Char)
  | any
  | star
  | set (isNegated : Bool) (members : List Member)
deriving DecidableEq, Repr

/-- Whether a character is in a class with a name. -/
def isInClass (name : Text) (c : Char) : Bool :=
  match String.ofList name with
  | "alpha" => c.isAlpha
  | "digit" => c.isDigit
  | "alnum" => c.isAlphanum
  | "upper" => c.isUpper
  | "lower" => c.isLower
  | _ => false

def Member.has (c : Char) : Member → Bool
  | range first last => first ≤ c && c ≤ last
  | .family name => isInClass name c

/-- The name of a class that begins here, and how many characters it takes. -/
def family? (gs : List Glyph) : Option (Text × Nat) :=
  match gs with
  | ('[', false) :: (':', false) :: rest =>
    let name := (rest.map Prod.fst).takeWhile Char.isAlpha
    if (rest.drop name.length).take 2 == [(':', false), (']', false)] then
      some (name, name.length + 4)
    else
      none
  | _ => none

/-- The members of a set up to its closing bracket, and how many characters they take. There is no
set without a closing bracket. -/
def members : Nat → List Glyph → Option (List Member × Nat)
  | 0, _ => none
  | n + 1, gs =>
    let go (m : Member) (count : Nat) : Option (List Member × Nat) :=
      (members n (gs.drop count)).map fun (ms, k) => (m :: ms, count + k)
    match family? gs, gs with
    | some (name, count), _ => go (.family name) count
    | none, (']', false) :: _ => some ([], 1)
    | none, (a, _) :: ('-', false) :: (b, q) :: _ =>
      if b == ']' && !q then go (.range a a) 1 else go (.range a b) 3
    | none, (a, _) :: _ => go (.range a a) 1
    | none, [] => none

/-- The set that an opening bracket begins, and how many characters it takes. A closing bracket
right at the start is a member. -/
def set? (gs : List Glyph) : Option (Atom × Nat) :=
  let (isNegated, gs, k) := match gs with
    | ('!', false) :: r => (true, r, 1)
    | _ => (false, gs, 0)
  match gs with
  | (']', _) :: r =>
    (members (r.length + 1) r).map fun (ms, n) =>
      (.set isNegated (.range ']' ']' :: ms), n + k + 1)
  | _ => (members (gs.length + 1) gs).map fun (ms, n) => (.set isNegated ms, n + k)

/-- The atoms of a pattern. A backslash that is not quoted protects the character after it. -/
def ofGlyphs (gs : List Glyph) : List Atom :=
  match gs with
  | [] => []
  | (c, true) :: r => .char c :: ofGlyphs r
  | ('*', false) :: r => .star :: ofGlyphs r
  | ('?', false) :: r => .any :: ofGlyphs r
  | ('\\', false) :: (c, _) :: r => .char c :: ofGlyphs r
  | ('[', false) :: r =>
    match set? r with
    | some (a, n) => a :: ofGlyphs (r.drop n)
    | none => .char '[' :: ofGlyphs r
  | (c, false) :: r => .char c :: ofGlyphs r
termination_by gs.length
decreasing_by all_goals simp only [List.length_cons, List.length_drop]; omega

/-- A text and what is left of it as its characters are dropped one by one. -/
def suffixes : Text → List Text
  | [] => [[]]
  | c :: t => (c :: t) :: suffixes t

/-- Whether a pattern matches a whole text. -/
def fits : List Atom → Text → Bool
  | [], t => t.isEmpty
  | .star :: as, t => (suffixes t).any (fits as)
  | .any :: as, _ :: t => fits as t
  | .char c :: as, d :: t => c == d && fits as t
  | .set isNegated ms :: as, d :: t => (ms.any (·.has d) != isNegated) && fits as t
  | _ :: _, [] => false

/-- The first index of a list, or the last one, that a test accepts. -/
def firstIndex? (isLast : Bool) (test : Nat → Bool) (count : Nat) : Option Nat :=
  let is := List.range (count + 1)
  (if isLast then is.reverse else is).find? test

/-- Takes the shortest or longest match off the start of a text. -/
def dropStart (isLongest : Bool) (as : List Atom) (t : Text) : Text :=
  match firstIndex? isLongest (fun n => fits as (t.take n)) t.length with
  | some n => t.drop n
  | none => t

/-- Takes the shortest or longest match off the end of a text. -/
def dropEnd (isLongest : Bool) (as : List Atom) (t : Text) : Text :=
  match firstIndex? (!isLongest) (fun n => fits as (t.drop n)) t.length with
  | some n => t.take n
  | none => t

end Pattern

end CryptolEdit.Shell
