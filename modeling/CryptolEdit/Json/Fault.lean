import CryptolEdit.Decimal.Shortest
import CryptolEdit.Text.Quoted

/-!
What can be wrong with a document. It ends too early, or it is not written according to the grammar,
or it is well written and says something that is not wanted. A document is read once from left to
right, and the first fault is the one that is reported.
-/

namespace CryptolEdit.Json

-- ============================================================ values

/-- A number as it is written. Whole numbers of up to 64 bits are exact, all others are doubles. -/
inductive Number where
  | natural (n : Nat)
  /-- The number `-n`. -/
  | negative (n : Nat)
  | real (belowZero : Bool) (magnitude : Decimal.Double)
deriving DecidableEq, Repr

/-- What stands in a document. -/
inductive Found where
  | null
  | boolean (b : Bool)
  | number (n : Number)
  | text (t : Text)
  | sequence
  | map
deriving DecidableEq, Repr

/-- What should stand there. -/
inductive Wanted where
  | text
  | sequence
  | width
  | settings
  | null
deriving DecidableEq, Repr

-- ============================================================ faults

/-- Why a well-written document is refused. -/
inductive Cause where
  | wrongType (found : Found) (wanted : Wanted)
  | outOfRange (found : Found) (wanted : Wanted)
  /-- A field stands twice in one object. -/
  | repeated (field : Text)
  /-- A name that is none of the known ones. -/
  | unknownChoice (name : Text) (known : List Text)
deriving DecidableEq, Repr

/-- What is wrong with a document. -/
inductive Fault where
  | ended
  | malformed
  | refused (cause : Cause)
deriving DecidableEq, Repr

/-- A value and what is left of the document after it. -/
abbrev Read (α : Type) := Except Fault (α × Text)

-- =========================================================== wording

/-- Messages write numbers out from a hundred-thousandth up to 10 ^ 16. -/
def messageLayout : Decimal.Layout := ⟨-5, 15⟩

/-- A word between backticks. -/
def ticked (t : Text) : Text := ['`'] ++ t ++ ['`']

def Number.display : Number → Text
  | natural n => "integer ".toList ++ ticked (Decimal.digits n)
  | negative n => "integer ".toList ++ ticked ('-' :: Decimal.digits n)
  | real belowZero x =>
    let sign := if belowZero then ['-'] else []
    "floating point ".toList ++ ticked (sign ++ messageLayout.render x.shortest)

def Found.display : Found → Text
  | null => "null".toList
  | boolean b => "boolean ".toList ++ ticked (if b then "true".toList else "false".toList)
  | number n => n.display
  | text t => "string ".toList ++ t.quoted
  | sequence => "sequence".toList
  | map => "map".toList

def Wanted.display : Wanted → Text
  | text => "a string".toList
  | sequence => "a sequence".toList
  | width => "usize".toList
  | settings => "struct Config".toList
  | null => "unit".toList

/-- The names that would do. -/
def alternatives : List Text → Text
  | [a, b] => ticked a ++ " or ".toList ++ ticked b
  | names => "one of ".toList ++ Text.join ", ".toList (names.map ticked)

def Cause.message : Cause → Text
  | wrongType found wanted =>
    "invalid type: ".toList ++ found.display ++ ", expected ".toList ++ wanted.display
  | outOfRange found wanted =>
    "invalid value: ".toList ++ found.display ++ ", expected ".toList ++ wanted.display
  | repeated field => "duplicate field ".toList ++ ticked field
  | unknownChoice name known =>
    "unknown variant ".toList ++ ticked name ++ ", expected ".toList ++ alternatives known

end CryptolEdit.Json
