/-!
The highlighting categories. Their order is the order of precedence: where two of them could claim
one piece of text, the earlier wins.
-/

namespace CryptolEdit

/-- What a piece of text is highlighted as. -/
inductive Category where
  /-- The quote that opens or closes a string. -/
  | stringMarker
  /-- Structural punctuation. -/
  | builtinSymbol
  /-- Arrows, bars and colons. -/
  | operatorSymbol
  /-- Words for values. -/
  | constantKeyword
  /-- Words for types and type predicates. -/
  | typeKeyword
  /-- Words that shape declarations, and the commands of a batch script. -/
  | controlKeyword
  /-- A comment to the end of a line, in batch scripts only. -/
  | comment
deriving DecidableEq, Repr

namespace Category

/-- All categories, in order of precedence. This is also the order of a host's legend. -/
def all : List Category :=
  [.stringMarker, .builtinSymbol, .operatorSymbol, .constantKeyword, .typeKeyword,
   .controlKeyword, .comment]

/-- The categories that source text can have, in order of precedence. -/
def priority : List Category :=
  [.stringMarker, .builtinSymbol, .operatorSymbol, .constantKeyword, .typeKeyword,
   .controlKeyword]

/-- Place of a category in the legend. -/
def index : Category → Nat
  | stringMarker => 0
  | builtinSymbol => 1
  | operatorSymbol => 2
  | constantKeyword => 3
  | typeKeyword => 4
  | controlKeyword => 5
  | comment => 6

instance : Ord Category := ⟨fun a b => compare a.index b.index⟩

/-- Name of the highlight group that a host gives a category. -/
def group : Category → String
  | stringMarker => "string"
  | builtinSymbol => "builtin"
  | operatorSymbol => "operator"
  | constantKeyword => "constant"
  | typeKeyword => "type"
  | controlKeyword => "keyword"
  | comment => "comment"

/-- Name of a category in settings documents. -/
def name : Category → String
  | stringMarker => "StringMarker"
  | builtinSymbol => "BuiltinSymbol"
  | operatorSymbol => "OperatorSymbol"
  | constantKeyword => "ConstantKeyword"
  | typeKeyword => "TypeKeyword"
  | controlKeyword => "ControlKeyword"
  | comment => "Comment"

/-- Whether members of a category are whole words. -/
def isKeyword : Category → Bool
  | constantKeyword | typeKeyword | controlKeyword => true
  | _ => false

/-- The legend lists every category at its own index. -/
theorem all_get?_index (c : Category) : all[c.index]? = some c := by
  cases c <;> rfl

end Category

end CryptolEdit
