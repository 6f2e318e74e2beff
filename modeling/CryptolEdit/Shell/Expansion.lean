import CryptolEdit.Shell.Arithmetic
import CryptolEdit.Shell.Process

/-!
What words stand for: parameters, the output of commands, and sums.
-/

namespace CryptolEdit.Shell

open Machine

-- ======================================================== parameters

/-- The pieces of all arguments. -/
def argumentPieces (isQuoted : Bool) : List Text → List Piece
  | [] => []
  | [t] => Piece.ofValue isQuoted t
  | t :: ts => Piece.ofValue isQuoted t ++ .border :: argumentPieces isQuoted ts

/-- Whether a parameter stands for the arguments one by one. -/
def isListed (m : Manner) (name : Text) (isQuoted : Bool) : Bool :=
  m.isSplit && (name == ['@'] || (name == ['*'] && !isQuoted))

/-- The pieces of the value of a parameter that is set. -/
def valuePieces (s : State) (m : Manner) (name value : Text) (isQuoted : Bool) : List Piece :=
  if isListed m name isQuoted then argumentPieces isQuoted s.args
  else Piece.ofValue isQuoted value

/-- The same pieces, or a hollow one if there are none between quotes. -/
def hollowed (isQuoted : Bool) (ps : List Piece) : List Piece :=
  if isQuoted && ps.isEmpty then [.hollow] else ps

/-- The text of a word that is not split. -/
def Engine.text (e : Engine) (w : Word) : Act Text := do
  return Piece.text (← e.pieces {} w)

/-- The pattern of a word. -/
def Engine.pattern (e : Engine) (w : Word) : Act (List Pattern.Atom) := do
  return Pattern.ofGlyphs (Piece.glyphs (← e.pieces {} w))

/-- Expands a parameter. One that is not set counts as empty, unless the shell is told to refuse
it. -/
def parameterPieces (e : Engine) (m : Manner) (name : Text) (isQuoted : Bool) (u : Use) :
    Act (List Piece) := do
  let s ← get
  let value? := s.parameter? name
  let wanted : Act Text := match value? with
    | some v => return v
    | none => if s.hasOption 'u' then refuse (name ++ ": parameter not set".toList) else return []
  match u with
  | .value =>
    let v ← wanted
    return if value?.isSome then valuePieces s m name v isQuoted else hollowed isQuoted []
  | .length => return Piece.ofValue isQuoted (Decimal.digits (← wanted).length)
  | .substitute ifSet orEmpty word =>
    let present? := value?.filter fun v => !(orEmpty && v.isEmpty)
    let instead := e.pieces { m with cutsText := true } word
    let ps ← match ifSet, present? with
      | true, some _ | false, none => instead
      | true, none => pure []
      | false, some v => pure (valuePieces s m name v isQuoted)
    return hollowed isQuoted ps
  | .trim atEnd isLongest word =>
    let t ← wanted
    let p ← e.pattern word
    return Piece.ofValue isQuoted
      (if atEnd then Pattern.dropEnd isLongest p t else Pattern.dropStart isLongest p t)

/-- The value of a sum. What it assigns stays assigned even if it then fails. -/
def arithmetic (t : Text) : Act Int := do
  let values := (← get).vars.map fun (name, v) => (name, v.value)
  let refused {α : Type} : Act α := refuse ("arithmetic expression: \"".toList ++ t ++ ['"'])
  match Arithmetic.Expression.ofText? t with
  | none => refused
  | some x =>
    let (result, after) := (Arithmetic.evaluate x).run.run values
    (after.take (after.length - values.length)).reverse.forM fun (name, v) => assign name v
    match result with
    | some n => return n
    | none => refused

-- ============================================================= words

/-- Expands the parts of a word. -/
def wordPieces (e : Engine) (m : Manner) : Word → Act (List Piece)
  | [] => return []
  | p :: ps => do
    let first ← match p with
      | .plain t true => pure (if t.isEmpty then [.hollow] else Piece.ofText true false t)
      | .plain t false => pure (Piece.ofText false m.cutsText t)
      | .parameter name u isQuoted => parameterPieces e m name isQuoted u
      | .output body isQuoted => do pure (Piece.ofValue isQuoted (← outputOf e body))
      | .arithmetic word isQuoted => do
        pure (Piece.ofValue isQuoted (integer (← arithmetic (← e.text word))))
    return first ++ (← wordPieces e m ps)

/-- The fields that words stand for. -/
def Engine.fields (e : Engine) : List Word → Act (List Text)
  | [] => return []
  | w :: ws => do
    let ps ← e.pieces { isSplit := true } w
    let fields := Piece.fields (← get).separators ps
    return fields.map (·.map Prod.fst) ++ (← Engine.fields e ws)

end CryptolEdit.Shell
