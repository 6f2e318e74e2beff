import CryptolEdit.Json.Value

/-!
Documents that choose one of several names. The choice is written as a string, or as an object with
the name as its only key and `null` as the value.
-/

namespace CryptolEdit.Json

/-- Takes a name for one of the known values. -/
def choose {α : Type} (known : List (Text × α)) (name : Text) : Except Fault α :=
  match known.lookup name with
  | some a => .ok a
  | none => .error (.refused (.unknownChoice name (known.map Prod.fst)))

/-- Reads `null`. -/
def null (t : Text) : Except Fault Text :=
  match trim t with
  | 'n' :: r => word nullTail r
  | r => .error (wrongType .null r)

/-- Reads the brace that closes an object of one key. -/
def closing (t : Text) : Except Fault Text :=
  match trim t with
  | '\x7d' :: r => .ok r
  | [] => .error .ended
  | _ => .error .malformed

/-- Reads the key that an object begins with. -/
def key (t : Text) : Read Text :=
  match trim t with
  | [] => .error .ended
  | '"' :: r => string r
  | _ => .error .malformed

/-- Reads a choice. -/
def choice {α : Type} (known : List (Text × α)) (t : Text) : Except Fault (α × Text) :=
  match trim t with
  | [] => .error .ended
  | '"' :: r =>
    match string r with
    | .error fault => .error fault
    | .ok (name, r) => (choose known name).map fun a => (a, r)
  | '\x7b' :: r =>
    match key r with
    | .error fault => .error fault
    | .ok (name, r) => do
      let a ← choose known name
      let r ← colon r
      let r ← null r
      let r ← closing r
      return (a, r)
  | _ => .error .malformed

/-- Accepts a value that ends its document. -/
def document {α : Type} : Read α → Except Fault α
  | .error fault => .error fault
  | .ok (a, rest) => if (trim rest).isEmpty then .ok a else .error .malformed

end CryptolEdit.Json
