import CryptolEdit.Text.Utf8

/-!
Paths of documents. A path is any sequence of bytes; `/` separates its components. Repeated and
trailing separators and trailing `.` components do not count, and a path that ends in `..` names a
directory, not a file.
-/

namespace CryptolEdit

/-- A path as the operating system sees it. -/
abbrev Path := Bytes

namespace Path

def slash : UInt8 := 47

/-- The component that stands for the directory itself. -/
def here : Bytes := [46]

/-- The component that stands for the directory above. -/
def above : Bytes := [46, 46]

/-- The parts between separators, empty ones included. -/
def components (p : Path) : List Bytes := Text.split (· == slash) p

/-- The last component that counts, unless it leads upwards. -/
def fileName? (p : Path) : Option Bytes :=
  match (components p).reverse.find? fun c => c ≠ [] ∧ c ≠ here with
  | some name => if name = above then none else some name
  | none => none

/-- A path as it is shown to people. -/
def display (p : Path) : Text := Text.decodeLossy p

end Path

end CryptolEdit
