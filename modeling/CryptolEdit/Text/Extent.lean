import CryptolEdit.Text

/-!
Extents: the bytes of a text from one offset up to another. An extent never ends before it starts.
-/

namespace CryptolEdit

/-- The bytes from `start` up to, not including, `stop`. -/
structure Extent where
  start : Nat
  stop : Nat
  start_le_stop : start ≤ stop := by omega
deriving DecidableEq, Repr

namespace Extent

/-- The extent between two offsets, if they come in order. -/
def ofBounds? (start stop : Nat) : Option Extent :=
  if h : start ≤ stop then some ⟨start, stop, h⟩ else none

/-- The part of a text that an extent covers. There is none if the extent reaches past the end or
cuts a character in two. -/
def of? (e : Extent) (t : Text) : Option Text := t.slice? e.start e.stop

end Extent

end CryptolEdit
