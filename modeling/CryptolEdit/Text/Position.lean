import CryptolEdit.Text.Utf8

/-!
Lines and columns. A position counts newlines before an offset, and the bytes since the last of
them. Offsets past the end count as the end; an offset inside a character has a column inside it.
-/

namespace CryptolEdit

/-- A place in a text, both parts counted from zero, the column in bytes. -/
structure Position where
  line : Nat
  col : Nat
deriving DecidableEq, Repr

namespace Position

/-- Positions are ordered by line, then by column. -/
def compare (p q : Position) : Ordering :=
  (Ord.compare p.line q.line).then (Ord.compare p.col q.col)

instance : Ord Position := ⟨compare⟩

/-- The position of `p` once a text of `bytes` bytes without newlines stands in front of it. -/
def after (bytes : Nat) (p : Position) : Position :=
  if p.line = 0 then { p with col := bytes + p.col } else p

/-- The position of a byte offset. -/
def ofOffset : Text → Nat → Position
  | [], _ => ⟨0, 0⟩
  | c :: t, offset =>
    if offset < c.utf8Size then
      ⟨0, offset⟩
    else
      let rest := ofOffset t (offset - c.utf8Size)
      if c = '\n' then { rest with line := rest.line + 1 } else after c.utf8Size rest

/-- Where the last line of some bytes begins: after the last newline, which is looked for from the
end. -/
def lineStart (bytes : Bytes) : Nat :=
  match bytes.reverse.findIdx? (· == 0x0a) with
  | some count => bytes.length - count
  | none => 0

/-- The position of the end of some bytes, by a scan for the number of newlines and another one for
the start of the last line. -/
def atEnd (bytes : Bytes) : Position := ⟨bytes.count 0x0a, bytes.length - lineStart bytes⟩

/-- The position of an offset by the bytes before it. -/
def ofBytes (bytes : Bytes) (offset : Nat) : Position :=
  atEnd (bytes.take (min offset bytes.length))

end Position

end CryptolEdit
