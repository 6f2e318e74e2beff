import CryptolEdit.Text

/-!
UTF-8, strict and lossy.

A reader of UTF-8 is always in one of a few states: between characters, or inside one with some
continuation bytes still to come, the first of which may be confined to a part of the usual range
(this is what rules out overlong forms, surrogates and code points past U+10FFFF). `State.next`
says what one byte does to the state. Strict decoding stops at the first byte that cannot follow.
Lossy decoding writes one replacement character for what has been read of the broken character and
takes the offending byte up again, so every maximal ill-formed part becomes one U+FFFD.
-/

namespace CryptolEdit

/-- Text in its encoded form, or any bytes at all. -/
abbrev Bytes := List UInt8

namespace Text

/-- The bytes of a text. -/
def encode (t : Text) : Bytes := t.flatMap String.utf8EncodeChar

namespace Utf8

/-- Inside a character: the bits read so far, how many bytes are missing, and the range in which
the next one has to lie. -/
structure Pending where
  bits : Nat
  missing : Nat
  low : Nat
  high : Nat
deriving DecidableEq, Repr

/-- What a byte does between two characters. -/
inductive Lead where
  | char (c : Char)
  | more (p : Pending)
  | bad
deriving DecidableEq, Repr

/-- Reads the first byte of a character. -/
def lead (b : Nat) : Lead :=
  if b < 0x80 then .char (Char.ofNat b)
  else if b < 0xc2 then .bad
  else if b < 0xe0 then .more ⟨b - 0xc0, 1, 0x80, 0xbf⟩
  else if b = 0xe0 then .more ⟨0, 2, 0xa0, 0xbf⟩
  else if b = 0xed then .more ⟨0xd, 2, 0x80, 0x9f⟩
  else if b < 0xf0 then .more ⟨b - 0xe0, 2, 0x80, 0xbf⟩
  else if b = 0xf0 then .more ⟨0, 3, 0x90, 0xbf⟩
  else if b < 0xf4 then .more ⟨b - 0xf0, 3, 0x80, 0xbf⟩
  else if b = 0xf4 then .more ⟨4, 3, 0x80, 0x8f⟩
  else .bad

/-- Reads a later byte of a character; `none` if it cannot follow. -/
def Pending.next (p : Pending) (b : Nat) : Option Lead :=
  if p.low ≤ b ∧ b ≤ p.high then
    let bits := p.bits * 64 + (b - 0x80)
    some (if p.missing ≤ 1 then .char (Char.ofNat bits)
      else .more ⟨bits, p.missing - 1, 0x80, 0xbf⟩)
  else
    none

/-- Strict decoding from inside or between characters. -/
def decodeFrom? : Option Pending → Bytes → Option Text
  | none, [] => some []
  | some _, [] => none
  | none, b :: bs =>
    match lead b.toNat with
    | .char c => (decodeFrom? none bs).map (c :: ·)
    | .more p => decodeFrom? (some p) bs
    | .bad => none
  | some p, b :: bs =>
    match p.next b.toNat with
    | some (.char c) => (decodeFrom? none bs).map (c :: ·)
    | some (.more q) => decodeFrom? (some q) bs
    | _ => none

/-- Stands for bytes that are not UTF-8. -/
def replacement : Char := Char.ofNat 0xfffd

/-- Lossy decoding of one byte between characters: what it writes, and the state it leaves. -/
def lossyLead (b : UInt8) : Text × Option Pending :=
  match lead b.toNat with
  | .char c => ([c], none)
  | .more p => ([], some p)
  | .bad => ([replacement], none)

/-- Lossy decoding of one byte: what it writes, and the state it leaves. -/
def lossyStep : Option Pending → UInt8 → Text × Option Pending
  | none, b => lossyLead b
  | some p, b =>
    match p.next b.toNat with
    | some (.char c) => ([c], none)
    | some (.more q) => ([], some q)
    | _ =>
      let (t, state) := lossyLead b
      (replacement :: t, state)

/-- Lossy decoding from inside or between characters. -/
def lossyFrom : Option Pending → Bytes → Text
  | none, [] => []
  | some _, [] => [replacement]
  | state, b :: bs =>
    let (t, next) := lossyStep state b
    t ++ lossyFrom next bs

end Utf8

/-- The text that some bytes encode, if they are well-formed UTF-8. -/
def decode? (bytes : Bytes) : Option Text := Utf8.decodeFrom? none bytes

/-- The text that some bytes encode, with U+FFFD for each maximal ill-formed part. -/
def decodeLossy (bytes : Bytes) : Text := Utf8.lossyFrom none bytes

end Text

end CryptolEdit
