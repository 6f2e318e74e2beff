import CryptolEdit.Text.Utf8

/-!
Text with one character for each byte. Programs work on bytes, whatever these stand for, and the
rules of shells and utilities are about characters that are one byte each.
-/

namespace CryptolEdit.Text

/-- The text with a character for each byte. -/
def ofOctets (bytes : Bytes) : Text := bytes.map fun b => Char.ofNat b.toNat

/-- The bytes of a text with a character for each. -/
def toOctets (t : Text) : Bytes := t.map fun c => UInt8.ofNat c.toNat

/-- Spreads each character over the bytes of its UTF-8 form. -/
def spread (t : Text) : Text := ofOctets (encode t)

end CryptolEdit.Text
