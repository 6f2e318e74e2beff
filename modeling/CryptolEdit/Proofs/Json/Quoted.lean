import CryptolEdit.Json.Quoted

/-!
Strings are read as they were written.

Writing knows three ways to put a character into a string: a short escape, an escape of
four digits, and the character itself. Reading takes one character off the front of a
string at a time, and for each of the three ways there is one step of reading that undoes
it (`string_escaped`). So a string is read back whole, whatever follows it
(`string_quoted`).
-/

namespace CryptolEdit.Json

-- ============================================================= escapes

/-- A digit that was written is read as what it was written for. -/
theorem ofHexDigit?_hexDigit : ∀ n < 16, ofHexDigit? (hexDigit n) = some n := by
  decide

/-- Two digits of base sixteen are enough for a control character. -/
theorem hexUnit_control {n : Nat} (h : n < 32) (rest : Text) :
    hexUnit ('0' :: '0' :: hexDigit (n / 16) :: hexDigit (n % 16) :: rest) = .ok (n, rest) := by
  have hhigh := ofHexDigit?_hexDigit (n / 16) (by omega)
  have hlow := ofHexDigit?_hexDigit (n % 16) (by omega)
  have hdigits : ofHexDigits? '0' '0' (hexDigit (n / 16)) (hexDigit (n % 16)) = some n := by
    have hvalue : ((0 * 16 + 0) * 16 + n / 16) * 16 + n % 16 = n := by omega
    have hzero : ofHexDigit? '0' = some 0 := rfl
    simp only [ofHexDigits?, hzero, hhigh, hlow, Option.bind_eq_bind, Option.bind_some, hvalue]
    rfl
  simp only [hexUnit, hdigits]

/-- A control character is read back from its four digits. -/
theorem escape_control {c : Char} (h : c < ' ') (rest : Text) :
    escape ('u' :: '0' :: '0' :: hexDigit (c.toNat / 16) :: hexDigit (c.toNat % 16) :: rest)
      = .ok (c, rest) := by
  have hsmall : c.toNat < 32 := h
  have htrailing : isTrailing c.toNat = false := by
    unfold isTrailing
    simp only [Bool.and_eq_false_iff, decide_eq_false_iff_not]
    omega
  have hleading : isLeading c.toNat = false := by
    unfold isLeading
    simp only [Bool.and_eq_false_iff, decide_eq_false_iff_not]
    omega
  simp [escape, hexUnit_control hsmall, htrailing, hleading]

/-- A character with a letter of its own is read back from that letter. -/
theorem escape_short {c letter : Char} (h : shortEscape? c = some letter) (rest : Text) :
    escape (letter :: rest) = .ok (c, rest) := by
  unfold shortEscape? at h
  split at h <;> cases h <;> rfl

/-- What has no short escape is neither of the two signs that end or bend a string. -/
theorem ne_of_shortEscape? {c : Char} (h : shortEscape? c = none) : c ≠ '"' ∧ c ≠ '\\' := by
  constructor
  · rintro rfl
    cases h
  · rintro rfl
    cases h

-- ============================================================= strings

/-- Puts a character in front of a string that has been read. -/
def prepend (c : Char) : Read Text → Read Text := Except.map fun (s, rest) => (c :: s, rest)

theorem string_quote (t : Text) : string ('"' :: t) = .ok ([], t) := by
  rw [string]
  exact if_pos rfl

theorem string_backslash {c : Char} {t rest : Text} (h : escape t = .ok (c, rest)) :
    string ('\\' :: t) = prepend c (string rest) := by
  rw [string, if_neg (by decide), if_pos rfl]
  split
  · next fault hfault =>
      rw [h] at hfault
      cases hfault
  · next d rest' hescape =>
      rw [h] at hescape
      cases hescape
      cases string rest <;> rfl

/-- A character that need not be escaped stands for itself. -/
theorem string_plain {c : Char} (hquote : c ≠ '"') (hbackslash : c ≠ '\\') (hcontrol : ¬c < ' ')
    (t : Text) : string (c :: t) = prepend c (string t) := by
  rw [string, if_neg hquote, if_neg hbackslash, if_neg hcontrol]
  cases string t <;> rfl

/-- One step of reading undoes the writing of one character. -/
theorem string_escaped (c : Char) (t : Text) : string (escaped c ++ t) = prepend c (string t) := by
  unfold escaped
  cases h : shortEscape? c with
  | some letter => exact string_backslash (escape_short h t)
  | none =>
      obtain ⟨hquote, hbackslash⟩ := ne_of_shortEscape? h
      by_cases hcontrol : c < ' '
      · simp only [hcontrol, if_true]
        exact string_backslash (escape_control hcontrol t)
      · simp only [hcontrol, if_false]
        exact string_plain hquote hbackslash hcontrol t

/-- A string is read back whole, and nothing of what follows it. -/
theorem string_quoted (s rest : Text) :
    string (s.flatMap escaped ++ '"' :: rest) = .ok (s, rest) := by
  induction s with
  | nil => exact string_quote rest
  | cons c s ih =>
      rw [List.flatMap_cons, List.append_assoc, string_escaped, ih]
      rfl

end CryptolEdit.Json
