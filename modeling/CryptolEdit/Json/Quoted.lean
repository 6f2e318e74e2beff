import CryptolEdit.Json.Fault

/-!
Strings in documents, written, read and skipped.

Writing escapes the quote, the backslash and control characters, and nothing else. Reading takes
every escape of the grammar; a character beyond U+FFFF may be given as two units, and such units are
only taken in pairs. A string that is skipped need not have its units paired.
-/

namespace CryptolEdit.Json

-- =========================================================== writing

/-- The letter of a short escape. -/
def shortEscape? : Char → Option Char
  | '"' => some '"'
  | '\\' => some '\\'
  | '\x08' => some 'b'
  | '\x0c' => some 'f'
  | '\n' => some 'n'
  | '\r' => some 'r'
  | '\t' => some 't'
  | _ => none

/-- The lower-case digit for a number below sixteen. -/
def hexDigit (n : Nat) : Char := if n < 10 then Char.ofNat (48 + n) else Char.ofNat (87 + n)

/-- A character as it stands in a string. -/
def escaped (c : Char) : Text :=
  match shortEscape? c with
  | some letter => ['\\', letter]
  | none =>
    if c < ' ' then ['\\', 'u', '0', '0', hexDigit (c.toNat / 16), hexDigit (c.toNat % 16)]
    else [c]

/-- A text as a string. -/
def quoted (t : Text) : Text := ['"'] ++ t.flatMap escaped ++ ['"']

-- =========================================================== reading

/-- The character for the letter of a short escape. -/
def ofShortEscape? : Char → Option Char
  | '"' => some '"'
  | '\\' => some '\\'
  | '/' => some '/'
  | 'b' => some '\x08'
  | 'f' => some '\x0c'
  | 'n' => some '\n'
  | 'r' => some '\r'
  | 't' => some '\t'
  | _ => none

/-- The number for a digit of base sixteen, in either case. -/
def ofHexDigit? (c : Char) : Option Nat :=
  if '0' ≤ c ∧ c ≤ '9' then some (c.toNat - 48)
  else if 'a' ≤ c ∧ c ≤ 'f' then some (c.toNat - 87)
  else if 'A' ≤ c ∧ c ≤ 'F' then some (c.toNat - 55)
  else none

/-- The number that four digits of base sixteen make. -/
def ofHexDigits? (a b c d : Char) : Option Nat := do
  return (((← ofHexDigit? a) * 16 + (← ofHexDigit? b)) * 16 + (← ofHexDigit? c)) * 16
    + (← ofHexDigit? d)

/-- Reads the four digits of an escape. A document with fewer than four bytes left has ended. -/
def hexUnit : Text → Read Nat
  | a :: b :: c :: d :: t =>
    match ofHexDigits? a b c d with
    | some n => .ok (n, t)
    | none => .error .malformed
  | t => if Text.size t < 4 then .error .ended else .error .malformed

def isLeading (unit : Nat) : Bool := 0xd800 ≤ unit && unit ≤ 0xdbff

def isTrailing (unit : Nat) : Bool := 0xdc00 ≤ unit && unit ≤ 0xdfff

/-- The character that a pair of units makes. -/
def ofPair (leading trailing : Nat) : Char :=
  Char.ofNat (0x10000 + (leading - 0xd800) * 0x400 + (trailing - 0xdc00))

/-- Reads the second unit of a pair. -/
def secondUnit (leading : Nat) : Text → Read Char
  | [] | ['\\'] => .error .ended
  | '\\' :: 'u' :: t =>
    match hexUnit t with
    | .error fault => .error fault
    | .ok (n, rest) => if isTrailing n then .ok (ofPair leading n, rest) else .error .malformed
  | _ => .error .malformed

/-- Reads what follows the backslash of an escape. -/
def escape : Text → Read Char
  | [] => .error .ended
  | 'u' :: t =>
    match hexUnit t with
    | .error fault => .error fault
    | .ok (n, rest) =>
      if isTrailing n then .error .malformed
      else if isLeading n then secondUnit n rest
      else .ok (Char.ofNat n, rest)
  | c :: t =>
    match ofShortEscape? c with
    | some d => .ok (d, t)
    | none => .error .malformed

theorem length_hexUnit {t rest : Text} {n : Nat} (h : hexUnit t = .ok (n, rest)) :
    rest.length < t.length := by
  unfold hexUnit at h
  split at h
  · split at h
    · simp only [Except.ok.injEq, Prod.mk.injEq] at h
      obtain ⟨-, rfl⟩ := h
      simp only [List.length_cons]
      omega
    · simp at h
  · split at h <;> simp at h

theorem length_secondUnit {leading : Nat} {t rest : Text} {c : Char}
    (h : secondUnit leading t = .ok (c, rest)) : rest.length < t.length := by
  unfold secondUnit at h
  split at h
  · simp at h
  · simp at h
  · split at h
    · simp at h
    · next hu =>
      have := length_hexUnit hu
      split at h
      · simp only [Except.ok.injEq, Prod.mk.injEq] at h
        obtain ⟨-, rfl⟩ := h
        simp only [List.length_cons]
        omega
      · simp at h
  · simp at h

theorem length_escape {t rest : Text} {c : Char} (h : escape t = .ok (c, rest)) :
    rest.length < t.length := by
  unfold escape at h
  split at h
  · simp at h
  · split at h
    · simp at h
    · next hu =>
      have := length_hexUnit hu
      split at h
      · simp at h
      · split at h
        · have := length_secondUnit h
          simp only [List.length_cons]
          omega
        · simp only [Except.ok.injEq, Prod.mk.injEq] at h
          obtain ⟨-, rfl⟩ := h
          simp only [List.length_cons]
          omega
  · split at h
    · simp only [Except.ok.injEq, Prod.mk.injEq] at h
      obtain ⟨-, rfl⟩ := h
      simp
    · simp at h

/-- Reads a string after its opening quote. -/
def string (t : Text) : Read Text :=
  match t with
  | [] => .error .ended
  | c :: t =>
    if c = '"' then
      .ok ([], t)
    else if c = '\\' then
      match _h : escape t with
      | .error fault => .error fault
      | .ok (d, rest) =>
        match string rest with
        | .error fault => .error fault
        | .ok (s, rest) => .ok (d :: s, rest)
    else if c < ' ' then
      .error .malformed
    else
      match string t with
      | .error fault => .error fault
      | .ok (s, rest) => .ok (c :: s, rest)
termination_by t.length
decreasing_by
  · have := length_escape ‹_›
    simp only [List.length_cons]
    omega
  · simp

theorem length_string {t rest s : Text} (h : string t = .ok (s, rest)) :
    rest.length < t.length := by
  fun_induction string t generalizing s with
  | case1 => simp at h
  | case2 t =>
    simp only [Except.ok.injEq, Prod.mk.injEq] at h
    obtain ⟨-, rfl⟩ := h
    simp
  | case3 | case4 | case6 | case7 => simp at h
  | case5 t d r he s' r' hs _ ih =>
    simp only [Except.ok.injEq, Prod.mk.injEq] at h
    obtain ⟨-, rfl⟩ := h
    have := length_escape he
    have := ih hs
    simp only [List.length_cons]
    omega
  | case8 c t _ _ _ s' r' hs ih =>
    simp only [Except.ok.injEq, Prod.mk.injEq] at h
    obtain ⟨-, rfl⟩ := h
    have := ih hs
    simp only [List.length_cons]
    omega

-- ========================================================== skipping

/-- Skips what follows the backslash of an escape. -/
def skipEscape : Text → Except Fault Text
  | [] => .error .ended
  | 'u' :: t => (hexUnit t).map Prod.snd
  | c :: t => if (ofShortEscape? c).isSome then .ok t else .error .malformed

theorem length_skipEscape {t rest : Text} (h : skipEscape t = .ok rest) :
    rest.length < t.length := by
  unfold skipEscape at h
  split at h
  · simp at h
  · next t =>
    cases hu : hexUnit t with
    | error fault => rw [hu] at h; simp [Except.map] at h
    | ok r =>
      obtain ⟨n, u⟩ := r
      rw [hu] at h
      simp only [Except.map, Except.ok.injEq] at h
      subst h
      have := length_hexUnit hu
      simp only [List.length_cons]
      omega
  · split at h
    · simp only [Except.ok.injEq] at h
      subst h
      simp
    · simp at h

/-- Skips a string after its opening quote. -/
def skipString (t : Text) : Except Fault Text :=
  match t with
  | [] => .error .ended
  | c :: t =>
    if c = '"' then
      .ok t
    else if c = '\\' then
      match _h : skipEscape t with
      | .error fault => .error fault
      | .ok rest => skipString rest
    else if c < ' ' then
      .error .malformed
    else
      skipString t
termination_by t.length
decreasing_by
  · have := length_skipEscape ‹_›
    simp only [List.length_cons]
    omega
  · simp

theorem length_skipString {t rest : Text} (h : skipString t = .ok rest) :
    rest.length < t.length := by
  fun_induction skipString t with
  | case1 => simp at h
  | case2 t =>
    simp only [Except.ok.injEq] at h
    subst h
    simp
  | case3 | case5 => simp at h
  | case4 t r he _ ih =>
    have := length_skipEscape he
    have := ih h
    simp only [List.length_cons]
    omega
  | case6 c t _ _ _ ih =>
    have := ih h
    simp only [List.length_cons]
    omega

end CryptolEdit.Json
