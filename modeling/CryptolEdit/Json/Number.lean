import CryptolEdit.Json.Fault

/-!
Numbers in documents, read and skipped.

A number is read as a whole number of 64 bits times a power of ten. Digits that no longer fit are
dropped, and those of them before the point raise the power. A number with no point, no exponent
and no dropped digit is exact; any other is the double that comes of scaling the whole number by
the power of ten. A number too large for a double is malformed. A number that is skipped is only
checked against the grammar, and one that breaks off is malformed rather than ended.
-/

namespace CryptolEdit.Json

open Decimal (Double isDigit valueOf)

-- ============================================================ digits

/-- Whole numbers below this are exact. -/
def wordLimit : Nat := Nat.pow 2 64

/-- Whole numbers down to its negative are exact. -/
def negativeLimit : Nat := Nat.pow 2 63

/-- Exponents below this are scaled by; all others are out of reach. -/
def exponentLimit : Nat := Nat.pow 2 31

/-- Appends digits to a number while the result is exact. Gives the number, how many digits it
took, and the rest. -/
def takeDigits (n count : Nat) : Text → Nat × Nat × Text
  | [] => (n, count, [])
  | c :: t =>
    if isDigit c ∧ n * 10 + valueOf c < wordLimit then
      takeDigits (n * 10 + valueOf c) (count + 1) t
    else
      (n, count, c :: t)

/-- Whether a text begins with a digit. -/
def startsWithDigit : Text → Bool
  | [] => false
  | c :: _ => isDigit c

theorem length_takeDigits (n count : Nat) (t : Text) :
    (takeDigits n count t).2.2.length ≤ t.length := by
  induction t generalizing n count with
  | nil => simp [takeDigits]
  | cons c t ih =>
    rw [takeDigits]
    split
    · exact Nat.le_succ_of_le (ih _ _)
    · simp

-- =========================================================== reading

/-- A number with a fraction or an exponent. -/
def real (belowZero : Bool) (significand : Nat) (exponent : Int) (rest : Text) : Read Number :=
  match (Double.ofNat? significand).bind (·.timesTen? exponent) with
  | some x => .ok (.real belowZero x, rest)
  | none => .error .malformed

/-- A number with neither. Zero below zero, and numbers too far below it, are doubles. -/
def whole (belowZero : Bool) (n : Nat) (rest : Text) : Read Number :=
  if !belowZero then .ok (.natural n, rest)
  else if 0 < n ∧ n ≤ negativeLimit then .ok (.negative n, rest)
  else real true n 0 rest

/-- Reads the sign of an exponent. -/
def exponentSign : Text → Bool × Text
  | '+' :: t => (false, t)
  | '-' :: t => (true, t)
  | t => (false, t)

/-- Reads an exponent after its mark. -/
def exponentPart (belowZero : Bool) (significand : Nat) (exponent : Int) (t : Text) :
    Read Number :=
  let (lowers, t) := exponentSign t
  match t with
  | [] => .error .ended
  | c :: _ =>
    if !isDigit c then
      .error .malformed
    else
      let size := (t.takeWhile isDigit).foldl (fun n d => n * 10 + valueOf d) 0
      let rest := t.dropWhile isDigit
      if size < exponentLimit then
        real belowZero significand (if lowers then exponent - size else exponent + size) rest
      else if significand ≠ 0 ∧ !lowers then
        .error .malformed
      else
        .ok (.real belowZero Double.zero, rest)

/-- Goes on after the digits of a number that is no longer whole. -/
def scaled (belowZero : Bool) (significand : Nat) (exponent : Int) : Text → Read Number
  | 'e' :: t | 'E' :: t => exponentPart belowZero significand exponent t
  | t => real belowZero significand exponent t

/-- Reads a fraction after the point. -/
def fractionPart (belowZero : Bool) (significand : Nat) (exponent : Int) (t : Text) :
    Read Number :=
  match t with
  | [] => .error .ended
  | c :: _ =>
    if !isDigit c then
      .error .malformed
    else
      let (n, count, rest) := takeDigits significand 0 t
      scaled belowZero n (exponent - count) (rest.dropWhile isDigit)

/-- Reads a number after its sign. -/
def number (belowZero : Bool) (t : Text) : Read Number :=
  match t with
  | [] => .error .ended
  | c :: r =>
    if !isDigit c ∨ (c = '0' ∧ startsWithDigit r) then
      .error .malformed
    else
      let (n, _, rest) := takeDigits 0 0 t
      let dropped := (rest.takeWhile isDigit).length
      match rest.dropWhile isDigit with
      | '.' :: t => fractionPart belowZero n dropped t
      | 'e' :: t | 'E' :: t => exponentPart belowZero n dropped t
      | t => if dropped = 0 then whole belowZero n t else real belowZero n dropped t

-- ========================================================== skipping

/-- Skips an exponent after its mark. -/
def skipExponent (t : Text) : Except Fault Text :=
  let (_, t) := exponentSign t
  if startsWithDigit t then .ok (t.dropWhile isDigit) else .error .malformed

/-- Skips a number after its sign. -/
def skipNumber (t : Text) : Except Fault Text :=
  match t with
  | [] => .error .malformed
  | c :: r =>
    if !isDigit c ∨ (c = '0' ∧ startsWithDigit r) then
      .error .malformed
    else
      match r.dropWhile isDigit with
      | '.' :: t =>
        if startsWithDigit t then
          match t.dropWhile isDigit with
          | 'e' :: t | 'E' :: t => skipExponent t
          | t => .ok t
        else
          .error .malformed
      | 'e' :: t | 'E' :: t => skipExponent t
      | t => .ok t

-- =========================================================== lengths

theorem rest_real {b : Bool} {n : Nat} {e : Int} {t rest : Text} {x : Number}
    (h : real b n e t = .ok (x, rest)) : rest = t := by
  unfold real at h
  split at h
  · simp only [Except.ok.injEq, Prod.mk.injEq] at h
    exact h.2.symm
  · simp at h

theorem rest_whole {b : Bool} {n : Nat} {t rest : Text} {x : Number}
    (h : whole b n t = .ok (x, rest)) : rest = t := by
  unfold whole at h
  split at h
  · simp only [Except.ok.injEq, Prod.mk.injEq] at h
    exact h.2.symm
  · split at h
    · simp only [Except.ok.injEq, Prod.mk.injEq] at h
      exact h.2.symm
    · exact rest_real h

theorem length_exponentSign (t : Text) : (exponentSign t).2.length ≤ t.length := by
  unfold exponentSign
  split <;> simp

theorem length_exponentPart {b : Bool} {n : Nat} {e : Int} {t rest : Text} {x : Number}
    (h : exponentPart b n e t = .ok (x, rest)) : rest.length ≤ t.length := by
  unfold exponentPart at h
  have hs := length_exponentSign t
  revert h hs
  generalize exponentSign t = s
  obtain ⟨lowers, u⟩ := s
  intro h hs
  dsimp only at h hs
  split at h
  · simp at h
  · next c r =>
    have hd := Text.length_dropWhile_le isDigit (c :: r)
    split at h
    · simp at h
    · split at h
      · have := rest_real h
        subst this
        exact Nat.le_trans hd hs
      · split at h
        · simp at h
        · simp only [Except.ok.injEq, Prod.mk.injEq] at h
          obtain ⟨-, rfl⟩ := h
          exact Nat.le_trans hd hs

theorem length_scaled {b : Bool} {n : Nat} {e : Int} {t rest : Text} {x : Number}
    (h : scaled b n e t = .ok (x, rest)) : rest.length ≤ t.length := by
  unfold scaled at h
  split at h
  · exact Nat.le_succ_of_le (length_exponentPart h)
  · exact Nat.le_succ_of_le (length_exponentPart h)
  · exact Nat.le_of_eq (congrArg List.length (rest_real h))

theorem length_fractionPart {b : Bool} {n : Nat} {e : Int} {t rest : Text} {x : Number}
    (h : fractionPart b n e t = .ok (x, rest)) : rest.length ≤ t.length := by
  unfold fractionPart at h
  split at h
  · simp at h
  · next c r =>
    split at h
    · simp at h
    · have h3 := length_takeDigits n 0 (c :: r)
      generalize takeDigits n 0 (c :: r) = p at h h3
      obtain ⟨m, k, u⟩ := p
      dsimp only at h h3
      have h1 := length_scaled h
      have h2 := Text.length_dropWhile_le isDigit u
      omega

theorem length_number {b : Bool} {t rest : Text} {x : Number}
    (h : number b t = .ok (x, rest)) : rest.length ≤ t.length := by
  unfold number at h
  split at h
  · simp at h
  · next c r =>
    split at h
    · simp at h
    · have h3 := length_takeDigits 0 0 (c :: r)
      generalize takeDigits 0 0 (c :: r) = p at h h3
      obtain ⟨m, k, v⟩ := p
      dsimp only at h h3
      have h2 := Text.length_dropWhile_le isDigit v
      split at h
      · next u hu =>
        have := length_fractionPart h
        rw [hu, List.length_cons] at h2
        omega
      · next u hu =>
        have := length_exponentPart h
        rw [hu, List.length_cons] at h2
        omega
      · next u hu =>
        have := length_exponentPart h
        rw [hu, List.length_cons] at h2
        omega
      · split at h
        · rw [rest_whole h]
          omega
        · rw [rest_real h]
          omega

theorem length_skipExponent {t rest : Text} (h : skipExponent t = .ok rest) :
    rest.length ≤ t.length := by
  unfold skipExponent at h
  dsimp only at h
  split at h
  · simp only [Except.ok.injEq] at h
    subst h
    exact Nat.le_trans (Text.length_dropWhile_le _ _) (length_exponentSign t)
  · simp at h

theorem length_skipNumber {t rest : Text} (h : skipNumber t = .ok rest) :
    rest.length < t.length := by
  unfold skipNumber at h
  split at h
  · simp at h
  · next c r =>
    have h2 := Text.length_dropWhile_le isDigit r
    rw [List.length_cons]
    split at h
    · simp at h
    · split at h
      · next u hu =>
        rw [hu, List.length_cons] at h2
        have h3 := Text.length_dropWhile_le isDigit u
        split at h
        · split at h
          · next v hv =>
            have := length_skipExponent h
            rw [hv, List.length_cons] at h3
            omega
          · next v hv =>
            have := length_skipExponent h
            rw [hv, List.length_cons] at h3
            omega
          · simp only [Except.ok.injEq] at h
            subst h
            omega
        · simp at h
      · next u hu =>
        have := length_skipExponent h
        rw [hu, List.length_cons] at h2
        omega
      · next u hu =>
        have := length_skipExponent h
        rw [hu, List.length_cons] at h2
        omega
      · simp only [Except.ok.injEq] at h
        subst h
        omega

end CryptolEdit.Json
