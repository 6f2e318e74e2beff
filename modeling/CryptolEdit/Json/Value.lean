import CryptolEdit.Json.Number
import CryptolEdit.Json.Quoted

/-!
Reading values of a wanted type. Blanks before a value do not count. A value of another type is
read as far as it takes to name it, and refused: brackets are named as soon as they open, words,
numbers and strings only when they are complete.
-/

namespace CryptolEdit.Json

open Decimal (isDigit)

-- ============================================================ blanks

/-- Characters that may stand between any two parts of a document. -/
def isSpace (c : Char) : Bool := c == ' ' || c == '\t' || c == '\n' || c == '\r'

/-- What is left after blanks. -/
def trim (t : Text) : Text := t.dropWhile isSpace

theorem length_trim (t : Text) : (trim t).length ≤ t.length := Text.length_dropWhile_le _ _

theorem length_of_trim {t r : Text} {c : Char} (h : trim t = c :: r) : r.length < t.length := by
  have := length_trim t
  rw [h, List.length_cons] at this
  omega

/-- Reads the colon after a key. -/
def colon (t : Text) : Except Fault Text :=
  match trim t with
  | ':' :: r => .ok r
  | [] => .error .ended
  | _ => .error .malformed

theorem length_colon {t rest : Text} (h : colon t = .ok rest) : rest.length < t.length := by
  unfold colon at h
  split at h
  · next r hr =>
    simp only [Except.ok.injEq] at h
    subst h
    exact length_of_trim hr
  · simp at h
  · simp at h

-- ============================================================= words

/-- Reads what is left of a word. -/
def word : Text → Text → Except Fault Text
  | [], t => .ok t
  | _ :: _, [] => .error .ended
  | w :: ws, c :: t => if c = w then word ws t else .error .malformed

theorem length_word {w t rest : Text} (h : word w t = .ok rest) : rest.length ≤ t.length := by
  fun_induction word w t with
  | case1 t =>
    simp only [Except.ok.injEq] at h
    subst h
    exact Nat.le_refl _
  | case2 => simp at h
  | case3 ws c t ih => exact Nat.le_succ_of_le (ih h)
  | case4 => simp at h

/-- What follows the first letter of `null`. -/
def nullTail : Text := "ull".toList

/-- What follows the first letter of `true`. -/
def trueTail : Text := "rue".toList

/-- What follows the first letter of `false`. -/
def falseTail : Text := "alse".toList

-- ======================================================= wrong types

/-- Refuses a value that has been read. -/
def refuse {α : Type} (wanted : Wanted) (name : α → Found) : Except Fault α → Fault
  | .ok a => .refused (.wrongType (name a) wanted)
  | .error fault => fault

/-- The fault of a document that goes on with a value of the wrong type. -/
def wrongType (wanted : Wanted) (t : Text) : Fault :=
  match t with
  | [] => .ended
  | 'n' :: r => refuse wanted (fun _ => .null) (word nullTail r)
  | 't' :: r => refuse wanted (fun _ => .boolean true) (word trueTail r)
  | 'f' :: r => refuse wanted (fun _ => .boolean false) (word falseTail r)
  | '-' :: r => refuse wanted (fun x => .number x.1) (number true r)
  | '"' :: r => refuse wanted (fun x => .text x.1) (string r)
  | '[' :: _ => .refused (.wrongType .sequence wanted)
  | '\x7b' :: _ => .refused (.wrongType .map wanted)
  | c :: _ =>
    if isDigit c then refuse wanted (fun x => .number x.1) (number false t) else .malformed

-- ======================================================= right types

/-- Reads a text. -/
def text (wanted : Wanted) (t : Text) : Read Text :=
  match trim t with
  | '"' :: r => string r
  | r => .error (wrongType wanted r)

theorem length_text {wanted : Wanted} {t rest s : Text} (h : text wanted t = .ok (s, rest)) :
    rest.length < t.length := by
  unfold text at h
  split at h
  · next r hr => exact Nat.lt_trans (length_string h) (length_of_trim hr)
  · simp at h

/-- Reads the elements of a sequence of texts, of which there is at least one. -/
def elements (t : Text) : Read (List Text) :=
  match _h : text .text t with
  | .error fault => .error fault
  | .ok (s, rest) =>
    match _hr : trim rest with
    | [] => .error .ended
    | ']' :: r => .ok ([s], r)
    | ',' :: r =>
      match elements r with
      | .error fault => .error fault
      | .ok (ss, r) => .ok (s :: ss, r)
    | _ => .error .malformed
termination_by t.length
decreasing_by
  exact Nat.lt_trans (length_of_trim ‹_›) (length_text ‹_›)

/-- Reads a sequence of texts. -/
def texts (t : Text) : Read (List Text) :=
  match trim t with
  | '[' :: r =>
    match trim r with
    | ']' :: r => .ok ([], r)
    | _ => elements r
  | r => .error (wrongType .sequence r)

theorem length_elements {t rest : Text} {ss : List Text} (h : elements t = .ok (ss, rest)) :
    rest.length < t.length := by
  fun_induction elements t generalizing ss with
  | case1 | case2 | case4 | case6 => simp at h
  | case3 t s r hs u hu =>
    simp only [Except.ok.injEq, Prod.mk.injEq] at h
    obtain ⟨-, rfl⟩ := h
    exact Nat.lt_trans (length_of_trim hu) (length_text hs)
  | case5 t s r hs u hu ss' r' hrec ih =>
    simp only [Except.ok.injEq, Prod.mk.injEq] at h
    obtain ⟨-, rfl⟩ := h
    exact Nat.lt_trans (ih hrec) (Nat.lt_trans (length_of_trim hu) (length_text hs))

theorem length_texts {t rest : Text} {ss : List Text} (h : texts t = .ok (ss, rest)) :
    rest.length < t.length := by
  unfold texts at h
  split at h
  · next r hr =>
    split at h
    · next u hu =>
      simp only [Except.ok.injEq, Prod.mk.injEq] at h
      obtain ⟨-, rfl⟩ := h
      exact Nat.lt_trans (length_of_trim hu) (length_of_trim hr)
    · exact Nat.lt_trans (length_elements h) (length_of_trim hr)
  · simp at h

/-- Takes a number that has been read for a width. -/
def widthOf : Read Number → Read (Option UInt64)
  | .ok (.natural n, r) => .ok (some (UInt64.ofNat n), r)
  | .ok (.negative n, _) => .error (.refused (.outOfRange (.number (.negative n)) .width))
  | .ok (.real b x, _) => .error (.refused (.wrongType (.number (.real b x)) .width))
  | .error fault => .error fault

/-- Reads a width, or nothing. -/
def width (t : Text) : Read (Option UInt64) :=
  match trim t with
  | [] => .error .ended
  | 'n' :: r =>
    match word nullTail r with
    | .ok r => .ok (none, r)
    | .error fault => .error fault
  | '-' :: r => widthOf (number true r)
  | c :: r =>
    if isDigit c then widthOf (number false (c :: r)) else .error (wrongType .width (c :: r))

theorem length_widthOf {x : Read Number} {w : Option UInt64} {rest : Text}
    (h : widthOf x = .ok (w, rest)) : ∃ n, x = .ok (n, rest) := by
  unfold widthOf at h
  split at h
  · simp only [Except.ok.injEq, Prod.mk.injEq] at h
    obtain ⟨-, rfl⟩ := h
    exact ⟨_, rfl⟩
  all_goals simp at h

theorem length_width {t rest : Text} {w : Option UInt64} (h : width t = .ok (w, rest)) :
    rest.length ≤ t.length := by
  unfold width at h
  have ht := length_trim t
  split at h
  · simp at h
  · next r hr =>
    rw [hr, List.length_cons] at ht
    split at h
    · next u hu =>
      simp only [Except.ok.injEq, Prod.mk.injEq] at h
      obtain ⟨-, rfl⟩ := h
      have := length_word hu
      omega
    · simp at h
  · next r hr =>
    rw [hr, List.length_cons] at ht
    obtain ⟨n, hn⟩ := length_widthOf h
    have := length_number hn
    omega
  · next c r _ _ hr =>
    rw [hr] at ht
    split at h
    · obtain ⟨n, hn⟩ := length_widthOf h
      have := length_number hn
      omega
    · simp at h

end CryptolEdit.Json
