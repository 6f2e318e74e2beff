import CryptolEdit.Json.Value
import CryptolEdit.Proofs.Json.Number
import CryptolEdit.Proofs.Json.Quoted

/-!
Strings, sequences of strings and widths are read as they were written.

Every reader takes its value off the front of a document and leaves the rest, so the facts
here are about a written value with anything behind it; only a number needs to know that
what is behind does not belong to it. A sequence is read element by element, and what
stands after an element decides how it goes on: the bracket ends it (`elements_close`), a
comma begins the next one (`elements_comma`).
-/

namespace CryptolEdit

/-- The first of several joined texts, its separator, and what comes after. -/
theorem Text.join_append (separator : Char) (t u : Text) (ts : List Text) (rest : Text) :
    join [separator] (t :: u :: ts) ++ rest
      = t ++ separator :: (join [separator] (u :: ts) ++ rest) := by
  simp [join]

/-- The first character of joined texts is that of the first. -/
theorem Text.join_cons_append (separator c : Char) (t : Text) (ts : List Text) (rest : Text) :
    join [separator] ((c :: t) :: ts) ++ rest = c :: (join [separator] (t :: ts) ++ rest) := by
  cases ts <;> simp [join]

namespace Json

open Decimal (isDigit digits isDigit_of_mem_digits digits_ne_nil)

-- ============================================================= strings

/-- Nothing is trimmed off a document that does not begin with a blank. -/
theorem trim_cons {c : Char} (h : isSpace c = false) (t : Text) : trim (c :: t) = c :: t := by
  simp [trim, h]

theorem text_string {t r : Text} (h : trim t = '"' :: r) (wanted : Wanted) :
    text wanted t = string r := by
  simp only [text, h]

theorem quoted_append (s rest : Text) :
    quoted s ++ rest = '"' :: (s.flatMap escaped ++ '"' :: rest) := by
  simp [quoted]

/-- A quoted text is read back, whatever was wanted there. -/
theorem text_quoted (wanted : Wanted) (s rest : Text) :
    text wanted (quoted s ++ rest) = .ok (s, rest) := by
  rw [quoted_append, text_string (trim_cons rfl _), string_quoted]

-- =========================================================== sequences

/-- The closing bracket behind an element ends the list. -/
theorem elements_close {t u r s : Text} (hs : text .text t = .ok (s, u))
    (hu : trim u = ']' :: r) : elements t = .ok ([s], r) := by
  rw [elements]
  grind

/-- A comma behind an element leads to the rest of the list. -/
theorem elements_comma {t u r s : Text} (hs : text .text t = .ok (s, u))
    (hu : trim u = ',' :: r) :
    elements t = (elements r).map fun (ss, rest) => (s :: ss, rest) := by
  rw [elements]
  grind [Except.map]

/-- Strings with commas between them are read up to the bracket that ends them. -/
theorem elements_join (s : Text) (ss : List Text) (rest : Text) :
    elements (Text.join [','] ((s :: ss).map quoted) ++ ']' :: rest) = .ok (s :: ss, rest) := by
  induction ss generalizing s with
  | nil =>
      rw [List.map_cons, List.map_nil, Text.join]
      exact elements_close (text_quoted _ s _) (trim_cons rfl rest)
  | cons s' ss ih =>
      rw [List.map_cons, List.map_cons, Text.join_append, ← List.map_cons,
        elements_comma (text_quoted _ s _) (trim_cons rfl _), ih s']
      rfl

/-- A list that is not closed at once has elements. -/
theorem texts_elements {t r u : Text} {c : Char} (ht : trim t = '[' :: r) (hr : trim r = c :: u)
    (hc : c ≠ ']') : texts t = elements r := by
  unfold texts
  grind

/-- Strings with commas between them, in brackets, are read as a sequence. -/
theorem texts_join (ss : List Text) (rest : Text) :
    texts ('[' :: (Text.join [','] (ss.map quoted) ++ ']' :: rest)) = .ok (ss, rest) := by
  cases ss with
  | nil => rfl
  | cons s ss =>
      have hquote : Text.join [','] ((s :: ss).map quoted) ++ ']' :: rest = '"' :: _ :=
        Text.join_cons_append ',' '"' (s.flatMap escaped ++ ['"']) (ss.map quoted) (']' :: rest)
      have htrim := (congrArg trim hquote).trans (trim_cons rfl _)
      rw [texts_elements (trim_cons rfl _) htrim (by decide), elements_join]

-- ============================================================== widths

theorem width_null (rest : Text) : width ("null".toList ++ rest) = .ok (none, rest) := by
  rfl

theorem isSpace_of_isDigit {c : Char} (h : isDigit c = true) : isSpace c = false := by
  simp only [isSpace, Bool.or_eq_false_iff, beq_eq_false_iff_ne]
  refine ⟨⟨⟨?_, ?_⟩, ?_⟩, ?_⟩ <;> rintro rfl <;> cases h

/-- A width is read back from its digits. -/
theorem width_digits (w : UInt64) {rest : Text} (hrest : EndsNumber rest) :
    width (digits w.toNat ++ rest) = .ok (some w, rest) := by
  have hw : w.toNat < wordLimit := w.toNat_lt
  have hnumber := number_digits hw hrest
  obtain ⟨c, ds, hdigits⟩ := List.exists_cons_of_ne_nil (digits_ne_nil w.toNat)
  have hc : isDigit c = true :=
    isDigit_of_mem_digits (n := w.toNat) (by rw [hdigits]; exact List.mem_cons_self)
  rw [hdigits, List.cons_append] at hnumber ⊢
  rw [width, trim_cons (isSpace_of_isDigit hc)]
  split
  · next h => cases h
  · next h =>
      cases h
      cases hc
  · next h =>
      cases h
      cases hc
  · next h =>
      cases h
      rw [if_pos hc, hnumber]
      show Except.ok (some (UInt64.ofNat w.toNat), rest) = Except.ok (some w, rest)
      rw [UInt64.ofNat_toNat]

end Json

end CryptolEdit
