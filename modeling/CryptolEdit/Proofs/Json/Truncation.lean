import CryptolEdit.Proofs.Json.Value
import Mathlib.Data.List.Infix

/-!
Values that break off.

A written value may be cut anywhere: inside an escape, inside the digits of one, in a word,
between two elements. A reader that is given what stands before the cut asks for more, and
reports no other fault. For strings this goes character by character, and a sequence is cut
in one of its elements or between two of them.

Numbers are the exception, since nothing but what follows tells that a number is complete:
every beginning of a number is a number (`exists_digits_of_prefix`). It is read, and nothing
is left of the document (`width_of_prefix`); that something is missing is for the next
reader to find.
-/

namespace CryptolEdit

-- ================================================================ cuts

namespace Text

/-- A text that another one begins with, and that is not all of it. -/
def Cut (p t : Text) : Prop := p <+: t ∧ p ≠ t

theorem not_cut_nil (p : Text) : ¬Cut p [] := fun h => h.2 (List.prefix_nil.mp h.1)

/-- A cut is before the first character or somewhere behind it. -/
theorem Cut.cons_cases {c : Char} {p t : Text} (h : Cut p (c :: t)) :
    p = [] ∨ ∃ q, Cut q t ∧ p = c :: q := by
  obtain ⟨hbegins, hne⟩ := h
  rcases List.prefix_cons_iff.mp hbegins with rfl | ⟨q, rfl, hq⟩
  · exact Or.inl rfl
  · exact Or.inr ⟨q, ⟨hq, fun heq => hne (by rw [heq])⟩, rfl⟩

/-- A cut through two texts is in the first, or behind it. -/
theorem Cut.append_cases {p t u : Text} (h : Cut p (t ++ u)) :
    Cut p t ∨ ∃ q, Cut q u ∧ p = t ++ q := by
  obtain ⟨hbegins, hne⟩ := h
  rcases List.prefix_or_prefix_of_prefix hbegins (List.prefix_append t u) with hp | ⟨q, rfl⟩
  · by_cases heq : p = t
    · refine Or.inr ⟨[], ⟨List.nil_prefix, ?_⟩, by rw [heq, List.append_nil]⟩
      rintro rfl
      exact hne (by rw [heq, List.append_nil])
    · exact Or.inl ⟨hp, heq⟩
  · refine Or.inr ⟨q, ⟨(List.prefix_append_right_inj t).mp hbegins, ?_⟩, rfl⟩
    rintro rfl
    exact hne rfl

theorem Cut.singleton {c : Char} {p : Text} (h : Cut p [c]) : p = [] := by
  rcases h.cons_cases with rfl | ⟨q, hq, -⟩
  · rfl
  · exact absurd hq (not_cut_nil q)

end Text

namespace Json

open Text (Cut)

-- ============================================================= strings

/-- A unit that breaks off is not taken for one that is badly written. -/
theorem hexUnit_cut {n : Nat} (hn : n < 32) {p : Text}
    (h : Cut p ['0', '0', hexDigit (n / 16), hexDigit (n % 16)]) : hexUnit p = .error .ended := by
  rcases h.cons_cases with rfl | ⟨q, hq, rfl⟩
  · rfl
  rcases hq.cons_cases with rfl | ⟨r, hr, rfl⟩
  · rfl
  rcases hr.cons_cases with rfl | ⟨u, hu, rfl⟩
  · rfl
  rw [hu.singleton]
  -- with three digits the size counts, and they take one byte each
  have hbyte : ∀ k < 2, (hexDigit k).utf8Size = 1 := by decide
  have hsize : Text.size ['0', '0', hexDigit (n / 16)] < 4 := by
    rw [Text.size_cons, Text.size_cons, Text.size_cons, hbyte (n / 16) (by omega)]
    decide
  exact if_pos hsize

theorem string_nil : string [] = .error .ended := by
  rw [string]

/-- A string ends too early where an escape in it does. -/
theorem string_escape_ended {t : Text} (h : escape t = .error .ended) :
    string ('\\' :: t) = .error .ended := by
  rw [string, if_neg (by decide), if_pos rfl]
  grind

/-- A string that breaks off in a character has no end. -/
theorem string_cut_escaped {c : Char} {p : Text} (h : Cut p (escaped c)) :
    string p = .error .ended := by
  unfold escaped at h
  cases hshort : shortEscape? c with
  | some letter =>
      simp only [hshort] at h
      rcases h.cons_cases with rfl | ⟨q, hq, rfl⟩
      · exact string_nil
      · rw [hq.singleton]
        exact string_escape_ended rfl
  | none =>
      by_cases hcontrol : c < ' '
      · simp only [hshort, hcontrol, if_true] at h
        rcases h.cons_cases with rfl | ⟨q, hq, rfl⟩
        · exact string_nil
        refine string_escape_ended ?_
        rcases hq.cons_cases with rfl | ⟨r, hr, rfl⟩
        · rfl
        · simp only [escape, hexUnit_cut hcontrol hr]
      · simp only [hshort, hcontrol, if_false] at h
        rw [h.singleton]
        exact string_nil

/-- A string that breaks off before its last quote has no end. -/
theorem string_cut {s p : Text} (h : Cut p (s.flatMap escaped ++ ['"'])) :
    string p = .error .ended := by
  induction s generalizing p with
  | nil =>
      rw [h.singleton]
      exact string_nil
  | cons c s ih =>
      rw [List.flatMap_cons, List.append_assoc] at h
      rcases h.append_cases with hp | ⟨q, hq, rfl⟩
      · exact string_cut_escaped hp
      · rw [string_escaped, ih hq]
        rfl

/-- A string that is cut short ends too early, whatever was wanted there. -/
theorem text_cut (wanted : Wanted) {s p : Text} (h : Cut p (quoted s)) :
    text wanted p = .error .ended := by
  rcases Text.Cut.cons_cases (show Cut p ('"' :: (s.flatMap escaped ++ ['"'])) from h)
    with rfl | ⟨q, hq, rfl⟩
  · rfl
  · rw [text_string (trim_cons rfl q), string_cut hq]

-- =========================================================== sequences

theorem elements_error {t : Text} {fault : Fault} (h : text .text t = .error fault) :
    elements t = .error fault := by
  rw [elements]
  grind

/-- A list ends too early behind an element that nothing follows. -/
theorem elements_ended {s t rest : Text} (h : text .text t = .ok (s, rest))
    (hrest : trim rest = []) : elements t = .error .ended := by
  rw [elements]
  grind

/-- Elements that break off before the bracket that ends them have no end. -/
theorem elements_cut {s p : Text} {ss : List Text}
    (h : Cut p (Text.join [','] ((s :: ss).map quoted) ++ [']'])) :
    elements p = .error .ended := by
  induction ss generalizing s p with
  | nil =>
      rcases h.append_cases with hp | ⟨q, hq, rfl⟩
      · exact elements_error (text_cut .text hp)
      · rw [hq.singleton]
        exact elements_ended (text_quoted .text s []) rfl
  | cons s' ss ih =>
      rw [List.map_cons, List.map_cons, Text.join_append] at h
      rcases h.append_cases with hp | ⟨q, hq, rfl⟩
      · exact elements_error (text_cut .text hp)
      rcases hq.cons_cases with rfl | ⟨r, hr, rfl⟩
      · exact elements_ended (text_quoted .text s []) rfl
      · rw [elements_comma (text_quoted _ s _) (trim_cons rfl r), ih hr]
        rfl

/-- A list of strings that is cut short ends too early. -/
theorem texts_cut {ss : List Text} {p : Text}
    (h : Cut p ('[' :: (Text.join [','] (ss.map quoted) ++ [']']))) :
    texts p = .error .ended := by
  have hnil : texts ['['] = .error .ended := elements_error rfl
  rcases h.cons_cases with rfl | ⟨q, hq, rfl⟩
  · rfl
  cases ss with
  | nil =>
      rw [Text.Cut.singleton hq]
      exact hnil
  | cons s ss =>
      have helements := elements_cut hq
      -- what stands behind the bracket is nothing, or begins with a quote
      have hquote : Text.join [','] ((s :: ss).map quoted) ++ [']'] = '"' :: _ :=
        Text.join_cons_append ',' '"' (s.flatMap escaped ++ ['"']) (ss.map quoted) [']']
      rw [hquote] at hq
      rcases hq.cons_cases with rfl | ⟨r, -, rfl⟩
      · exact hnil
      · exact (texts_elements (trim_cons rfl _) (trim_cons rfl r) (by decide)).trans helements

-- ============================================================== widths

/-- A word that breaks off is not taken for another word. -/
theorem word_cut {w p : Text} (h : Cut p w) : word w p = .error .ended := by
  induction w generalizing p with
  | nil => exact absurd h (Text.not_cut_nil p)
  | cons c w ih =>
      rcases h.cons_cases with rfl | ⟨q, hq, rfl⟩
      · rfl
      · rw [word, if_pos rfl, ih hq]

theorem width_cut_null {p : Text} (h : Cut p "null".toList) : width p = .error .ended := by
  rcases Text.Cut.cons_cases (show Cut p ('n' :: nullTail) from h) with rfl | ⟨q, hq, rfl⟩
  · rfl
  · simp only [width, trim_cons (show isSpace 'n' = false from rfl), word_cut hq]

theorem endsNumber_nil : EndsNumber [] := by
  rintro c ⟨⟩

end Json

/-- Every beginning of a number is a number, and no greater one. -/
theorem Decimal.exists_digits_of_prefix {n : Nat} {p : Text} (h : p <+: digits n) (hne : p ≠ []) :
    ∃ m ≤ n, p = digits m := by
  fun_induction digits n with
  | case1 n hlt =>
      have hdigits : digits n = [digit n] := by rw [digits, if_pos hlt]
      rcases List.prefix_cons_iff.mp h with rfl | ⟨q, rfl, hq⟩
      · exact absurd rfl hne
      · exact ⟨n, Nat.le_refl n, by rw [List.prefix_nil.mp hq, hdigits]⟩
  | case2 n hge ih =>
      have hdigits : digits n = digits (n / 10) ++ [digit n] := by
        rw [digits, if_neg hge]
      rcases List.prefix_concat_iff.mp h with rfl | hp
      · exact ⟨n, Nat.le_refl n, hdigits.symm⟩
      · obtain ⟨m, hm, rfl⟩ := ih hp
        exact ⟨m, Nat.le_trans hm (Nat.div_le_self n 10), rfl⟩

/-- A number that breaks off is read as the number before the cut. -/
theorem Json.width_of_prefix {w : UInt64} {p : Text} (h : p <+: Decimal.digits w.toNat)
    (hne : p ≠ []) : ∃ width', width p = .ok (width', []) := by
  obtain ⟨m, hm, rfl⟩ := Decimal.exists_digits_of_prefix h hne
  have hnat : (UInt64.ofNat m).toNat = m :=
    UInt64.toNat_ofNat_of_lt' (Nat.lt_of_le_of_lt hm w.toNat_lt)
  have hwidth := width_digits (UInt64.ofNat m) endsNumber_nil
  rw [hnat, List.append_nil] at hwidth
  exact ⟨_, hwidth⟩

end CryptolEdit
