import CryptolEdit.Proofs.Token.Part

/-!
How far lexing looks ahead.

# One character

A lexeme is as long as it can be, so more text after it might make it longer. It does
not if some text stands after it already, because no rule gets from one length to the
next by a leap: blanks, words and comments grow character by character, a keyword is a
word all along, and no symbol has more than two characters. So if two characters or
more begin a spelled text, they are spelled themselves (`Spells.of_isPrefix`), and a
lexeme that could end beyond the next character could also end right after it. The
next character decides (`Munches.of_next`).

# More text

All lexemes but the last have a next character, and keep it when text is added at the
end. Only the last has to be scanned again, together with what was added
(`scan_append`).
-/

namespace CryptolEdit

namespace Mode

variable {m : Mode}

-- ======================================================= one character

/-- The longest symbols are the arrows. -/
theorem length_le_two_of_symbol (m : Mode) :
    ∀ entry ∈ m.literals, ∀ w ∈ entry.2, m.isSymbol w = true → w.length ≤ 2 := by
  cases m <;> decide +kernel

/-- Every beginning of a word is a word, unless it is empty. -/
theorem Spells.word_of_isPrefix {w x : Text} (h : m.Spells .word w) (hx : x <+: w)
    (hne : x ≠ []) : m.Spells .word x := by
  obtain ⟨d, x, rfl⟩ := List.exists_cons_of_ne_nil hne
  cases h with
  | word hc hw =>
      obtain ⟨rfl, hrest⟩ := List.cons_prefix_cons.mp hx
      exact .word hc fun e he => hw e (hrest.subset he)

/-- What begins a spelled text with two characters or more is spelled too, be it as another
kind. One character is not enough: an arrow begins with a stray one. -/
theorem Spells.of_isPrefix {kind : Kind} {w x : Text} (h : m.Spells kind w) (hx : x <+: w)
    (hlength : 2 ≤ x.length) : ∃ kind', m.Spells kind' x := by
  have hne : x ≠ [] := List.ne_nil_of_length_pos (by omega)
  cases h with
  | blank hne' hw => exact ⟨.blank, .blank hne fun c hc => hw c (hx.subset hc)⟩
  | word hc hw => exact ⟨.word, (Spells.word hc hw).word_of_isPrefix hx hne⟩
  | comment hm hw =>
      obtain ⟨c, x, rfl⟩ := List.exists_cons_of_ne_nil hne
      obtain ⟨rfl, hrest⟩ := List.cons_prefix_cons.mp hx
      exact ⟨.comment, .comment hm fun hmem => hw (hrest.subset hmem)⟩
  | @literal category table w htable hw =>
      obtain ⟨hword, hsymbol⟩ := literals_isKeyword m _ htable _ hw
      cases hkeyword : category.isKeyword with
      | true =>
          have hspelled := spells_word_iff_isWord.mpr (hword.trans hkeyword)
          exact ⟨.word, hspelled.word_of_isPrefix hx hne⟩
      | false =>
          rw [hkeyword] at hsymbol
          have hle := length_le_two_of_symbol m _ htable _ hw hsymbol
          obtain rfl : x = w := hx.eq_of_length (Nat.le_antisymm hx.length_le (by omega))
          exact ⟨.literal category, .literal htable hw⟩

/-- The character after a lexeme decides that it ends there, whatever comes later. -/
theorem Munches.of_next {l : Lexeme} {c : Char} {rest : Text}
    (h : m.Munches (l.text ++ c :: rest) l) (rest' : Text) :
    m.Munches (l.text ++ c :: rest') l := by
  refine h.of_spelled fun kind w hw hspelled => ?_
  obtain ⟨tail, htail⟩ := hw
  rcases append_seam htail.symm with ⟨d, x, rfl, hx⟩ | ⟨inner, htext, -⟩
  · -- then the lexeme could have gone on over the next character
    obtain ⟨rfl, -⟩ := List.cons_prefix_cons.mp hx
    have hpos := List.length_pos_of_ne_nil h.text_ne_nil
    have hnext : l.text ++ [d] <+: l.text ++ d :: x :=
      (List.prefix_append_right_inj _).mpr (List.prefix_append [d] x)
    obtain ⟨kind', hspelled'⟩ := hspelled.of_isPrefix hnext (by
      rw [List.length_append, List.length_singleton]
      omega)
    have hle := h.longest kind' _ ((List.prefix_append_right_inj _).mpr
      (List.prefix_append [d] rest)) hspelled'
    rw [List.length_append, List.length_singleton] at hle
    omega
  · exact (List.prefix_append w inner).trans (htext ▸ List.prefix_append _ _)

-- =========================================================== more text

/-- A lexeme that ends before the text does is not changed by more text. -/
theorem Munches.append {l : Lexeme} {rest : Text} (h : m.Munches (l.text ++ rest) l)
    (hne : rest ≠ []) (more : Text) : m.Munches (l.text ++ (rest ++ more)) l := by
  obtain ⟨c, rest, rfl⟩ := List.exists_cons_of_ne_nil hne
  exact h.of_next (rest ++ more)

/-- Every lexeme before the last has a next character. -/
theorem munched_append {ls : List Lexeme} {last : Lexeme} (h : m.Munched (ls ++ [last]))
    (more : Text) : m.Munched (ls ++ Lexeme.scan m.rules (last.text ++ more)) := by
  obtain ⟨hspelling, hmunched⟩ := m.munched_scan (last.text ++ more)
  have hlast : last.text ≠ [] := (h ls last [] rfl).text_ne_nil
  induction ls with
  | nil => exact hmunched
  | cons l ls ih =>
      rw [List.cons_append, munched_cons, List.flatMap_append] at h ⊢
      obtain ⟨hfirst, hrest⟩ := h
      rw [List.flatMap_singleton] at hfirst
      rw [hspelling, ← List.append_assoc (ls.flatMap Lexeme.text)]
      exact ⟨hfirst.append (List.append_ne_nil_of_right_ne_nil _ hlast) more, ih hrest⟩

/-- Only the last lexeme is scanned again when text is added at the end. -/
theorem scan_append {t : Text} {ls : List Lexeme} {last : Lexeme}
    (h : Lexeme.scan m.rules t = ls ++ [last]) (more : Text) :
    Lexeme.scan m.rules (t ++ more) = ls ++ Lexeme.scan m.rules (last.text ++ more) := by
  obtain ⟨hspelling, hmunched⟩ := scan_eq_iff.mp h
  refine scan_eq_iff.mpr ⟨?_, munched_append hmunched more⟩
  rw [← hspelling, List.flatMap_append, List.flatMap_append, List.flatMap_singleton,
    (m.munched_scan _).1, List.append_assoc]

end Mode

-- ============================================================== tokens

/-- Text that is added at the end disturbs the last token only: all the others are still
tokens, at the same places of the text and of the list. -/
theorem Token.ofText_append_keeps (m : Mode) (a b : Text) :
    (ofText m a).dropLast <+: ofText m (a ++ b) := by
  unfold ofText
  rcases List.eq_nil_or_concat' (Lexeme.scan m.rules a) with hnone | ⟨ls, last, hscan⟩
  · rw [hnone]
    exact List.nil_prefix
  · have hlast : Text.place Lexeme.text 0 (ls ++ [last])
        = Text.place Lexeme.text 0 ls ++ [⟨0 + Text.size (ls.flatMap Lexeme.text), last⟩] :=
      Text.place_append _ 0 ls [last]
    rw [Mode.scan_append hscan b, hscan, hlast, List.dropLast_concat, Text.place_append]
    exact List.prefix_append _ _

/-- The last token may change: a stray character becomes the beginning of an arrow. -/
example : Token.ofText .source "=".toList = [⟨0, ⟨.stray, "=".toList⟩⟩]
    ∧ Token.ofText .source "=>".toList = [⟨0, ⟨.literal .operatorSymbol, "=>".toList⟩⟩] := by
  decide +kernel

end CryptolEdit
