import CryptolEdit.Proofs.Token.Munch

/-!
Where lexemes cannot reach.

# What a character begins

Blanks, words, comments and symbols are told apart by the character they begin
with (`Spells.shape`), and more than that: what begins with a blank is blank, what
begins with a character of words has no others, and the point of an arrow, which
is all that is left of a symbol once its first character is gone, begins nothing.
So what begins in the middle of a lexeme is much like the lexeme itself. Comments
are the exception, as they contain anything but a newline; but then nothing other
than blanks contains a newline.

# Confinement

`Confined m t rest` says of two texts side by side that blanks are all that can
be spelled from inside the first on into the second. Two facts supply it. A
lexeme is confined by what follows it, since it would have been longer otherwise
(`Munches.confined`); and everything is confined by a newline
(`confined_of_newline`). Part.lean draws the consequences for lexing.
-/

namespace CryptolEdit

namespace Mode

variable {m : Mode}

-- =============================================== what a character begins

/-- The characters that blanks are made of. -/
abbrev blanks : List Char := [' ', '\t', '\r', '\n']

/-- A text that is spelled as a word. -/
def isWord (m : Mode) : Text → Bool
  | [] => false
  | c :: w => Rule.beginsWord c && w.all m.continuesWord

/-- A character that is not blank and not in words. If it is not alone it has the
points of arrows after it, and these begin nothing themselves. -/
def isSymbol (m : Mode) : Text → Bool
  | [] => false
  | c :: w => !(blanks.contains c || m.continuesWord c || c == '>') && w.all (· == '>')

/-- Literals are words or symbols, as their category says. -/
theorem literals_isKeyword (m : Mode) :
    ∀ entry ∈ m.literals, ∀ w ∈ entry.2,
      m.isWord w = entry.1.isKeyword ∧ m.isSymbol w = !entry.1.isKeyword := by
  cases m <;> decide +kernel

theorem continuesWord_of_beginsWord (m : Mode) {c : Char} (h : Rule.beginsWord c = true) :
    m.continuesWord c = true := by
  cases m <;> simp [continuesWord, Rule.continuesBatchWord, Rule.continuesWord, h]

/-- No word goes on over a blank, a hash or a closing angle. -/
theorem not_continuesWord_of_mem (m : Mode) :
    ∀ c ∈ '#' :: '>' :: blanks, m.continuesWord c = false := by
  have hall : ('#' :: '>' :: blanks).all (fun c => !m.continuesWord c) = true := by
    cases m <;> decide
  simpa using hall

theorem notMem_of_continuesWord {c : Char} (h : m.continuesWord c = true) :
    c ∉ '#' :: '>' :: blanks := by
  intro hmem
  rw [not_continuesWord_of_mem m c hmem] at h
  cases h

/-- A word is spelled by what looks like one. -/
theorem spells_word_iff_isWord {w : Text} : m.Spells .word w ↔ m.isWord w = true := by
  cases w with
  | nil => exact iff_of_false (fun h => h.ne_nil rfl) Bool.false_ne_true
  | cons c w =>
      rw [isWord, Bool.and_eq_true, List.all_eq_true]
      constructor
      · intro h
        cases h with
        | word hc hw => exact ⟨hc, hw⟩
      · rintro ⟨hc, hw⟩
        exact .word hc hw

/-- Every character of a word continues a word. -/
theorem Spells.continuesWord_of_word {w : Text} (h : m.Spells .word w) :
    ∀ c ∈ w, m.continuesWord c = true := by
  cases h with
  | word hc hw =>
      exact List.forall_mem_cons.mpr ⟨continuesWord_of_beginsWord m hc, hw⟩

/-- A word with more characters of words after it is a word. -/
theorem Spells.word_append {w x : Text} (h : m.Spells .word w)
    (hx : ∀ c ∈ x, m.continuesWord c = true) : m.Spells .word (w ++ x) := by
  cases h with
  | word hc hw => exact .word hc (List.forall_mem_append.mpr ⟨hw, hx⟩)

/-- A comment goes on over all that is not a newline. -/
theorem Spells.comment_append {w x : Text} (h : m.Spells .comment w) (hx : '\n' ∉ x) :
    m.Spells .comment (w ++ x) := by
  cases h with
  | comment hm hw => exact .comment hm (List.not_mem_append hw hx)

/-- What is spelled is blank, a word, a comment or a symbol; literals are among
the words and the symbols. -/
theorem Spells.shape {kind : Kind} {w : Text} (h : m.Spells kind w) :
    (kind = .blank ∧ ∀ c ∈ w, c ∈ blanks) ∨ m.Spells .word w
      ∨ m.Spells .comment w ∨ m.isSymbol w = true := by
  cases h with
  | blank hne hw => exact .inl ⟨rfl, hw⟩
  | word hc hw => exact .inr (.inl (.word hc hw))
  | comment hm hw => exact .inr (.inr (.inl (.comment hm hw)))
  | @literal category table w htable hw =>
      obtain ⟨hword, hsymbol⟩ := literals_isKeyword m _ htable _ hw
      cases hkeyword : category.isKeyword with
      | true => exact .inr (.inl (spells_word_iff_isWord.mpr (hword.trans hkeyword)))
      | false =>
          rw [hkeyword] at hsymbol
          exact .inr (.inr (.inr hsymbol))

/-- A symbol goes on with closing angles only. -/
theorem isSymbol_cons {c : Char} {w : Text} (h : m.isSymbol (c :: w) = true) :
    c ∉ blanks ∧ m.continuesWord c = false ∧ c ≠ '>' ∧ ∀ d ∈ w, d = '>' := by
  simpa [isSymbol, and_assoc] using h

theorem Spells.mem_blanks {w : Text} (h : m.Spells .blank w) : ∀ c ∈ w, c ∈ blanks := by
  cases h with
  | blank hne hw => exact hw

/-- A comment ends before the newline. -/
theorem Spells.newline_notMem_of_comment {w : Text} (h : m.Spells .comment w) : '\n' ∉ w := by
  cases h with
  | comment hm hw =>
      rw [List.mem_cons, not_or]
      exact ⟨by decide, hw⟩

theorem Spells.head_of_comment {w : Text} (h : m.Spells .comment w) : w.head? = some '#' := by
  cases h with
  | comment hm hw => rfl

/-- Only blanks contain a newline. -/
theorem Spells.blank_of_newline {kind : Kind} {w : Text} (h : m.Spells kind w)
    (hmem : '\n' ∈ w) : kind = .blank := by
  rcases h.shape with ⟨hkind, -⟩ | hword | hcomment | hsymbol
  · exact hkind
  · have hnot := notMem_of_continuesWord (hword.continuesWord_of_word _ hmem)
    exact absurd (by decide) hnot
  · exact absurd hmem hcomment.newline_notMem_of_comment
  · cases w with
    | nil => cases hsymbol
    | cons c w =>
        obtain ⟨hc, -, -, hw⟩ := isSymbol_cons hsymbol
        rcases List.mem_cons.mp hmem with rfl | hmem
        · exact absurd (by decide) hc
        · exact absurd (hw _ hmem) (by decide)

/-- What begins with a blank is blank. -/
theorem Spells.blank_of_head {kind : Kind} {c : Char} {w : Text}
    (h : m.Spells kind (c :: w)) (hc : c ∈ blanks) :
    kind = .blank ∧ ∀ d ∈ c :: w, d ∈ blanks := by
  rcases h.shape with hblank | hword | hcomment | hsymbol
  · exact hblank
  · have hnot := notMem_of_continuesWord (hword.continuesWord_of_word c List.mem_cons_self)
    exact absurd (List.mem_cons_of_mem _ (List.mem_cons_of_mem _ hc)) hnot
  · cases hcomment.head_of_comment
    exact absurd hc (by decide)
  · exact absurd hc (isSymbol_cons hsymbol).1

/-- What is spelled with blanks in front is nothing but blanks. -/
theorem Spells.blank_of_append {kind : Kind} {w x : Text} (h : m.Spells kind (w ++ x))
    (hne : w ≠ []) (hw : ∀ c ∈ w, c ∈ blanks) :
    kind = .blank ∧ ∀ c ∈ w ++ x, c ∈ blanks := by
  obtain ⟨c, w, rfl⟩ := List.exists_cons_of_ne_nil hne
  exact h.blank_of_head (hw c List.mem_cons_self)

/-- What begins with a character of words is a word. -/
theorem Spells.word_of_head {kind : Kind} {c : Char} {w : Text}
    (h : m.Spells kind (c :: w)) (hc : m.continuesWord c = true) : m.Spells .word (c :: w) := by
  have hnot := notMem_of_continuesWord hc
  rcases h.shape with ⟨-, hblank⟩ | hword | hcomment | hsymbol
  · have hmem := List.mem_cons_of_mem '#' (List.mem_cons_of_mem '>' (hblank c List.mem_cons_self))
    exact absurd hmem hnot
  · exact hword
  · cases hcomment.head_of_comment
    exact absurd List.mem_cons_self hnot
  · rw [(isSymbol_cons hsymbol).2.1] at hc
    cases hc

/-- The point of an arrow begins nothing. -/
theorem not_spells_point {kind : Kind} {w : Text} : ¬m.Spells kind ('>' :: w) := by
  intro h
  rcases h.shape with ⟨-, hblank⟩ | hword | hcomment | hsymbol
  · exact absurd (hblank '>' List.mem_cons_self) (by decide)
  · have hnot := notMem_of_continuesWord (hword.continuesWord_of_word _ List.mem_cons_self)
    exact absurd (by decide) hnot
  · cases hcomment.head_of_comment
  · exact (isSymbol_cons hsymbol).2.2.1 rfl

-- ======================================================== confinement

/-- Whatever is spelled from inside `t` on into `rest` is blank. -/
def Confined (m : Mode) (t rest : Text) : Prop :=
  ∀ inner c x kind, inner <:+ t → inner ≠ [] → c :: x <+: rest →
    m.Spells kind (inner ++ c :: x) → kind = .blank

theorem Confined.of_suffix {t t' rest : Text} (h : m.Confined t rest) (hsuffix : t' <:+ t) :
    m.Confined t' rest :=
  fun inner c x kind hinner => h inner c x kind (hinner.trans hsuffix)

/-- A newline on either side of the seam confines everything, and so does an end
of the text. -/
theorem confined_of_newline {t rest : Text}
    (h : (∀ c ∈ t.getLast?, c = '\n') ∨ ∀ c ∈ rest.head?, c = '\n') : m.Confined t rest := by
  intro inner c x kind hinner hne hx hspelled
  refine hspelled.blank_of_newline ?_
  rcases h with hlast | hhead
  · obtain ⟨front, rfl⟩ := hinner
    have hnewline := hlast (inner.getLast hne) (by
      rw [List.getLast?_append_of_ne_nil _ hne, List.getLast?_eq_some_getLast hne]
      rfl)
    rw [← hnewline]
    exact List.mem_append_left _ (List.getLast_mem hne)
  · obtain ⟨rest, rfl⟩ := hx
    rw [← hhead c rfl]
    exact List.mem_append_right _ List.mem_cons_self

/-- A longest word is confined. -/
theorem confined_of_word {t rest : Text} (hword : m.Spells .word t)
    (hlongest : ∀ w, m.Spells .word w → w <+: t ++ rest → w.length ≤ t.length) :
    m.Confined t rest := by
  intro inner c x kind hinner hne hx hspelled
  have hchars : ∀ d ∈ inner ++ c :: x, m.continuesWord d = true := by
    obtain ⟨d, inner, rfl⟩ := List.exists_cons_of_ne_nil hne
    have hd := hword.continuesWord_of_word d (hinner.subset List.mem_cons_self)
    exact (hspelled.word_of_head hd).continuesWord_of_word
  -- then the word would go on as well
  have hlonger : m.Spells .word (t ++ c :: x) :=
    hword.word_append fun d hd => hchars d (List.mem_append_right _ hd)
  have hle := hlongest _ hlonger ((List.prefix_append_right_inj t).mpr hx)
  rw [List.length_append, List.length_cons] at hle
  omega

/-- A longest comment ends at a newline, or at the end. -/
theorem newline_of_head_after_comment {t rest : Text} (hcomment : m.Spells .comment t)
    (hlongest : ∀ w, m.Spells .comment w → w <+: t ++ rest → w.length ≤ t.length) :
    ∀ c ∈ rest.head?, c = '\n' := by
  intro c hc
  by_contra hne
  -- then the comment would go on
  obtain ⟨rest, rfl⟩ := List.head?_eq_some_iff.mp hc
  have hlonger := hcomment.comment_append fun hmem => hne (List.mem_singleton.mp hmem).symm
  have hle := hlongest _ hlonger ((List.prefix_append_right_inj t).mpr ⟨rest, rfl⟩)
  rw [List.length_append, List.length_singleton] at hle
  omega

/-- A longest symbol is confined. -/
theorem confined_of_symbol {t rest : Text} (hsymbol : m.isSymbol t = true)
    (hlongest : ∀ kind w, w <+: t ++ rest → m.Spells kind w → w.length ≤ t.length) :
    m.Confined t rest := by
  intro inner c x kind hinner hne hx hspelled
  exfalso
  cases t with
  | nil => cases hsymbol
  | cons d t =>
      rcases List.suffix_cons_iff.mp hinner with rfl | hinner
      · have hle := hlongest kind _ ((List.prefix_append_right_inj _).mpr hx) hspelled
        rw [List.length_append, List.length_cons (a := c)] at hle
        omega
      · obtain ⟨e, inner, rfl⟩ := List.exists_cons_of_ne_nil hne
        have he := (isSymbol_cons hsymbol).2.2.2 e (hinner.subset List.mem_cons_self)
        subst he
        exact not_spells_point hspelled

/-- A lexeme with a category is spelled, for strays have none. -/
theorem Munches.spelled_of_category {rest : Text} {l : Lexeme} (h : m.Munches rest l)
    (hcategory : l.kind.category?.isSome = true) : m.Spells l.kind l.text := by
  refine h.spelled fun hstray => ?_
  rw [hstray] at hcategory
  cases hcategory

/-- A lexeme with a category contains no newline. -/
theorem Munches.newline_notMem {rest : Text} {l : Lexeme} (h : m.Munches rest l)
    (hcategory : l.kind.category?.isSome = true) : '\n' ∉ l.text := by
  intro hmem
  rw [(h.spelled_of_category hcategory).blank_of_newline hmem] at hcategory
  cases hcategory

/-- A lexeme is confined by what follows it. -/
theorem Munches.confined {l : Lexeme} {rest : Text} (h : m.Munches (l.text ++ rest) l) :
    m.Confined l.text rest := by
  by_cases hstray : l.kind = .stray
  · -- nothing is spelled that begins with a stray character
    intro inner c x kind hinner hne hx hspelled
    have hlength : inner.length = l.text.length := by
      have hle := hinner.length_le
      have hpos := List.length_pos_of_ne_nil hne
      rw [h.stray_length hstray] at hle ⊢
      omega
    rw [hinner.eq_of_length hlength] at hspelled
    exact absurd hspelled (h.stray_iff.mp hstray kind _ hspelled.ne_nil
      ((List.prefix_append_right_inj _).mpr hx))
  · rcases (h.spelled hstray).shape with ⟨-, hblank⟩ | hword | hcomment | hsymbol
    · intro inner c x kind hinner hne hx hspelled
      exact (hspelled.blank_of_append hne fun d hd => hblank d (hinner.subset hd)).1
    · exact confined_of_word hword fun w hw hbegins => h.longest _ w hbegins hw
    · exact confined_of_newline (.inr (newline_of_head_after_comment hcomment
        fun w hw hbegins => h.longest _ w hbegins hw))
    · exact confined_of_symbol hsymbol h.longest

end Mode

end CryptolEdit
