import CryptolEdit.Proofs.Text.Run
import CryptolEdit.Proofs.Token.Part

/-!
Which parts of a text are marks, by what stands there and around it.

Lexemes are found from left to right, each where the one before it ends. For marks
this does not matter: `Stands` says in terms of places alone what has a mark, and
`mem_marks_iff_stands` that nothing else has.

# Seams

What could get in the way of a mark is a lexeme that begins before it and goes on
into it. Outside comments only words and arrows have more than one character that
is not blank, so a text is confined where a run of word characters begins or ends,
and where a symbol begins (`confined_of_seam`). It follows that a symbol has its
mark wherever it stands (`marks_symbol`), a comment wherever its sign stands
(`marks_comment`), and that a run is lexed as if it stood alone (`marks_around`).

# Runs

A run need not be a word. Apostrophes, and hyphens in a batch script, do not begin
one; those that a run begins with stand alone, and what is left of it is a word
(`mem_marks_run_iff`).
-/

namespace CryptolEdit.Mode

variable {m : Mode}

-- ========================================================= vocabulary

/-- Characters that words go on with but do not begin with. -/
def leads : Mode → Char → Bool
  | .source => fun c => c == '\''
  | .batch => fun c => c == '\'' || c == '-'

/-- A word goes on with a character that can begin one, or with one that only leads on. -/
theorem continuesWord_eq (m : Mode) (c : Char) :
    m.continuesWord c = (Rule.beginsWord c || m.leads c) := by
  cases m with
  | source => rfl
  | batch => exact Bool.or_assoc _ _ _

theorem not_beginsWord_of_leads {c : Char} (h : m.leads c = true) :
    Rule.beginsWord c = false := by
  cases m <;> simp [leads] at h
  · subst h
    decide
  · rcases h with rfl | rfl <;> decide

theorem continuesWord_of_leads {c : Char} (h : m.leads c = true) :
    m.continuesWord c = true := by
  rw [continuesWord_eq, h, Bool.or_true]

/-- No symbol begins another literal. -/
theorem length_le_of_literals (m : Mode) :
    ∀ entry ∈ m.literals, ∀ w ∈ entry.2, m.isSymbol w = true →
      ∀ entry' ∈ m.literals, ∀ x ∈ entry'.2, w <+: x → x.length ≤ w.length := by
  cases m <;> decide +kernel

/-- In a batch script the number sign is not part of a literal. -/
theorem sign_notMem_of_literals :
    ∀ entry ∈ batch.literals, ∀ w ∈ entry.2, '#' ∉ w := by
  decide +kernel

/-- Of the literals, the keywords are those that look like words. -/
theorem Spells.isWord_eq {category : Category} {w : Text}
    (h : m.Spells (.literal category) w) : m.isWord w = category.isKeyword := by
  cases h with
  | literal htable hw => exact (literals_isKeyword m _ htable _ hw).1

/-- The other literals look like symbols. -/
theorem Spells.isSymbol_of_literal {category : Category} {w : Text}
    (h : m.Spells (.literal category) w) (hsymbol : category.isKeyword = false) :
    m.isSymbol w = true := by
  cases h with
  | literal htable hw =>
      rw [(literals_isKeyword m _ htable _ hw).2, hsymbol]
      rfl

/-- Nothing is spelled that begins with one of the characters that lead a run. -/
theorem not_spells_of_leads {c : Char} (h : m.leads c = true) (kind : Kind) (w : Text) :
    ¬m.Spells kind (c :: w) := by
  intro hspelled
  cases hspelled.word_of_head (continuesWord_of_leads h) with
  | word hbegins hw =>
      rw [not_beginsWord_of_leads h] at hbegins
      cases hbegins

-- ============================================================== seams

/-- What follows is in no comment. There are none in source text. -/
def Uncommented (m : Mode) (before : Text) : Prop := m = .batch → before.Uncommented

/-- A text is confined at a seam that is neither inside a run of word characters
nor before the point of an arrow. -/
theorem confined_of_seam {t rest : Text} (ht : m.Uncommented t)
    (hseam : ∀ c ∈ t.getLast?, ∀ d ∈ rest.head?,
      (m.continuesWord c = true → m.continuesWord d = false)
        ∧ (m.continuesWord c = false → d ≠ '>')) : m.Confined t rest := by
  intro inner d x kind hinner hne hx hspelled
  obtain ⟨front, rfl⟩ := hinner
  obtain ⟨tail, rfl⟩ := hx
  have hlast : inner.getLast hne ∈ (front ++ inner).getLast? := by
    rw [List.getLast?_append_of_ne_nil _ hne, List.getLast?_eq_some_getLast hne]
    rfl
  obtain ⟨hword, hsymbol⟩ := hseam _ hlast d rfl
  have hd : d ∈ inner ++ d :: x := List.mem_append_right _ List.mem_cons_self
  rcases hspelled.shape with ⟨hblank, -⟩ | hshape | hshape | hshape
  · exact hblank
  · -- a word is of one class
    have hchars := hshape.continuesWord_of_word
    have hnot := hword (hchars _ (List.mem_append_left _ (List.getLast_mem hne)))
    rw [hchars d hd] at hnot
    cases hnot
  · -- a comment that begins in `t` has ended there
    obtain ⟨c, inner, rfl⟩ := List.exists_cons_of_ne_nil hne
    cases hshape.head_of_comment
    have hended := ht (spells_comment_iff.mp hshape).1 inner (List.suffix_append _ _)
    exact absurd (List.mem_append_left _ (List.mem_cons_of_mem _ hended))
      hshape.newline_notMem_of_comment
  · -- a symbol goes on with points only
    obtain ⟨c, inner, rfl⟩ := List.exists_cons_of_ne_nil hne
    obtain ⟨-, hc, -, hpoints⟩ := isSymbol_cons hshape
    have hnot : m.continuesWord ((c :: inner).getLast hne) = false := by
      rcases List.mem_cons.mp (List.getLast_mem hne) with heq | hmem
      · rw [heq]
        exact hc
      · rw [hpoints _ (List.mem_append_left _ hmem)]
        exact not_continuesWord_of_mem m '>' (by decide)
    exact absurd (hpoints d (List.mem_append_right _ List.mem_cons_self)) (hsymbol hnot)

/-- What is spelled at the start of a text is its first lexeme, if nothing longer
is spelled there. It is a literal if it can be. -/
theorem exists_marks_of_longest {kind : Kind} {w rest : Text} (hw : m.Spells kind w)
    (hlongest : ∀ kind' x, x <+: w ++ rest → m.Spells kind' x → x.length ≤ w.length) :
    ∃ kind', m.Spells kind' w
      ∧ (∀ category, m.Spells (.literal category) w → kind' = .literal category)
      ∧ ∀ base, m.marks base (w ++ rest)
          = Lexeme.marks base [⟨kind', w⟩] ++ m.marks (base + Text.size w) rest := by
  obtain ⟨⟨kind', text⟩, -, -, hmunches⟩ :=
    exists_munches (m := m) (t := w ++ rest) (List.append_ne_nil_of_left_ne_nil hw.ne_nil rest)
  have hbegins : w <+: w ++ rest := List.prefix_append _ _
  have hspelled : m.Spells kind' text :=
    hmunches.spelled fun hstray => hmunches.stray_iff.mp hstray kind w hw.ne_nil hbegins hw
  have hlength : text.length = w.length :=
    Nat.le_antisymm (hlongest _ _ hmunches.isPrefix hspelled) (hmunches.longest _ _ hbegins hw)
  obtain rfl : text = w :=
    (List.prefix_of_prefix_length_le hmunches.isPrefix hbegins (Nat.le_of_eq hlength)
      ).eq_of_length hlength
  exact ⟨kind', hspelled, hmunches.literal_first,
    fun base => marks_of_munches (l := ⟨kind', text⟩) base hmunches⟩

/-- A lexeme alone is a mark if it has a category. -/
theorem mem_marks_singleton_iff {base : Nat} {l : Lexeme} {token : Token} :
    token ∈ Lexeme.marks base [l]
      ↔ l.kind.category?.isSome = true ∧ token = ⟨base, l⟩ := by
  unfold Lexeme.marks Token.marks
  rw [List.mem_filter, Text.place, Text.place, List.mem_singleton]
  constructor
  · rintro ⟨rfl, hcategory⟩
    exact ⟨hcategory, rfl⟩
  · rintro ⟨hcategory, rfl⟩
    exact ⟨rfl, hcategory⟩

-- ============================================================ symbols

/-- Nothing longer than a symbol begins where it stands. -/
theorem length_le_of_symbol {category : Category} {kind : Kind} {w x rest : Text}
    (hw : m.Spells (.literal category) w) (hsymbol : m.isSymbol w = true)
    (hx : x <+: w ++ rest) (hspelled : m.Spells kind x) : x.length ≤ w.length := by
  by_contra hlt
  obtain ⟨tail, rfl⟩ : w <+: x :=
    List.prefix_of_prefix_length_le (List.prefix_append _ _) hx (Nat.le_of_not_le hlt)
  cases hw with
  | literal htable hmem =>
      have hsign := fun hm : m = .batch => sign_notMem_of_literals _ (hm ▸ htable) _ hmem
      obtain ⟨c, w, rfl⟩ := List.exists_cons_of_ne_nil (literals_ne_nil m _ htable _ hmem)
      obtain ⟨hblank, hword, -, -⟩ := isSymbol_cons hsymbol
      rw [List.cons_append] at hspelled
      cases hspelled with
      | blank hne hblanks => exact hblank (hblanks c List.mem_cons_self)
      | word hc hrest =>
          rw [continuesWord_of_beginsWord m hc] at hword
          cases hword
      | comment hm hrest => exact hsign hm List.mem_cons_self
      | literal htable' hmem' =>
          exact hlt (length_le_of_literals m _ htable _ hmem hsymbol _ htable' _ hmem'
            (List.prefix_append _ _))

/-- A symbol has its mark wherever it stands outside comments. -/
theorem marks_symbol (base : Nat) {category : Category} {before w after : Text}
    (hbefore : m.Uncommented before) (hw : m.Spells (.literal category) w)
    (hsymbol : category.isKeyword = false) :
    m.marks base (before ++ (w ++ after))
      = m.marks base before ++ ⟨base + Text.size before, ⟨.literal category, w⟩⟩
          :: m.marks (base + Text.size before + Text.size w) after := by
  have hshape := hw.isSymbol_of_literal hsymbol
  have hconfined : m.Confined before (w ++ after) := by
    refine confined_of_seam hbefore fun c hc d hd => ?_
    obtain ⟨e, w, rfl⟩ := List.exists_cons_of_ne_nil hw.ne_nil
    cases hd
    obtain ⟨-, hword, hpoint, -⟩ := isSymbol_cons hshape
    exact ⟨fun _ => hword, fun _ => hpoint⟩
  have hlongest : ∀ kind x, x <+: w ++ after → m.Spells kind x → x.length ≤ w.length :=
    fun kind x hx hspelled => length_le_of_symbol hw hshape hx hspelled
  obtain ⟨kind, -, hfirst, hmarks⟩ := exists_marks_of_longest hw hlongest
  cases hfirst category hw
  rw [marks_append base hconfined, hmarks]
  rfl

-- =========================================================== comments

/-- No comment is a literal. -/
theorem Spells.not_literal {w : Text} (h : m.Spells .comment w) (category : Category) :
    ¬m.Spells (.literal category) w := by
  intro hliteral
  obtain ⟨rfl, -⟩ := spells_comment_iff.mp h
  cases hliteral with
  | literal htable hmem =>
      exact sign_notMem_of_literals _ htable _ hmem (List.mem_of_head? h.head_of_comment)

/-- Nothing longer than a comment begins where it stands. -/
theorem length_le_of_comment {kind : Kind} {w x rest : Text} (hw : m.Spells .comment w)
    (hrest : ∀ c ∈ rest.head?, c = '\n') (hx : x <+: w ++ rest)
    (hspelled : m.Spells kind x) : x.length ≤ w.length := by
  by_contra hlt
  obtain ⟨tail, rfl⟩ : w <+: x :=
    List.prefix_of_prefix_length_le (List.prefix_append _ _) hx (Nat.le_of_not_le hlt)
  cases tail with
  | nil => exact hlt (by rw [List.append_nil])
  | cons c tail =>
      obtain ⟨rest, rfl⟩ := (List.prefix_append_right_inj w).mp hx
      have hc : c = '\n' := hrest c rfl
      subst hc
      have hkind := hspelled.blank_of_newline (List.mem_append_right _ List.mem_cons_self)
      rw [hkind] at hspelled
      obtain ⟨w, rfl⟩ := List.head?_eq_some_iff.mp hw.head_of_comment
      exact absurd (hspelled.mem_blanks '#' List.mem_cons_self) (by decide)

/-- A comment has its mark wherever its sign stands outside other comments. -/
theorem marks_comment (base : Nat) {before w after : Text} (hm : m = .batch)
    (hbefore : m.Uncommented before) (hw : '\n' ∉ w)
    (hafter : ∀ c ∈ after.head?, c = '\n') :
    m.marks base (before ++ ('#' :: w ++ after))
      = m.marks base before ++ ⟨base + Text.size before, ⟨.comment, '#' :: w⟩⟩
          :: m.marks (base + Text.size before + Text.size ('#' :: w)) after := by
  have hcomment : m.Spells .comment ('#' :: w) := .comment hm hw
  have hconfined : m.Confined before ('#' :: w ++ after) := by
    refine confined_of_seam hbefore fun c hc d hd => ?_
    cases hd
    exact ⟨fun _ => not_continuesWord_of_mem m '#' List.mem_cons_self, fun _ => by decide⟩
  have hlongest : ∀ kind x, x <+: '#' :: w ++ after → m.Spells kind x →
      x.length ≤ ('#' :: w).length :=
    fun kind x hx hspelled => length_le_of_comment hcomment hafter hx hspelled
  obtain ⟨kind, hspelled, -, hmarks⟩ := exists_marks_of_longest hcomment hlongest
  cases kind_unique hspelled hcomment hcomment.not_literal
  rw [marks_append base hconfined, hmarks]
  rfl

-- =============================================================== runs

/-- What leads a run stands alone. -/
theorem marks_leads (base : Nat) {lead : Text} (h : ∀ c ∈ lead, m.leads c = true)
    (rest : Text) : m.marks base (lead ++ rest) = m.marks (base + Text.size lead) rest := by
  induction lead generalizing base with
  | nil => rfl
  | cons c lead ih =>
      obtain ⟨hc, hlead⟩ := List.forall_mem_cons.mp h
      obtain ⟨l, tail, htext, hmunches⟩ :=
        exists_munches (m := m) (t := c :: (lead ++ rest)) (List.cons_ne_nil _ _)
      have hstray : l.kind = .stray := by
        refine hmunches.stray_iff.mpr fun kind w hne hw hspelled => ?_
        obtain ⟨d, w, rfl⟩ := List.exists_cons_of_ne_nil hne
        cases (List.cons_prefix_cons.mp hw).1
        exact not_spells_of_leads hc kind w hspelled
      obtain ⟨d, hd⟩ := List.length_eq_one_iff.mp (hmunches.stray_length hstray)
      rw [hd] at htext
      obtain ⟨rfl, rfl⟩ := List.cons.inj htext
      have hmunches' : m.Munches (l.text ++ (lead ++ rest)) l := by
        rw [hd]
        exact hmunches
      have hmarks := marks_of_munches base hmunches'
      rw [hd, Lexeme.marks_of_plain base (by rw [hstray]; rfl), List.nil_append,
        ih _ hlead] at hmarks
      rw [Text.size_cons, ← Nat.add_assoc]
      exact hmarks

/-- A word on its own has a mark if it is a keyword, and no mark otherwise. -/
theorem mem_marks_word_iff {base : Nat} {w : Text} {token : Token} (hw : m.Spells .word w) :
    token ∈ m.marks base w ↔ ∃ category, category.isKeyword = true
      ∧ m.Spells (.literal category) w ∧ token = ⟨base, ⟨.literal category, w⟩⟩ := by
  have hlongest : ∀ kind x, x <+: w ++ [] → m.Spells kind x → x.length ≤ w.length := by
    intro kind x hx _
    rw [List.append_nil] at hx
    exact hx.length_le
  obtain ⟨kind, hspelled, hfirst, hmarks⟩ := exists_marks_of_longest hw hlongest
  have hmarks := hmarks base
  rw [marks_nil, List.append_nil, List.append_nil] at hmarks
  rw [hmarks, mem_marks_singleton_iff]
  constructor
  · rintro ⟨hcategory, rfl⟩
    cases kind with
    | blank => cases hcategory
    | word => cases hcategory
    | stray => cases hcategory
    | comment =>
        have hsign := List.mem_of_head? hspelled.head_of_comment
        have hnot := notMem_of_continuesWord (hw.continuesWord_of_word '#' hsign)
        exact absurd List.mem_cons_self hnot
    | literal category =>
        refine ⟨category, ?_, hspelled, rfl⟩
        rw [← hspelled.isWord_eq]
        exact spells_word_iff_isWord.mp hw
  · rintro ⟨category, -, hliteral, rfl⟩
    rw [hfirst category hliteral]
    exact ⟨rfl, rfl⟩

/-- A run of word characters on its own is a word but for what leads it. -/
theorem mem_marks_run_iff {base : Nat} {run : Text} {token : Token}
    (hrun : ∀ c ∈ run, m.continuesWord c = true) :
    token ∈ m.marks base run ↔ ∃ category, category.isKeyword = true
      ∧ m.Spells (.literal category) (run.dropWhile m.leads)
      ∧ token = ⟨base + Text.size (run.takeWhile m.leads),
          ⟨.literal category, run.dropWhile m.leads⟩⟩ := by
  have hlead : ∀ c ∈ run.takeWhile m.leads, m.leads c = true :=
    List.all_eq_true.mp List.all_takeWhile
  have hmarks := marks_leads base hlead (run.dropWhile m.leads)
  rw [List.takeWhile_append_dropWhile] at hmarks
  rw [hmarks]
  cases hdrop : run.dropWhile m.leads with
  | nil =>
      rw [marks_nil]
      refine iff_of_false List.not_mem_nil ?_
      rintro ⟨category, -, hspelled, -⟩
      exact hspelled.ne_nil rfl
  | cons c w =>
      have hmem : ∀ d ∈ c :: w, m.continuesWord d = true := fun d hd =>
        hrun d ((List.dropWhile_suffix m.leads).subset (hdrop ▸ hd))
      have hbegins : Rule.beginsWord c = true := by
        have hnot := List.head?_dropWhile_not m.leads run
        rw [hdrop] at hnot
        have hc := hmem c List.mem_cons_self
        rw [continuesWord_eq, show m.leads c = false by simpa using hnot, Bool.or_false] at hc
        exact hc
      exact mem_marks_word_iff (.word hbegins (List.forall_mem_cons.mp hmem).2)

/-- A run is lexed as if it stood alone, and so is what stands on either side. -/
theorem marks_around (base : Nat) {before run after : Text} (hbefore : m.Uncommented before)
    (hne : run ≠ []) (hrun : ∀ c ∈ run, m.continuesWord c = true)
    (hlast : ∀ c ∈ before.getLast?, m.continuesWord c = false)
    (hhead : ∀ c ∈ after.head?, m.continuesWord c = false) :
    m.marks base (before ++ (run ++ after))
      = m.marks base before ++ (m.marks (base + Text.size before) run
          ++ m.marks (base + Text.size before + Text.size run) after) := by
  have hfront : m.Confined before (run ++ after) := by
    refine confined_of_seam hbefore fun c hc d hd => ?_
    obtain ⟨e, run, rfl⟩ := List.exists_cons_of_ne_nil hne
    cases hd
    refine ⟨fun h => ?_, fun _ heq => ?_⟩
    · rw [hlast c hc] at h
      cases h
    · have hnot := notMem_of_continuesWord (hrun d List.mem_cons_self)
      rw [heq] at hnot
      exact absurd (by decide) hnot
  have huncommented : m.Uncommented run := by
    intro _ w hsuffix
    have hnot := notMem_of_continuesWord (hrun '#' (hsuffix.subset List.mem_cons_self))
    exact absurd List.mem_cons_self hnot
  have hback : m.Confined run after := by
    refine confined_of_seam huncommented fun c hc d hd => ⟨fun _ => hhead d hd, fun h => ?_⟩
    rw [hrun c (List.mem_of_getLast? hc)] at h
    cases h
  rw [marks_append base hfront, marks_append _ hback]

-- ====================================================== what has marks

/-- What has a mark, by what stands there and around it. -/
inductive Stands (m : Mode) (t : Text) : Token → Prop
  | symbol {before w after : Text} {category : Category} (ht : t = before ++ (w ++ after))
      (hbefore : m.Uncommented before) (hw : m.Spells (.literal category) w)
      (hsymbol : category.isKeyword = false) :
      Stands m t ⟨Text.size before, ⟨.literal category, w⟩⟩
  | keyword {before run after : Text} {category : Category} (ht : t = before ++ (run ++ after))
      (hbefore : m.Uncommented before) (hrun : ∀ c ∈ run, m.continuesWord c = true)
      (hlast : ∀ c ∈ before.getLast?, m.continuesWord c = false)
      (hhead : ∀ c ∈ after.head?, m.continuesWord c = false)
      (hw : m.Spells (.literal category) (run.dropWhile m.leads))
      (hkeyword : category.isKeyword = true) :
      Stands m t ⟨Text.size before + Text.size (run.takeWhile m.leads),
        ⟨.literal category, run.dropWhile m.leads⟩⟩
  | comment {before w after : Text} (ht : t = before ++ ('#' :: w ++ after)) (hm : m = .batch)
      (hbefore : m.Uncommented before) (hw : '\n' ∉ w)
      (hhead : ∀ c ∈ after.head?, c = '\n') :
      Stands m t ⟨Text.size before, ⟨.comment, '#' :: w⟩⟩

/-- What stands in a text is marked there. -/
theorem mem_marks_of_stands {t : Text} {token : Token} (h : m.Stands t token) :
    token ∈ m.marks 0 t := by
  cases h with
  | symbol ht hbefore hw hsymbol =>
      rw [ht, marks_symbol 0 hbefore hw hsymbol, Nat.zero_add]
      exact List.mem_append_right _ List.mem_cons_self
  | @keyword before run after category ht hbefore hrun hlast hhead hw hkeyword =>
      have hne : run ≠ [] := fun hnil => hw.ne_nil (by rw [hnil]; rfl)
      rw [ht, marks_around 0 hbefore hne hrun hlast hhead, Nat.zero_add]
      refine List.mem_append_right _ (List.mem_append_left _ ?_)
      exact (mem_marks_run_iff hrun).mpr ⟨_, hkeyword, hw, rfl⟩
  | comment ht hm hbefore hw hhead =>
      rw [ht, marks_comment 0 hm hbefore hw hhead, Nat.zero_add]
      exact List.mem_append_right _ List.mem_cons_self

/-- A mark that begins between two parts is none of theirs. -/
theorem mem_of_mem_marks_append {base base' : Nat} {t t' : Text} {tokens : List Token}
    {token : Token} (h : token ∈ m.marks base t ++ (tokens ++ m.marks base' t'))
    (hfrom : base + Text.size t ≤ token.start) (hto : token.start < base') :
    token ∈ tokens := by
  rcases List.mem_append.mp h with hfront | hrest
  · obtain ⟨-, hlt, hle⟩ := lies_of_mem_marks hfront
    omega
  · rcases List.mem_append.mp hrest with hmem | hback
    · exact hmem
    · obtain ⟨hle, -, -⟩ := lies_of_mem_marks hback
      omega

/-- No mark begins inside a comment. -/
theorem uncommented_of_mem_marks {before w after : Text} {kind : Kind}
    (h : ⟨Text.size before, ⟨kind, w⟩⟩ ∈ m.marks 0 (before ++ (w ++ after)))
    (hne : w ≠ []) (hw : '\n' ∉ w) : m.Uncommented before := by
  intro hm
  by_contra hcommented
  obtain ⟨front, x, rfl, hfront, hx⟩ := Text.exists_comment_of_not_uncommented hcommented
  -- the comment goes on over the mark to the end of the line
  obtain ⟨y, rest, rfl, hy, hrest⟩ := Text.exists_run_append (· != '\n') after
  have hnewline : '\n' ∉ x ++ (w ++ y) := by
    simp only [List.mem_append, not_or]
    exact ⟨hx, hw, fun hmem => by simpa using hy '\n' hmem⟩
  have hpos : 0 < Text.size w := Nat.pos_of_ne_zero (mt Text.eq_nil_of_size_eq_zero hne)
  have htext : front ++ '#' :: x ++ (w ++ (y ++ rest))
      = front ++ ('#' :: (x ++ (w ++ y)) ++ rest) := by
    simp only [List.append_assoc, List.cons_append]
  rw [htext, marks_comment 0 hm (fun _ => hfront) hnewline fun c hc => by simpa using hrest c hc,
    ← List.singleton_append] at h
  have hcomment := mem_of_mem_marks_append h
    (by simp only [Text.size_append]; omega)
    (by simp only [Text.size_append, Text.size_cons]; omega)
  have hstart := congrArg Text.Located.start (List.mem_singleton.mp hcomment)
  simp only [Text.size_append, Text.size_cons] at hstart
  have hsign := Char.utf8Size_pos '#'
  omega

/-- A keyword that has a mark is what is left of the run around it. -/
theorem stands_of_keyword {before w after : Text} {category : Category}
    (h : ⟨Text.size before, ⟨.literal category, w⟩⟩ ∈ m.marks 0 (before ++ (w ++ after)))
    (hw : m.Spells (.literal category) w) (hkeyword : category.isKeyword = true)
    (hbefore : m.Uncommented before) :
    m.Stands (before ++ (w ++ after)) ⟨Text.size before, ⟨.literal category, w⟩⟩ := by
  have hword : m.Spells .word w := by
    rw [spells_word_iff_isWord, hw.isWord_eq]
    exact hkeyword
  obtain ⟨before, front, rfl, hfront, hlast⟩ := Text.exists_append_run m.continuesWord before
  obtain ⟨back, after, rfl, hback, hhead⟩ := Text.exists_run_append m.continuesWord after
  have hrun : ∀ c ∈ front ++ (w ++ back), m.continuesWord c = true :=
    List.forall_mem_append.mpr
      ⟨hfront, List.forall_mem_append.mpr ⟨hword.continuesWord_of_word, hback⟩⟩
  have hne : front ++ (w ++ back) ≠ [] :=
    List.append_ne_nil_of_right_ne_nil _ (List.append_ne_nil_of_left_ne_nil hw.ne_nil _)
  have huncommented : m.Uncommented before := fun hm =>
    (hbefore hm).of_append fun hmem =>
      absurd (by decide) (notMem_of_continuesWord (hfront '\n' hmem))
  have htext : before ++ front ++ (w ++ (back ++ after))
      = before ++ ((front ++ (w ++ back)) ++ after) := by
    simp only [List.append_assoc]
  rw [htext] at h ⊢
  rw [marks_around 0 huncommented hne hrun hlast hhead] at h
  have hpos : 0 < Text.size w := Nat.pos_of_ne_zero (mt Text.eq_nil_of_size_eq_zero hw.ne_nil)
  have hinside := mem_of_mem_marks_append h
    (by simp only [Text.size_append]; omega) (by simp only [Text.size_append]; omega)
  obtain ⟨category', hkeyword', hw', heq⟩ := (mem_marks_run_iff hrun).mp hinside
  rw [heq, Nat.zero_add]
  exact .keyword rfl huncommented hrun hlast hhead hw' hkeyword'

/-- What is marked in a text stands there. -/
theorem stands_of_mem_marks {t : Text} {token : Token} (h : token ∈ m.marks 0 t) :
    m.Stands t token := by
  obtain ⟨before, ⟨kind, w⟩, after, hscan, hcategory, rfl⟩ := mem_marks_iff.mp h
  have hmunches := (m.munched_scan t).2 before _ after hscan
  have hspelled := hmunches.spelled_of_category hcategory
  have htext : t = before.flatMap Lexeme.text ++ (w ++ after.flatMap Lexeme.text) := by
    rw [← (m.munched_scan t).1, hscan, List.flatMap_append, List.flatMap_cons]
  rw [htext, Nat.zero_add] at h ⊢
  have hbefore : m.Uncommented (before.flatMap Lexeme.text) :=
    uncommented_of_mem_marks h hspelled.ne_nil (hmunches.newline_notMem hcategory)
  cases kind with
  | blank => cases hcategory
  | word => cases hcategory
  | stray => cases hcategory
  | comment =>
      have hhead := newline_of_head_after_comment hspelled
        fun x hx hbegins => hmunches.longest _ x hbegins hx
      obtain ⟨hm, -⟩ := spells_comment_iff.mp hspelled
      cases hspelled with
      | comment _ hw => exact .comment rfl hm hbefore hw hhead
  | literal category =>
      cases hkeyword : category.isKeyword with
      | false => exact .symbol rfl hbefore hspelled hkeyword
      | true => exact stands_of_keyword h hspelled hkeyword hbefore

theorem mem_marks_iff_stands {t : Text} {token : Token} :
    token ∈ m.marks 0 t ↔ m.Stands t token :=
  ⟨stands_of_mem_marks, mem_marks_of_stands⟩

end CryptolEdit.Mode
