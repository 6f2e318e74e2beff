import CryptolEdit.Token

/-!
Which texts can be lexemes, and of what kind.

# Patterns

`Pattern.Matches` gives a pattern its texts. A pattern never reaches further
than the longest of its texts that the input begins with, and never less far
(`matches_take_reach`, `length_le_reach`): for a run this is what `takeWhile`
does, and for a literal there is but one text to reach for.

# The grammar

`Mode.Spells` says in words what the lists of rules say in patterns: blanks,
words, comments of a batch script, and the literals that a table has. The rules
name their literals without the tables, and name the same ones
(`mem_ruleLiterals`). `spells_iff_rule` joins rules and grammar. The grammar is
ambiguous in one way only. Every keyword is a word as well, but no text is a
literal of two categories (`category_unique`), and no text that is not a literal
is of two kinds (`kind_unique`).
-/

namespace CryptolEdit

-- =========================================================== patterns

/-- The texts that a pattern stands for. -/
def Pattern.Matches : Pattern → Text → Prop
  | .exactly w, t => t = w
  | .run first later, t =>
      ∃ c rest, t = c :: rest ∧ first c = true ∧ ∀ d ∈ rest, later d = true

namespace Pattern

theorem reach_exactly (w t : Text) :
    (exactly w).reach t = if w.isPrefixOf t then w.length else 0 := rfl

theorem reach_run_cons (first later : Char → Bool) (c : Char) (t : Text) :
    (run first later).reach (c :: t)
      = if first c then 1 + (t.takeWhile later).length else 0 := rfl

/-- No pattern reaches further than the text goes. -/
theorem reach_le_length (p : Pattern) (t : Text) : p.reach t ≤ t.length := by
  cases p with
  | exactly w =>
      rw [reach_exactly]
      split
      · next h => exact (List.isPrefixOf_iff_prefix.mp h).length_le
      · exact Nat.zero_le _
  | run first later =>
      cases t with
      | nil => exact Nat.le_refl _
      | cons c t =>
          have hle := (List.takeWhile_prefix later (l := t)).length_le
          rw [reach_run_cons, List.length_cons]
          split <;> omega

/-- What a pattern reaches is one of its texts. -/
theorem matches_take_reach {p : Pattern} {t : Text} (h : 0 < p.reach t) :
    p.Matches (t.take (p.reach t)) := by
  cases p with
  | exactly w =>
      rw [reach_exactly] at h ⊢
      split at h
      · next hbegins =>
          rw [if_pos hbegins]
          exact (List.prefix_iff_eq_take.mp (List.isPrefixOf_iff_prefix.mp hbegins)).symm
      · exact absurd h (Nat.lt_irrefl 0)
  | run first later =>
      cases t with
      | nil => exact absurd h (Nat.lt_irrefl 0)
      | cons c t =>
          rw [reach_run_cons] at h ⊢
          split at h
          · next hc =>
              rw [if_pos hc, Nat.add_comm, List.take_succ_cons,
                ← List.prefix_iff_eq_take.mp (List.takeWhile_prefix later)]
              exact ⟨c, _, rfl, hc, List.all_eq_true.mp List.all_takeWhile⟩
          · exact absurd h (Nat.lt_irrefl 0)

/-- No text of a pattern goes beyond what the pattern reaches. -/
theorem length_le_reach {p : Pattern} {w t : Text} (hw : p.Matches w)
    (hbegins : w <+: t) : w.length ≤ p.reach t := by
  cases p with
  | exactly v =>
      cases hw
      exact Nat.le_of_eq (if_pos (List.isPrefixOf_iff_prefix.mpr hbegins)).symm
  | run first later =>
      obtain ⟨c, v, rfl, hc, hv⟩ := hw
      obtain ⟨rest, rfl⟩ := hbegins
      rw [List.cons_append, reach_run_cons, if_pos hc, List.length_cons,
        List.takeWhile_append_of_pos hv, List.length_append]
      omega

end Pattern

-- ============================================================ grammar

namespace Mode

/-- The literals of a mode by category. -/
def literals : Mode → List (Category × List Text)
  | .source => Vocabulary.tables
  | .batch =>
      [(.builtinSymbol, [":".toList]), (.operatorSymbol, ["@".toList]),
       (.controlKeyword, Vocabulary.batchCommands)]

/-- Characters with which a word goes on. A batch script has hyphens in words. -/
def continuesWord : Mode → Char → Bool
  | .source => Rule.continuesWord
  | .batch => Rule.continuesBatchWord

/-- The texts of each kind. Nothing spells a stray character. -/
inductive Spells (m : Mode) : Kind → Text → Prop
  | blank {w : Text} (hne : w ≠ []) (hw : ∀ c ∈ w, c ∈ [' ', '\t', '\r', '\n']) :
      Spells m .blank w
  | word {c : Char} {w : Text} (hc : Rule.beginsWord c = true)
      (hw : ∀ d ∈ w, m.continuesWord d = true) : Spells m .word (c :: w)
  | comment {w : Text} (hm : m = .batch) (hw : '\n' ∉ w) :
      Spells m .comment ('#' :: w)
  | literal {category : Category} {table : List Text} {w : Text}
      (htable : (category, table) ∈ m.literals) (hw : w ∈ table) :
      Spells m (.literal category) w

theorem literals_ne_nil (m : Mode) :
    ∀ entry ∈ m.literals, ∀ w ∈ entry.2, w ≠ [] := by
  cases m <;> decide +kernel

/-- No word is in the tables of two categories. -/
theorem literals_disjoint (m : Mode) :
    ∀ entry ∈ m.literals, ∀ entry' ∈ m.literals, ∀ w ∈ entry.2, w ∈ entry'.2 →
      entry.1 = entry'.1 := by
  cases m <;> decide +kernel

/-- Nothing is spelled by no text at all. -/
theorem Spells.ne_nil {m : Mode} {kind : Kind} {w : Text} (h : m.Spells kind w) :
    w ≠ [] := by
  cases h with
  | blank hne hw => exact hne
  | word hc hw => exact List.cons_ne_nil _ _
  | comment hm hw => exact List.cons_ne_nil _ _
  | literal htable hw => exact literals_ne_nil m _ htable _ hw

/-- No text is a literal of two categories. -/
theorem category_unique {m : Mode} {a b : Category} {w : Text}
    (ha : m.Spells (.literal a) w) (hb : m.Spells (.literal b) w) : a = b := by
  cases ha with
  | literal htable hw =>
      cases hb with
      | literal htable' hw' => exact literals_disjoint m _ htable _ htable' _ hw hw'

/-- The kind of what begins with a character and is no literal. -/
def headKind (c : Char) : Kind :=
  if c ∈ [' ', '\t', '\r', '\n'] then .blank
  else if Rule.beginsWord c then .word
  else .comment

/-- The first character tells blanks, words and comments apart. -/
theorem Spells.kind_eq_headKind {m : Mode} {kind : Kind} {c : Char} {w : Text}
    (h : m.Spells kind (c :: w)) (hliteral : ∀ category, kind ≠ .literal category) :
    kind = headKind c := by
  cases h with
  | blank hne hw => exact (if_pos (hw c List.mem_cons_self)).symm
  | word hc hw =>
      have hblank : c ∉ [' ', '\t', '\r', '\n'] := by
        intro hmem
        have hnone : [' ', '\t', '\r', '\n'].all (!Rule.beginsWord ·) = true := by decide
        have hnot := List.all_eq_true.mp hnone c hmem
        rw [hc] at hnot
        cases hnot
      unfold headKind
      rw [if_neg hblank, if_pos hc]
  | comment hm hw => rfl
  | literal htable hw => exact absurd rfl (hliteral _)

/-- What is no literal is spelled as one kind only. -/
theorem kind_unique {m : Mode} {a b : Kind} {w : Text} (ha : m.Spells a w)
    (hb : m.Spells b w) (hliteral : ∀ category, ¬m.Spells (.literal category) w) :
    a = b := by
  obtain ⟨c, w, rfl⟩ := List.exists_cons_of_ne_nil ha.ne_nil
  rw [ha.kind_eq_headKind fun category h => hliteral category (h ▸ ha),
    hb.kind_eq_headKind fun category h => hliteral category (h ▸ hb)]

-- ============================================================== rules

def wordRule (m : Mode) : Rule := ⟨.word, .run Rule.beginsWord m.continuesWord⟩

def commentRule : Rule := ⟨.comment, .run (· == '#') (· != '\n')⟩

/-- The rules of a mode that are not for literals. -/
def openRules : Mode → List Rule
  | .source => [wordRule .source, Rule.blanks]
  | .batch => [wordRule .batch, commentRule, Rule.blanks]

/-- The literals that the rules of a mode name. -/
def ruleLiterals : Mode → List (Category × Text)
  | .source => Rule.sourceLiterals
  | .batch => Rule.batchLiterals

/-- The rules of a mode for literals. -/
def literalRules (m : Mode) : List Rule := Rule.literals m.ruleLiterals

/-- Literals come first. -/
theorem rules_eq (m : Mode) : m.rules = m.literalRules ++ m.openRules := by
  cases m <;> rfl

/-- Every literal that has a rule is in a table of its category. -/
theorem ruleLiterals_listed (m : Mode) :
    ∀ literal ∈ m.ruleLiterals, ∃ entry ∈ m.literals,
      entry.1 = literal.1 ∧ literal.2 ∈ entry.2 := by
  cases m <;> decide +kernel

/-- Every word of a table has a rule. -/
theorem literals_ruled (m : Mode) :
    ∀ entry ∈ m.literals, ∀ w ∈ entry.2, (entry.1, w) ∈ m.ruleLiterals := by
  cases m <;> decide +kernel

/-- The rules name the literals that the tables have, under the same categories. -/
theorem mem_ruleLiterals {m : Mode} {category : Category} {w : Text} :
    (category, w) ∈ m.ruleLiterals ↔ ∃ table, (category, table) ∈ m.literals ∧ w ∈ table := by
  constructor
  · intro h
    obtain ⟨⟨category', table⟩, hentry, rfl, hw⟩ := ruleLiterals_listed m _ h
    exact ⟨table, hentry, hw⟩
  · rintro ⟨table, hentry, hw⟩
    exact literals_ruled m _ hentry w hw

theorem mem_literalRules {m : Mode} {rule : Rule} :
    rule ∈ m.literalRules ↔ ∃ category table w, (category, table) ∈ m.literals
      ∧ w ∈ table ∧ rule = ⟨.literal category, .exactly w⟩ := by
  unfold literalRules Rule.literals
  rw [List.mem_map]
  constructor
  · rintro ⟨⟨category, w⟩, hmem, rfl⟩
    obtain ⟨table, hentry, hw⟩ := mem_ruleLiterals.mp hmem
    exact ⟨category, table, w, hentry, hw, rfl⟩
  · rintro ⟨category, table, w, hentry, hw, rfl⟩
    exact ⟨(category, w), mem_ruleLiterals.mpr ⟨table, hentry, hw⟩, rfl⟩

/-- A literal is spelled by what a rule matches exactly. -/
theorem spells_literal_iff {m : Mode} {category : Category} {w : Text} :
    m.Spells (.literal category) w
      ↔ (⟨.literal category, .exactly w⟩ : Rule) ∈ m.literalRules := by
  rw [mem_literalRules]
  constructor
  · intro h
    cases h with
    | literal htable hw => exact ⟨category, _, w, htable, hw, rfl⟩
  · rintro ⟨category', table, w', htable, hw, heq⟩
    cases heq
    exact .literal htable hw

/-- A rule that does not come after all literals is for a literal itself. -/
theorem mem_literalRules_of_first {m : Mode} {before after : List Rule}
    {rule other : Rule} (hrules : m.rules = before ++ rule :: after)
    (hother : other ∈ m.literalRules) (hlate : other ∉ before) :
    rule ∈ m.literalRules := by
  rw [rules_eq] at hrules
  rcases List.append_eq_append_iff.mp hrules with ⟨rest, hbefore, -⟩ | ⟨rest, hlits, heq⟩
  · rw [hbefore] at hlate
    exact absurd (List.mem_append_left _ hother) hlate
  · rw [hlits] at hother ⊢
    cases rest with
    | nil =>
        rw [List.append_nil] at hother
        exact absurd hother hlate
    | cons first rest =>
        rw [List.cons_append, List.cons.injEq] at heq
        rw [heq.1]
        exact List.mem_append_right _ List.mem_cons_self

/-- A word is spelled by what the rule for words matches. -/
theorem spells_word_iff {m : Mode} {w : Text} :
    m.Spells .word w ↔ m.wordRule.pattern.Matches w := by
  constructor
  · intro h
    cases h with
    | word hc hw => exact ⟨_, _, rfl, hc, hw⟩
  · rintro ⟨c, rest, rfl, hc, hrest⟩
    exact .word hc hrest

theorem spells_blank_iff {m : Mode} {w : Text} :
    m.Spells .blank w ↔ Rule.blanks.pattern.Matches w := by
  have hblank : ∀ c : Char, (c == ' ' || c == '\t' || c == '\r' || c == '\n') = true
      ↔ c ∈ [' ', '\t', '\r', '\n'] := by
    intro c
    simp [or_assoc]
  constructor
  · intro h
    cases h with
    | blank hne hw =>
        obtain ⟨c, rest, rfl⟩ := List.exists_cons_of_ne_nil hne
        refine ⟨c, rest, rfl, (hblank c).mpr (hw c List.mem_cons_self), ?_⟩
        exact fun d hd => (hblank d).mpr (hw d (List.mem_cons_of_mem c hd))
  · rintro ⟨c, rest, rfl, hc, hrest⟩
    refine .blank (List.cons_ne_nil c rest) fun d hd => (hblank d).mp ?_
    rcases List.mem_cons.mp hd with rfl | hd
    · exact hc
    · exact hrest d hd

/-- A comment is spelled by what the rule for comments matches, in batch mode
only. -/
theorem spells_comment_iff {m : Mode} {w : Text} :
    m.Spells .comment w ↔ m = .batch ∧ commentRule.pattern.Matches w := by
  constructor
  · intro h
    cases h with
    | comment hm hw =>
        refine ⟨hm, '#', _, rfl, rfl, fun d hd => bne_iff_ne.mpr ?_⟩
        exact fun heq => hw (heq ▸ hd)
  · rintro ⟨hm, c, rest, rfl, hc, hrest⟩
    cases beq_iff_eq.mp hc
    exact .comment hm fun hmem => bne_iff_ne.mp (hrest '\n' hmem) rfl

theorem mem_openRules {m : Mode} {rule : Rule} :
    rule ∈ m.openRules
      ↔ rule = m.wordRule ∨ rule = Rule.blanks ∨ (m = .batch ∧ rule = commentRule) := by
  cases m with
  | source => simp [openRules]
  | batch =>
      simp only [openRules, List.mem_cons, List.not_mem_nil, or_false, true_and]
      rw [or_comm (a := rule = commentRule)]

/-- The grammar and the rules agree. -/
theorem spells_iff_rule {m : Mode} {kind : Kind} {w : Text} :
    m.Spells kind w ↔ ∃ rule ∈ m.rules, rule.kind = kind ∧ rule.pattern.Matches w := by
  constructor
  · intro h
    simp only [rules_eq, List.mem_append]
    cases h with
    | blank hne hw =>
        have hblank : m.Spells .blank w := .blank hne hw
        exact ⟨Rule.blanks, .inr (mem_openRules.mpr (.inr (.inl rfl))), rfl,
          spells_blank_iff.mp hblank⟩
    | word hc hw =>
        exact ⟨m.wordRule, .inr (mem_openRules.mpr (.inl rfl)), rfl,
          spells_word_iff.mp (.word hc hw)⟩
    | comment hm hw =>
        exact ⟨commentRule, .inr (mem_openRules.mpr (.inr (.inr ⟨hm, rfl⟩))), rfl,
          (spells_comment_iff.mp (.comment hm hw)).2⟩
    | literal htable hw =>
        exact ⟨_, .inl (spells_literal_iff.mp (.literal htable hw)), rfl, rfl⟩
  · rintro ⟨rule, hrule, rfl, hmatches⟩
    rw [rules_eq, List.mem_append] at hrule
    rcases hrule with hliteral | hopen
    · obtain ⟨category, table, w', htable, hw, rfl⟩ := mem_literalRules.mp hliteral
      cases hmatches
      exact .literal htable hw
    · rcases mem_openRules.mp hopen with rfl | rfl | ⟨hm, rfl⟩
      · exact spells_word_iff.mpr hmatches
      · exact spells_blank_iff.mpr hmatches
      · exact spells_comment_iff.mpr ⟨hm, hmatches⟩

end Mode

end CryptolEdit
