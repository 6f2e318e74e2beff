import CryptolEdit.Proofs.Highlight.Piece
import CryptolEdit.Proofs.Token.Occurrence

/-!
What highlighting means.

Of source text, the symbols are marked wherever they occur, and the keywords where
they are all of a run of word characters, apostrophes at its start not counted
(`marks_source`). Of a batch script, the comments are marked, and outside comments
every colon, every at sign, and the commands where they are all of a run, hyphens
and apostrophes at its start not counted (`marks_batch`). Nothing else is marked,
and the marks come in the order of their places.

Nothing here speaks of lexemes. The statements are about slices of the text, about
runs of characters and about lines.
-/

namespace CryptolEdit

-- ========================================================= vocabulary

namespace Vocabulary

/-- The symbols of source text by category. -/
inductive Symbol : Category → Text → Prop
  | quote : Symbol .stringMarker quote
  | builtin {w : Text} (hw : w ∈ builtinSymbols) : Symbol .builtinSymbol w
  | operator {w : Text} (hw : w ∈ operatorSymbols) : Symbol .operatorSymbol w

/-- The keywords of source text by category. -/
inductive Keyword : Category → Text → Prop
  | constant {w : Text} (hw : w ∈ constantKeywords) : Keyword .constantKeyword w
  | type {w : Text} (hw : w ∈ typeKeywords) : Keyword .typeKeyword w
  | control {w : Text} (hw : w ∈ controlKeywords) : Keyword .controlKeyword w

/-- No symbol has a keyword's category. -/
theorem Symbol.isKeyword {category : Category} {w : Text} (h : Symbol category w) :
    category.isKeyword = false := by
  cases h <;> rfl

theorem Keyword.isKeyword {category : Category} {w : Text} (h : Keyword category w) :
    category.isKeyword = true := by
  cases h <;> rfl

end Vocabulary

namespace Mode

/-- A text spells a literal of a category if a table of that category has it. -/
theorem spells_literal_iff_mem {m : Mode} {category : Category} {w : Text} :
    m.Spells (.literal category) w ↔ ∃ table, (category, table) ∈ m.literals ∧ w ∈ table := by
  constructor
  · intro h
    cases h with
    | literal htable hw => exact ⟨_, htable, hw⟩
  · rintro ⟨table, htable, hw⟩
    exact .literal htable hw

/-- The literals of source text are its symbols and its keywords. -/
theorem spells_source_iff {category : Category} {w : Text} :
    source.Spells (.literal category) w
      ↔ Vocabulary.Symbol category w ∨ Vocabulary.Keyword category w := by
  rw [spells_literal_iff_mem]
  simp only [literals, Vocabulary.tables, List.mem_cons, List.not_mem_nil, or_false,
    Prod.mk.injEq]
  constructor
  · rintro ⟨table, ⟨rfl, rfl⟩ | ⟨rfl, rfl⟩ | ⟨rfl, rfl⟩ | ⟨rfl, rfl⟩ | ⟨rfl, rfl⟩ | ⟨rfl, rfl⟩, hw⟩
    · rw [List.mem_singleton.mp hw]
      exact .inl .quote
    · exact .inl (.builtin hw)
    · exact .inl (.operator hw)
    · exact .inr (.constant hw)
    · exact .inr (.type hw)
    · exact .inr (.control hw)
  · rintro (h | h)
    · cases h with
      | quote => exact ⟨[Vocabulary.quote], by simp, List.mem_singleton_self _⟩
      | builtin hw => exact ⟨Vocabulary.builtinSymbols, by simp, hw⟩
      | operator hw => exact ⟨Vocabulary.operatorSymbols, by simp, hw⟩
    · cases h with
      | constant hw => exact ⟨Vocabulary.constantKeywords, by simp, hw⟩
      | type hw => exact ⟨Vocabulary.typeKeywords, by simp, hw⟩
      | control hw => exact ⟨Vocabulary.controlKeywords, by simp, hw⟩

theorem spells_batch_iff {category : Category} {w : Text} :
    batch.Spells (.literal category) w
      ↔ (category = .builtinSymbol ∧ w = [':']) ∨ (category = .operatorSymbol ∧ w = ['@'])
        ∨ (category = .controlKeyword ∧ w ∈ Vocabulary.batchCommands) := by
  rw [spells_literal_iff_mem]
  simp only [literals, List.mem_cons, List.not_mem_nil, or_false, Prod.mk.injEq]
  constructor
  · rintro ⟨table, ⟨rfl, rfl⟩ | ⟨rfl, rfl⟩ | ⟨rfl, rfl⟩, hw⟩
    · exact .inl ⟨rfl, List.mem_singleton.mp hw⟩
    · exact .inr (.inl ⟨rfl, List.mem_singleton.mp hw⟩)
    · exact .inr (.inr ⟨rfl, hw⟩)
  · rintro (⟨rfl, rfl⟩ | ⟨rfl, rfl⟩ | ⟨rfl, hw⟩)
    · exact ⟨_, .inl ⟨rfl, rfl⟩, List.mem_singleton_self _⟩
    · exact ⟨_, .inr (.inl ⟨rfl, rfl⟩), List.mem_singleton_self _⟩
    · exact ⟨_, .inr (.inr ⟨rfl, rfl⟩), hw⟩

/-- A symbol stands outside comments if it does not begin in one. -/
theorem outside_symbol_iff {before w after : Text} (hw : w = [':'] ∨ w = ['@']) :
    (before ++ (w ++ after)).Outside ⟨Text.size before, w⟩ ↔ before.Uncommented := by
  rcases hw with rfl | rfl
  · exact Text.outside_iff (by decide) (by decide) (by decide)
  · exact Text.outside_iff (by decide) (by decide) (by decide)

/-- A run stands outside comments if it does not begin in one. -/
theorem outside_run_iff {before run after : Text} (hne : run ≠ [])
    (hrun : ∀ c ∈ run, batch.continuesWord c = true) :
    (before ++ (run ++ after)).Outside ⟨Text.size before, run⟩ ↔ before.Uncommented := by
  have hnot : ∀ c ∈ '#' :: '>' :: blanks, c ∉ run :=
    fun c hc hmem => notMem_of_continuesWord (hrun c hmem) hc
  exact Text.outside_iff hne (hnot '\n' (by decide)) (hnot '#' List.mem_cons_self)

end Mode

-- ======================================================== what is marked

namespace Span

/-- A part of a text, highlighted as a category. -/
def mark (category : Category) (w : Text.Located Text) : Span := ⟨w.start, ⟨some category, w.item⟩⟩

/-- A symbol of source text, wherever it occurs. -/
def IsSymbol (text : Text) (span : Span) : Prop :=
  ∃ category w, Vocabulary.Symbol category w.item ∧ text.Occurs w ∧ span = mark category w

/-- A keyword of source text. It is a whole run of word characters, but for
apostrophes that the run begins with. -/
def IsKeyword (text : Text) (span : Span) : Prop :=
  ∃ category run, text.IsRun Rule.continuesWord run
    ∧ Vocabulary.Keyword category (run.trim (· == '\'')).item
    ∧ span = mark category (run.trim (· == '\''))

/-- A comment of a batch script. -/
def IsComment (text : Text) (span : Span) : Prop :=
  ∃ comment ∈ text.comments, span = mark .comment comment

/-- A symbol of a batch script, outside comments. -/
def IsBatchSymbol (text : Text) (span : Span) : Prop :=
  ∃ w, text.Occurs w ∧ text.Outside w
    ∧ ((w.item = [':'] ∧ span = mark .builtinSymbol w)
      ∨ (w.item = ['@'] ∧ span = mark .operatorSymbol w))

/-- A command of a batch script, outside comments. It is a whole run of word
characters, but for apostrophes and hyphens that the run begins with. -/
def IsCommand (text : Text) (span : Span) : Prop :=
  ∃ run, text.IsRun Rule.continuesBatchWord run ∧ text.Outside run
    ∧ (run.trim fun c => c == '\'' || c == '-').item ∈ Vocabulary.batchCommands
    ∧ span = mark .controlKeyword (run.trim fun c => c == '\'' || c == '-')

/-- A span is a mark exactly if a keyword or a symbol stands there for it. -/
theorem mem_marks_iff_stands {m : Mode} {text : Text} {span : Span} :
    span ∈ marks (ofText m text) ↔ ∃ token, m.Stands text token ∧ ofToken token = span := by
  rw [marks_ofText, List.mem_map]
  simp only [Mode.mem_marks_iff_stands]

/-- Marks come in the order of their places. -/
theorem pairwise_marks (m : Mode) (text : Text) :
    (marks (ofText m text)).Pairwise fun s s' => s.start < s'.start :=
  (Text.pairwise_place Piece.text_ne_nil_of_mem_ofText).filter _

/-- Highlighting of source text. The marks, in the order of their places, are the
symbols and the keywords. -/
theorem marks_source (text : Text) :
    (marks (ofText .source text)).Pairwise (fun s s' => s.start < s'.start)
      ∧ ∀ span, span ∈ marks (ofText .source text)
          ↔ IsSymbol text span ∨ IsKeyword text span := by
  refine ⟨pairwise_marks _ _, fun span => ?_⟩
  rw [mem_marks_iff_stands]
  constructor
  · rintro ⟨token, hstands, rfl⟩
    cases hstands with
    | symbol ht hbefore hw hsymbol =>
        rcases Mode.spells_source_iff.mp hw with hw | hw
        · exact .inl ⟨_, ⟨_, _⟩, hw, Text.occurs_iff.mpr ⟨_, _, ht, rfl⟩, rfl⟩
        · cases hsymbol.symm.trans hw.isKeyword
    | @keyword before run after category ht hbefore hrun hlast hhead hw hkeyword =>
        have hne : run ≠ [] := fun hnil => hw.ne_nil (by rw [hnil]; rfl)
        rcases Mode.spells_source_iff.mp hw with hw | hw
        · cases hkeyword.symm.trans hw.isKeyword
        · exact .inr ⟨_, ⟨_, run⟩, ⟨before, after, ht, rfl, hne, hrun, hlast, hhead⟩, hw, rfl⟩
    | comment ht hm hbefore hw hhead => cases hm
  · have hsource : ∀ before, Mode.source.Uncommented before := fun before hm => nomatch hm
    rintro (⟨category, ⟨start, w⟩, hw, hoccurs, rfl⟩ | ⟨category, ⟨start, run⟩, hrun, hw, rfl⟩)
    · obtain ⟨before, after, ht, rfl⟩ := Text.occurs_iff.mp hoccurs
      exact ⟨_, .symbol ht (hsource before) (Mode.spells_source_iff.mpr (.inl hw)) hw.isKeyword,
        rfl⟩
    · obtain ⟨before, after, ht, rfl, -, hrun, hlast, hhead⟩ := hrun
      exact ⟨_, .keyword ht (hsource before) hrun hlast hhead
        (Mode.spells_source_iff.mpr (.inr hw)) hw.isKeyword, rfl⟩

example : marks (ofText .source "''let=>x'let".toList)
    = [mark .controlKeyword ⟨2, "let".toList⟩, mark .operatorSymbol ⟨5, "=>".toList⟩] := by
  decide +kernel

/-- Highlighting of a batch script. The marks, in the order of their places, are the
comments, and the symbols and commands outside them. -/
theorem marks_batch (text : Text) :
    (marks (ofText .batch text)).Pairwise (fun s s' => s.start < s'.start)
      ∧ ∀ span, span ∈ marks (ofText .batch text)
          ↔ IsComment text span ∨ IsBatchSymbol text span ∨ IsCommand text span := by
  refine ⟨pairwise_marks _ _, fun span => ?_⟩
  rw [mem_marks_iff_stands]
  constructor
  · rintro ⟨token, hstands, rfl⟩
    cases hstands with
    | @symbol before w after category ht hbefore hw hsymbol =>
        have hsign : (category = .builtinSymbol ∧ w = [':'])
            ∨ (category = .operatorSymbol ∧ w = ['@']) := by
          rcases Mode.spells_batch_iff.mp hw with h | h | ⟨rfl, -⟩
          · exact .inl h
          · exact .inr h
          · cases hsymbol
        have houtside : text.Outside ⟨Text.size before, w⟩ := by
          rw [ht, Mode.outside_symbol_iff (hsign.imp And.right And.right)]
          exact hbefore rfl
        refine .inr (.inl ⟨⟨Text.size before, w⟩, Text.occurs_iff.mpr ⟨before, after, ht, rfl⟩,
          houtside, ?_⟩)
        rcases hsign with ⟨rfl, rfl⟩ | ⟨rfl, rfl⟩
        · exact .inl ⟨rfl, rfl⟩
        · exact .inr ⟨rfl, rfl⟩
    | @keyword before run after category ht hbefore hrun hlast hhead hw hkeyword =>
        have hne : run ≠ [] := fun hnil => hw.ne_nil (by rw [hnil]; rfl)
        have houtside : text.Outside ⟨Text.size before, run⟩ := by
          rw [ht, Mode.outside_run_iff hne hrun]
          exact hbefore rfl
        rcases Mode.spells_batch_iff.mp hw with ⟨rfl, -⟩ | ⟨rfl, -⟩ | ⟨rfl, hcommand⟩
        · cases hkeyword
        · cases hkeyword
        · exact .inr (.inr ⟨⟨Text.size before, run⟩,
            ⟨before, after, ht, rfl, hne, hrun, hlast, hhead⟩, houtside, hcommand, rfl⟩)
    | @comment before w after ht hm hbefore hw hhead =>
        exact .inl ⟨⟨Text.size before, '#' :: w⟩, Text.mem_comments_iff.mpr
          ⟨before, w, after, ht, hbefore rfl, hw, hhead, rfl⟩, rfl⟩
  · rintro (⟨comment, hcomment, rfl⟩ | ⟨⟨start, w⟩, hoccurs, houtside, hsign⟩
      | ⟨⟨start, run⟩, hrun, houtside, hcommand, rfl⟩)
    · obtain ⟨before, w, after, ht, hbefore, hw, hhead, rfl⟩ := Text.mem_comments_iff.mp hcomment
      exact ⟨_, .comment ht rfl (fun _ => hbefore) hw hhead, rfl⟩
    · obtain ⟨before, after, ht, rfl⟩ := Text.occurs_iff.mp hoccurs
      rw [ht] at houtside
      have hbefore : before.Uncommented :=
        (Mode.outside_symbol_iff (hsign.imp And.left And.left)).mp houtside
      rcases hsign with ⟨hw, rfl⟩ | ⟨hw, rfl⟩
      · exact ⟨_, .symbol ht (fun _ => hbefore) (Mode.spells_batch_iff.mpr (.inl ⟨rfl, hw⟩)) rfl,
          rfl⟩
      · exact ⟨_, .symbol ht (fun _ => hbefore)
          (Mode.spells_batch_iff.mpr (.inr (.inl ⟨rfl, hw⟩))) rfl, rfl⟩
    · obtain ⟨before, after, ht, rfl, hne, hrun, hlast, hhead⟩ := hrun
      rw [ht] at houtside
      have hbefore : before.Uncommented := (Mode.outside_run_iff hne hrun).mp houtside
      exact ⟨_, .keyword ht (fun _ => hbefore) hrun hlast hhead
        (Mode.spells_batch_iff.mpr (.inr (.inr ⟨rfl, hcommand⟩))) rfl, rfl⟩

example : marks (ofText .batch "-let # @\n:'set-".toList)
    = [mark .controlKeyword ⟨1, "let".toList⟩, mark .comment ⟨5, "# @".toList⟩,
        mark .builtinSymbol ⟨9, ":".toList⟩] := by
  decide +kernel

end Span

end CryptolEdit
