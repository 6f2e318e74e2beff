import CryptolEdit.Proofs.Highlight.Meaning

/-!
The category of a text that stands alone.

A text is classified by cutting it into tokens: it has the category of its token if
there is only one. Since tokens are as long as they can be, there is only one exactly if
the grammar spells the text as a whole (`exists_scan_of_spells`), and the token is a
literal if the text is listed as one. So classifying by tokens comes to the same as
looking up in the tables (`ofText?_source_iff`, `ofText?_batch_iff`), from which the rules
for tokens are not made.
-/

namespace CryptolEdit

-- ============================================================ one token

namespace Mode

variable {m : Mode}

/-- A text has one lexeme only if that one is all of it. -/
theorem scan_eq_singleton_iff {t : Text} {l : Lexeme} :
    Lexeme.scan m.rules t = [l] ↔ l.text = t ∧ m.Munches t l := by
  rw [scan_eq_iff, List.flatMap_singleton, munched_cons, List.flatMap_nil, List.append_nil]
  constructor
  · rintro ⟨rfl, hmunches, -⟩
    exact ⟨rfl, hmunches⟩
  · rintro ⟨rfl, hmunches⟩
    exact ⟨rfl, hmunches, munched_nil m⟩

/-- What is spelled as a whole has one lexeme. It is a literal if it can be. -/
theorem exists_scan_of_spells {kind : Kind} {w : Text} (hw : m.Spells kind w) :
    ∃ kind', Lexeme.scan m.rules w = [⟨kind', w⟩] ∧ m.Spells kind' w
      ∧ ∀ category, m.Spells (.literal category) w → kind' = .literal category := by
  obtain ⟨⟨kind', text⟩, -, -, hmunches⟩ := exists_munches (m := m) hw.ne_nil
  have hbegins : w <+: w := List.prefix_refl w
  have hspelled : m.Spells kind' text :=
    hmunches.spelled fun hstray => hmunches.stray_iff.mp hstray kind w hw.ne_nil hbegins hw
  obtain rfl : text = w :=
    hmunches.isPrefix.eq_of_length_le (hmunches.longest kind w hbegins hw)
  exact ⟨kind', scan_eq_singleton_iff.mpr ⟨rfl, hmunches⟩, hspelled, hmunches.literal_first⟩

/-- What has a category is spelled in one way only. -/
theorem kind_eq_of_category {kind kind' : Kind} {category : Category} {w : Text}
    (hw : m.Spells kind w) (hcategory : kind.category? = some category)
    (hw' : m.Spells kind' w)
    (hfirst : ∀ category, m.Spells (.literal category) w → kind' = .literal category) :
    kind' = kind := by
  cases kind with
  | blank => cases hcategory
  | word => cases hcategory
  | stray => cases hcategory
  | comment => exact kind_unique hw' hw hw.not_literal
  | literal category => exact hfirst category hw

end Mode

-- =============================================================== tables

/-- A word has the category of a table that it is in, and of no other. -/
theorem Vocabulary.categoryOf?_eq_some_iff {w : Text} {category : Category} :
    categoryOf? w = some category ↔ ∃ table, (category, table) ∈ tables ∧ w ∈ table := by
  unfold categoryOf?
  rw [Option.map_eq_some_iff]
  constructor
  · rintro ⟨⟨category, table⟩, hfound, rfl⟩
    have hw := List.find?_some hfound
    exact ⟨table, List.mem_of_find?_eq_some hfound, List.contains_iff_mem.mp hw⟩
  · rintro ⟨table, hentry, hw⟩
    have hsome : (tables.find? fun entry => entry.2.contains w).isSome = true :=
      List.find?_isSome.mpr ⟨_, hentry, List.contains_iff_mem.mpr hw⟩
    obtain ⟨⟨category', table'⟩, hfound⟩ := Option.isSome_iff_exists.mp hsome
    have hw' := List.find?_some hfound
    -- an earlier table with the text in it has the same category
    have hsame : category' = category :=
      Mode.literals_disjoint .source _ (List.mem_of_find?_eq_some hfound) _ hentry w
        (List.contains_iff_mem.mp hw') hw
    exact ⟨_, hfound, hsame⟩

namespace Category

/-- A text has the category of whatever it spells. -/
theorem ofText?_eq_some_iff {m : Mode} {t : Text} {category : Category} :
    ofText? m t = some category ↔ ∃ kind, m.Spells kind t ∧ kind.category? = some category := by
  constructor
  · intro h
    unfold ofText? at h
    split at h
    · next l hscan =>
        obtain ⟨rfl, hmunches⟩ := Mode.scan_eq_singleton_iff.mp hscan
        exact ⟨l.kind, hmunches.spelled_of_category (by rw [h]; rfl), h⟩
    · cases h
  · rintro ⟨kind, hspelled, hcategory⟩
    obtain ⟨kind', hscan, hspelled', hfirst⟩ := Mode.exists_scan_of_spells hspelled
    cases Mode.kind_eq_of_category hspelled hcategory hspelled' hfirst
    unfold ofText?
    rw [hscan]
    exact hcategory

/-- Source text has literals and no comments. -/
theorem ofText?_source_iff {t : Text} {category : Category} :
    ofText? .source t = some category
      ↔ ∃ table, (category, table) ∈ Vocabulary.tables ∧ t ∈ table := by
  rw [ofText?_eq_some_iff]
  constructor
  · rintro ⟨kind, hspelled, hcategory⟩
    cases hspelled with
    | blank hne hw => cases hcategory
    | word hc hw => cases hcategory
    | comment hm hw => cases hm
    | literal htable hw =>
        cases hcategory
        exact ⟨_, htable, hw⟩
  · rintro ⟨table, htable, hw⟩
    exact ⟨.literal category, .literal htable hw, rfl⟩

/-- A batch script has two symbols, commands, and comments. -/
theorem ofText?_batch_iff {t : Text} {category : Category} :
    ofText? .batch t = some category
      ↔ (category = .builtinSymbol ∧ t = [':']) ∨ (category = .operatorSymbol ∧ t = ['@'])
        ∨ (category = .controlKeyword ∧ t ∈ Vocabulary.batchCommands)
        ∨ (category = .comment ∧ ['#'] <+: t ∧ '\n' ∉ t) := by
  rw [ofText?_eq_some_iff]
  constructor
  · rintro ⟨kind, hspelled, hcategory⟩
    cases kind with
    | blank => cases hcategory
    | word => cases hcategory
    | stray => cases hcategory
    | comment =>
        cases hcategory
        obtain ⟨w, rfl⟩ := List.head?_eq_some_iff.mp hspelled.head_of_comment
        exact .inr (.inr (.inr ⟨rfl, ⟨w, rfl⟩, hspelled.newline_notMem_of_comment⟩))
    | literal category' =>
        cases hcategory
        rcases Mode.spells_batch_iff.mp hspelled with h | h | h
        · exact .inl h
        · exact .inr (.inl h)
        · exact .inr (.inr (.inl h))
  · intro h
    have hliteral : Mode.batch.Spells (.literal category) t →
        ∃ kind, Mode.batch.Spells kind t ∧ kind.category? = some category :=
      fun hspelled => ⟨.literal category, hspelled, rfl⟩
    rcases h with h | h | h | ⟨rfl, ⟨w, rfl⟩, hnewline⟩
    · exact hliteral (Mode.spells_batch_iff.mpr (.inl h))
    · exact hliteral (Mode.spells_batch_iff.mpr (.inr (.inl h)))
    · exact hliteral (Mode.spells_batch_iff.mpr (.inr (.inr h)))
    · exact ⟨.comment, .comment rfl fun hmem => hnewline (List.mem_cons_of_mem _ hmem), rfl⟩

/-- Tokens and tables classify alike. Source text that is a single token has the category
under which the tables list it, and has none if they do not. Of a batch script the
commands, the colon, the at sign and whole comments have a category, and no other text
has one. -/
theorem ofText?_by_tables (t : Text) :
    ofText? .source t = Vocabulary.categoryOf? t
      ∧ (ofText? .batch t = some .controlKeyword ↔ t ∈ Vocabulary.batchCommands)
      ∧ (ofText? .batch t = some .builtinSymbol ↔ t = [':'])
      ∧ (ofText? .batch t = some .operatorSymbol ↔ t = ['@'])
      ∧ (ofText? .batch t = some .comment ↔ ['#'] <+: t ∧ '\n' ∉ t)
      ∧ (ofText? .batch t = none ↔ t ∉ Vocabulary.batchCommands ∧ t ≠ [':'] ∧ t ≠ ['@']
          ∧ ¬(['#'] <+: t ∧ '\n' ∉ t)) := by
  refine ⟨?_, ?_, ?_, ?_, ?_, ?_⟩
  · refine Option.ext fun category => ?_
    rw [ofText?_source_iff, Vocabulary.categoryOf?_eq_some_iff]
  · simp [ofText?_batch_iff]
  · simp [ofText?_batch_iff]
  · simp [ofText?_batch_iff]
  · simp [ofText?_batch_iff]
  · rw [Option.eq_none_iff_forall_ne_some]
    constructor
    · intro hnone
      refine ⟨fun h => ?_, fun h => ?_, fun h => ?_, fun h => ?_⟩
      · exact hnone _ (ofText?_batch_iff.mpr (.inr (.inr (.inl ⟨rfl, h⟩))))
      · exact hnone _ (ofText?_batch_iff.mpr (.inl ⟨rfl, h⟩))
      · exact hnone _ (ofText?_batch_iff.mpr (.inr (.inl ⟨rfl, h⟩)))
      · exact hnone _ (ofText?_batch_iff.mpr (.inr (.inr (.inr ⟨rfl, h⟩))))
    · rintro ⟨hcommand, hcolon, hat, hcomment⟩ category h
      rcases ofText?_batch_iff.mp h with ⟨-, h⟩ | ⟨-, h⟩ | ⟨-, h⟩ | ⟨-, h⟩
      · exact hcolon h
      · exact hat h
      · exact hcommand h
      · exact hcomment h

example : ofText? .batch "isabelle-b".toList = some .controlKeyword
    ∧ ofText? .batch "isabelle-".toList = none ∧ ofText? .batch "#: @".toList = some .comment := by
  decide +kernel

end Category

end CryptolEdit
