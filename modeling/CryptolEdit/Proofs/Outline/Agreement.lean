import CryptolEdit.Proofs.Highlight.Lossless
import CryptolEdit.Proofs.Highlight.Meaning
import CryptolEdit.Proofs.Outline.Grammar

/-!
The outline and highlighting agree.

The outline reads lines, and highlighting reads the whole text from its start. Where
the outline finds a theorem, highlighting marks the word `theorem` at the start of the
line and the colon after the name, and no colon between the two.

The word is marked since it is a whole run of word characters: a newline or nothing
stands before the line, and a space after the word. The colon is marked wherever it
stands. And whatever is marked stands in the text, so a mark between the two would be
a colon in the word, among the spaces or in the name (`le_of_occurs`).
-/

namespace CryptolEdit

-- ================================================== where things stand

namespace Text

/-- A character that is not in a part of a text does not stand there. -/
theorem le_of_occurs {before front rest : Text} {c : Char} {offset : Nat}
    (hoccurs : (before ++ (front ++ rest)).Occurs ⟨offset, [c]⟩) (hfront : c ∉ front)
    (hle : size before ≤ offset) : size before + size front ≤ offset := by
  obtain ⟨upto, after, ht, hsize⟩ := occurs_iff.mp hoccurs
  change size upto = offset at hsize
  subst hsize
  by_contra hlt
  have hupto : upto <+: before ++ front := by
    refine prefix_of_size_le (t := before ++ (front ++ rest)) ?_ ?_ ?_
    · rw [ht]
      exact List.prefix_append _ _
    · rw [← List.append_assoc]
      exact List.prefix_append _ _
    · rw [size_append]
      omega
  obtain ⟨done, rfl⟩ : before <+: upto :=
    prefix_of_size_le (List.prefix_append _ _) hupto hle
  -- the character stands where `front` goes on after `done`
  obtain ⟨left, rfl⟩ := (List.prefix_append_right_inj before).mp hupto
  rw [List.append_assoc, List.append_assoc, List.append_cancel_left_eq,
    List.append_cancel_left_eq] at ht
  cases left with
  | nil =>
      rw [List.append_nil, size_append] at hlt
      exact hlt (Nat.le_refl _)
  | cons d left =>
      obtain ⟨rfl, -⟩ := List.cons.inj ht
      exact hfront (List.mem_append_right _ List.mem_cons_self)

end Text

namespace Span

/-- A span occurs in the text at the place that it gives. -/
theorem occurs_of_mem_ofText {m : Mode} {text : Text} {span : Span}
    (h : span ∈ ofText m text) : text.Occurs ⟨span.start, span.item.text⟩ := by
  rw [ofText_eq_ofExtent] at h
  exact (lossless_ofExtent m (Extent.of?_whole text)).tiles.cut span h

/-- A keyword or a symbol that stands in a text is one of its spans. -/
theorem mem_ofText_of_stands {m : Mode} {text : Text} {token : Token}
    (h : m.Stands text token) : ofToken token ∈ ofText m text :=
  (List.mem_filter.mp (mem_marks_iff_stands.mpr ⟨token, h, rfl⟩)).1

/-- The word `theorem` is marked at the start of a line and before a space. -/
theorem mark_theoremWord {before rest : Text} (hlast : ∀ c ∈ before.getLast?, c = '\n')
    (hhead : rest.head? = some ' ') :
    mark .controlKeyword ⟨Text.size before, Vocabulary.theoremWord⟩
      ∈ ofText .source (before ++ (Vocabulary.theoremWord ++ rest)) := by
  have hword : Mode.source.Spells (.literal .controlKeyword) Vocabulary.theoremWord :=
    Mode.spells_source_iff.mpr (.inr (.control (by decide)))
  have hrun : ∀ c ∈ Vocabulary.theoremWord, Mode.source.continuesWord c = true :=
    List.all_eq_true.mp rfl
  have huncommented : Mode.source.Uncommented before := fun hm => nomatch hm
  have hbefore : ∀ c ∈ before.getLast?, Mode.source.continuesWord c = false := by
    intro c hc
    rw [hlast c hc]
    rfl
  have hafter : ∀ c ∈ rest.head?, Mode.source.continuesWord c = false := by
    intro c hc
    rw [hhead] at hc
    cases hc
    rfl
  exact mem_ofText_of_stands (.keyword rfl huncommented hrun hbefore hafter hword rfl)

/-- A colon is marked wherever it stands. -/
theorem mark_colon (before rest : Text) :
    mark .operatorSymbol ⟨Text.size before, [':']⟩
      ∈ ofText .source (before ++ ([':'] ++ rest)) := by
  have hcolon : Mode.source.Spells (.literal .operatorSymbol) [':'] :=
    Mode.spells_source_iff.mpr (.inl (.operator (by decide)))
  have huncommented : Mode.source.Uncommented before := fun hm => nomatch hm
  exact mem_ofText_of_stands (.symbol rfl huncommented hcolon rfl)

end Span

-- ========================================================== agreement

namespace Outline

/-- What highlighting marks of a declaration on a line. -/
structure Marked (spans : List Span) (line : Extent) (d : Declaration) : Prop where
  word : ∃ span ∈ spans, span.start = line.start ∧ span.stop = line.start + 7
    ∧ span.item = ⟨some .controlKeyword, Vocabulary.theoremWord⟩
  colon : ∃ span ∈ spans, span.start = d.extent.stop ∧ span.stop = d.extent.stop + 1
    ∧ span.item = ⟨some .operatorSymbol, [':']⟩
  /-- Of the colons that are marked from the word on, it is the first. -/
  first : ∀ span ∈ spans, span.item = ⟨some .operatorSymbol, [':']⟩ →
    line.start ≤ span.start → d.extent.stop ≤ span.start

/-- A declaration in its text: the word at the start of a line, a space and more
without a colon, and a colon where the name ends. -/
theorem DeclaredBy.exists_text {text : Text} {line : Text.Located Text} {d : Declaration}
    (hd : DeclaredBy line d) (hline : line ∈ Text.placedLines 0 text) :
    ∃ before front rest, text = before ++ (Vocabulary.theoremWord ++ (front ++ ([':'] ++ rest)))
      ∧ (∀ c ∈ before.getLast?, c = '\n') ∧ front.head? = some ' ' ∧ ':' ∉ front
      ∧ line.start = Text.size before
      ∧ d.extent.stop = Text.size before + (7 + Text.size front) := by
  obtain ⟨before, after, rfl, -, hlast, -, hstart⟩ := Text.mem_placedLines_iff.mp hline
  obtain ⟨spaces, ⟨hpos, -, hcolon, rest, hitem⟩, hoffset⟩ := hd
  refine ⟨before, List.replicate spaces ' ' ++ d.name, rest ++ after, ?_, hlast, ?_, ?_, hstart, ?_⟩
  · rw [hitem]
    simp only [List.append_assoc, List.cons_append, List.nil_append]
  · rw [List.head?_append, List.head?_replicate, if_neg hpos.ne', Option.some_or]
  · rw [List.mem_append, not_or]
    refine ⟨fun hmem => ?_, hcolon⟩
    exact absurd (List.eq_of_mem_replicate hmem) (by decide)
  · have hextent : d.extent.stop = d.offset + Text.size d.name := rfl
    rw [Text.size_append, size_replicate_space]
    omega

/-- The keyword and the colon of a declaration are marked on the line that
declares it. -/
theorem marked_of_declaredBy {text : Text} {line : Text.Located Text} {d : Declaration}
    (hd : DeclaredBy line d) (hline : line ∈ Text.placedLines 0 text) :
    Marked (Span.ofText .source text) (Text.lineExtent line) d := by
  obtain ⟨before, front, rest, rfl, hlast, hspace, hcolon, hstart, hstop⟩ := hd.exists_text hline
  have hstart' : (Text.lineExtent line).start = Text.size before := hstart
  have hsize : Text.size (Vocabulary.theoremWord ++ front) = 7 + Text.size front :=
    Text.size_append _ _
  have hfront : ':' ∉ Vocabulary.theoremWord ++ front := by
    rw [List.mem_append, not_or]
    exact ⟨by decide, hcolon⟩
  exact {
    word := by
      have hhead : (front ++ ([':'] ++ rest)).head? = some ' ' := by
        rw [List.head?_append, hspace, Option.some_or]
      refine ⟨_, Span.mark_theoremWord hlast hhead, hstart'.symm, ?_, rfl⟩
      rw [hstart']
      rfl
    colon := by
      have hmark := Span.mark_colon (before ++ (Vocabulary.theoremWord ++ front)) rest
      rw [List.append_assoc, List.append_assoc, Text.size_append, hsize, ← hstop] at hmark
      exact ⟨_, hmark, rfl, rfl, rfl⟩
    first := by
      intro span hspan hitem hle
      have hoccurs := Span.occurs_of_mem_ofText hspan
      rw [hitem, ← List.append_assoc Vocabulary.theoremWord] at hoccurs
      have hpast := Text.le_of_occurs hoccurs hfront (hstart' ▸ hle)
      rw [hsize, ← hstop] at hpast
      exact hpast }

/-- The outline and highlighting agree. A declaration of a text is on one line. The
line begins with the word `theorem`, marked as a keyword, the name is followed by a
colon, marked as an operator, and no colon between the two is marked. -/
theorem declaration_highlighted (text : Text) (d : Declaration) (hd : d ∈ declarations text) :
    (∃! line : Extent, text.IsLine line ∧ line.start ≤ d.offset ∧ d.offset ≤ line.stop)
      ∧ ∀ line : Extent, text.IsLine line → line.start ≤ d.offset → d.offset ≤ line.stop →
          Marked (Span.ofText .source text) line d := by
  obtain ⟨line, hline, hdeclared⟩ := mem_declarations_iff.mp hd
  have hisLine : text.IsLine (Text.lineExtent line) :=
    Text.mem_lineExtents_iff.mp (List.mem_map_of_mem hline)
  have hoffset : (Text.lineExtent line).start ≤ d.offset
      ∧ d.offset ≤ (Text.lineExtent line).stop := by
    obtain ⟨hstart, hstop⟩ := hdeclared.bounds
    exact ⟨hstart, d.extent.start_le_stop.trans hstop.le⟩
  have hunique : ∀ r : Extent, text.IsLine r → r.start ≤ d.offset → d.offset ≤ r.stop →
      r = Text.lineExtent line :=
    fun r hr hle hge => hr.unique hisLine ⟨hle, hge⟩ hoffset
  refine ⟨⟨_, ⟨hisLine, hoffset⟩, fun r hr => hunique r hr.1 hr.2.1 hr.2.2⟩, ?_⟩
  intro r hr hle hge
  rw [hunique r hr hle hge]
  exact marked_of_declaredBy hdeclared hline

/-- The name need not be a word; an arrow in it is marked, but it is no colon. -/
theorem declaration_highlighted_around_arrow :
    (⟨"é->".toList, 10⟩ : Declaration) ∈ declarations "=\ntheorem é->:x".toList
      ∧ Text.IsLine "=\ntheorem é->:x".toList ⟨2, 16, by decide⟩
      ∧ Marked (Span.ofText .source "=\ntheorem é->:x".toList) ⟨2, 16, by decide⟩
          ⟨"é->".toList, 10⟩ := by
  have hd : (⟨"é->".toList, 10⟩ : Declaration) ∈ declarations "=\ntheorem é->:x".toList := by
    decide
  have hline : Text.IsLine "=\ntheorem é->:x".toList ⟨2, 16, by decide⟩ :=
    Text.mem_lineExtents_iff.mp (by decide)
  obtain ⟨-, hmarked⟩ := declaration_highlighted _ _ hd
  exact ⟨hd, hline, hmarked _ hline (by decide) (by decide)⟩

end Outline

end CryptolEdit
