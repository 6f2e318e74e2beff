import CryptolEdit.Proofs.Highlight.Piece
import CryptolEdit.Proofs.Text.Line

/-!
Highlighting line by line.

Lines need not begin or end where lexemes do. Blanks run across several of them
and take the indentation with them. But blanks are all that does, and blanks have
no mark: every newline confines what stands before it and what stands after it.
So a text has the marks of its lines, each highlighted on its own
(`flatMap_placedLines_marks`), and no others.
-/

namespace CryptolEdit

-- ==================================================== lexing by lines

namespace Mode

variable {m : Mode}

/-- No mark contains a newline. -/
theorem newline_notMem_of_mem_marks {base : Nat} {t : Text} {token : Token}
    (h : token ∈ m.marks base t) : '\n' ∉ token.item.text := by
  obtain ⟨before, l, after, hscan, hcategory, rfl⟩ := mem_marks_iff.mp h
  exact ((m.munched_scan t).2 before l after hscan).newline_notMem hcategory

/-- A newline between two texts separates their marks. -/
theorem marks_append_newline (base : Nat) (t rest : Text) :
    m.marks base (t ++ '\n' :: rest)
      = m.marks base t ++ m.marks (base + Text.size (t ++ ['\n'])) rest := by
  have hconfined : m.Confined t ('\n' :: rest) :=
    confined_of_newline (.inr fun c hc => (Option.some.inj hc).symm)
  have hblank : ∀ c ∈ ['\n'], c ∈ blanks := List.forall_mem_singleton.mpr (by decide)
  rw [marks_append base hconfined, ← List.singleton_append, marks_blanks _ hblank,
    Text.size_append, Nat.add_assoc]

/-- A text has the marks of its lines. -/
theorem flatMap_placedLines_marks (base : Nat) (t : Text) :
    (Text.placedLines base t).flatMap (fun line => m.marks line.start line.item)
      = m.marks base t := by
  unfold Text.placedLines
  induction t using Text.line_induction generalizing base with
  | last t hmem =>
      rw [Text.lines_eq_singleton hmem, Text.place, Text.place, List.flatMap_singleton]
  | next line rest hmem ih =>
      rw [Text.lines_append_newline, Text.lines_eq_singleton hmem, List.singleton_append,
        Text.place, List.flatMap_cons, ih, marks_append_newline]

end Mode

-- =============================================== highlighting by lines

namespace Span

theorem lies_of_mem_map_marks {m : Mode} {base : Nat} {t : Text} {span : Span}
    (h : span ∈ (m.marks base t).map ofToken) :
    Text.Lies Piece.text base (base + Text.size t) span := by
  obtain ⟨token, htoken, rfl⟩ := List.mem_map.mp h
  exact Mode.lies_of_mem_marks htoken

/-- The marks of a text that lie in a line are those of the line. -/
theorem filter_marks_of_isLine (m : Mode) {text : Text} {r : Extent} (h : text.IsLine r) :
    (marks (ofText m text)).filter (fun span => r.Covers Piece.text span)
      = marks (ofExtent m text r) := by
  obtain ⟨before, line, after, rfl, hline, hlast, hhead, hstart, hstop⟩ := h
  have hpart : r.of? (before ++ (line ++ after)) = some line :=
    Extent.of?_eq_some_iff.mpr ⟨before, after, rfl, hstart.symm, hstop.symm⟩
  have hbefore : m.Confined before (line ++ after) := Mode.confined_of_newline (.inl hlast)
  have hinside : m.Confined line after := Mode.confined_of_newline (.inr hhead)
  have hstop' : r.start + Text.size line = r.stop := by rw [hstart, hstop]
  rw [marks_ofExtent hpart, marks_ofText, Mode.marks_append 0 hbefore,
    Mode.marks_append _ hinside, List.map_append, List.map_append, Nat.zero_add, ← hstart, hstop']
  refine Extent.filter_covers 0 _ (fun span hspan => ?_) (fun span hspan => ?_)
    fun span hspan => lies_of_mem_map_marks hspan
  · have hlies := lies_of_mem_map_marks hspan
    rw [Nat.zero_add, ← hstart] at hlies
    exact hlies
  · have hlies := lies_of_mem_map_marks hspan
    rw [hstop'] at hlies
    exact hlies

/-- Line by line, highlighting gives the marks of the text. -/
theorem flatMap_lineExtents_marks (m : Mode) (text : Text) :
    text.lineExtents.flatMap (fun r => marks (ofExtent m text r)) = marks (ofText m text) := by
  have hline : ∀ line ∈ Text.placedLines 0 text, marks (ofExtent m text (Text.lineExtent line))
      = (m.marks line.start line.item).map ofToken :=
    fun line hmem => marks_ofExtent (Text.of?_lineExtent hmem)
  unfold Text.lineExtents
  rw [List.flatMap_map, List.flatMap_congr hline, ← List.map_flatMap,
    Mode.flatMap_placedLines_marks, marks_ofText]

/-- Highlighting is local to lines. No mark contains a newline; in each line
there are the marks that the line has on its own, no more and no less; and the
marks of the lines one after the other are the marks of the text. -/
theorem marks_by_line (m : Mode) (text : Text) :
    (∀ span ∈ marks (ofText m text), '\n' ∉ span.item.text)
      ∧ (∀ r, text.IsLine r →
          (marks (ofText m text)).filter (fun span => r.Covers Piece.text span)
            = marks (ofExtent m text r))
      ∧ (∀ r, r ∈ text.lineExtents ↔ text.IsLine r)
      ∧ text.lineExtents.flatMap (fun r => marks (ofExtent m text r))
          = marks (ofText m text) := by
  refine ⟨fun span hspan => ?_, fun r hr => filter_marks_of_isLine m hr,
    fun r => Text.mem_lineExtents_iff, flatMap_lineExtents_marks m text⟩
  rw [marks_ofText] at hspan
  obtain ⟨token, htoken, rfl⟩ := List.mem_map.mp hspan
  exact Mode.newline_notMem_of_mem_marks htoken

/-- The second line is indented, and blanks run into it from the first. -/
theorem marks_by_line_indented :
    (⟨9, ⟨some .comment, "# b\r".toList⟩⟩ : Span)
        ∈ marks (ofText .batch "set x \n \t# b\r\n\nlet".toList)
      ∧ '\n' ∉ "# b\r".toList
      ∧ Text.IsLine "set x \n \t# b\r\n\nlet".toList ⟨7, 13, by decide⟩
      ∧ (marks (ofText .batch "set x \n \t# b\r\n\nlet".toList)).filter
            (fun span => (⟨7, 13, by decide⟩ : Extent).Covers Piece.text span)
          = marks (ofExtent .batch "set x \n \t# b\r\n\nlet".toList ⟨7, 13, by decide⟩) := by
  have hmark : (⟨9, ⟨some .comment, "# b\r".toList⟩⟩ : Span)
      ∈ marks (ofText .batch "set x \n \t# b\r\n\nlet".toList) := by decide +kernel
  have hline : Text.IsLine "set x \n \t# b\r\n\nlet".toList ⟨7, 13, by decide⟩ :=
    Text.mem_lineExtents_iff.mp (by decide)
  obtain ⟨hnewline, hlines, -⟩ := marks_by_line .batch "set x \n \t# b\r\n\nlet".toList
  exact ⟨hmark, hnewline _ hmark, hline, hlines _ hline⟩

end Span

end CryptolEdit
