import CryptolEdit.Proofs.Highlight.Piece

/-!
What highlighting a part has to do with highlighting the whole.

A part may begin and end anywhere between characters, inside a word or inside a
comment even. Its spans may then differ from those of the whole, as the rest of a
comment is taken for commands; but no mark that lies in the part is lost
(`ofExtent_keeps_marks`). Where the part begins and ends with spans of the whole,
nothing differs at all (`ofExtent_eq_filter_covers`).
-/

namespace CryptolEdit

namespace Span

-- ======================================================= parts at large

/-- Highlighting a part loses nothing. Every mark of the whole text that lies in
the part is a span of the part, at the same place and with the same category,
wherever the part is cut. -/
theorem ofExtent_keeps_marks (m : Mode) (text : Text) (r : Extent)
    (hstart : text.Boundary r.start) (hstop : text.Boundary r.stop) (span : Span)
    (hmark : span ∈ marks (ofText m text)) (hcovers : r.Covers Piece.text span) :
    span ∈ ofExtent m text r := by
  obtain ⟨part, hpart⟩ := Extent.exists_of?_iff.mpr ⟨hstart, hstop⟩
  obtain ⟨before, after, rfl, hbefore, hupto⟩ := Extent.of?_eq_some_iff.mp hpart
  rw [marks_ofText] at hmark
  obtain ⟨token, htoken, rfl⟩ := List.mem_map.mp hmark
  obtain ⟨hfrom, hto⟩ := hcovers
  -- first the end of the part, then its start
  rw [← List.append_assoc] at htoken
  have hfront : token ∈ m.marks 0 (before ++ part) := by
    refine Mode.mem_marks_of_ending_le htoken ?_
    rw [Nat.zero_add, Text.size_append, hupto]
    exact hto
  have hinside : token ∈ m.marks r.start part := by
    rw [← hbefore, ← Nat.zero_add (Text.size before)]
    refine Mode.mem_marks_of_le_start hfront ?_
    rw [Nat.zero_add, hbefore]
    exact hfrom
  have hkept : ofToken token ∈ marks (ofExtent m (before ++ (part ++ after)) r) := by
    rw [marks_ofExtent hpart]
    exact List.mem_map_of_mem hinside
  exact (List.mem_filter.mp hkept).1

/-- The part begins and ends inside a comment. What is left of the first comment
is read as a command, and its last blanks run on into the next line. -/
theorem ofExtent_keeps_keyword_after_cut_comment :
    Text.Boundary "# set \n let #x".toList 2 ∧ Text.Boundary "# set \n let #x".toList 13
      ∧ (⟨8, ⟨some .controlKeyword, "let".toList⟩⟩ : Span)
          ∈ marks (ofText .batch "# set \n let #x".toList)
      ∧ (⟨8, ⟨some .controlKeyword, "let".toList⟩⟩ : Span)
          ∈ ofExtent .batch "# set \n let #x".toList ⟨2, 13, by decide⟩ := by
  have hmark : (⟨8, ⟨some .controlKeyword, "let".toList⟩⟩ : Span)
      ∈ marks (ofText .batch "# set \n let #x".toList) := by decide +kernel
  exact ⟨by decide, by decide, hmark,
    ofExtent_keeps_marks .batch _ ⟨2, 13, by decide⟩ (by decide) (by decide) _ hmark (by decide)⟩

-- ==================================================== parts at span bounds

/-- An end of the text, or the start of one of its spans. -/
def Bound (m : Mode) (text : Text) (offset : Nat) : Prop :=
  offset = 0 ∨ offset = Text.size text ∨ ∃ span ∈ ofText m text, span.start = offset

/-- A bound of spans is where some pieces end and the others begin. -/
theorem exists_pieces_of_bound {m : Mode} {text : Text} {offset : Nat}
    (h : Bound m text offset) :
    ∃ ps ps', Piece.ofText m text = ps ++ ps'
      ∧ offset = Text.size (ps.flatMap Piece.text) := by
  rcases h with rfl | rfl | ⟨span, hspan, rfl⟩
  · exact ⟨[], _, rfl, rfl⟩
  · exact ⟨_, [], (List.append_nil _).symm, by rw [Piece.flatMap_text_ofText]⟩
  · obtain ⟨before, p, after, heq, rfl⟩ := (Text.mem_place_iff _).mp hspan
    exact ⟨before, p :: after, heq, Nat.zero_add _⟩

/-- Between two bounds there are whole pieces. -/
theorem exists_pieces_between {m : Mode} {text : Text} {r : Extent}
    (hstart : Bound m text r.start) (hstop : Bound m text r.stop) :
    ∃ before inside after, Piece.ofText m text = before ++ (inside ++ after)
      ∧ Text.size (before.flatMap Piece.text) = r.start
      ∧ r.start + Text.size (inside.flatMap Piece.text) = r.stop := by
  obtain ⟨before, rest, heq, hbefore⟩ := exists_pieces_of_bound hstart
  obtain ⟨upto, after, heq', hupto⟩ := exists_pieces_of_bound hstop
  rcases List.append_eq_append_iff.mp (heq.symm.trans heq') with
    ⟨inside, rfl, rfl⟩ | ⟨inside, rfl, rfl⟩
  · refine ⟨before, inside, after, heq, hbefore.symm, ?_⟩
    rw [hbefore, hupto, List.flatMap_append, Text.size_append]
  · -- the bounds are the same one
    have hle := r.start_le_stop
    rw [hbefore, hupto, List.flatMap_append, Text.size_append] at hle
    refine ⟨upto ++ inside, [], rest, heq, hbefore.symm, ?_⟩
    rw [hbefore, hupto, List.flatMap_append, Text.size_append, List.flatMap_nil, Text.size_nil]
    omega

/-- Highlighting a part that begins and ends with spans of the whole gives the
spans of the whole that lie in it. -/
theorem ofExtent_eq_filter_covers (m : Mode) (text : Text) (r : Extent)
    (hstart : Bound m text r.start) (hstop : Bound m text r.stop) :
    ofExtent m text r = (ofText m text).filter fun span => r.Covers Piece.text span := by
  obtain ⟨before, inside, after, heq, hfrom, hto⟩ := exists_pieces_between hstart hstop
  have hpart : r.of? text = some (inside.flatMap Piece.text) := by
    refine Extent.of?_eq_some_iff.mpr
      ⟨before.flatMap Piece.text, after.flatMap Piece.text, ?_, hfrom, hfrom ▸ hto⟩
    rw [← List.flatMap_append, ← List.flatMap_append, ← heq, Piece.flatMap_text_ofText]
  have hne : ∀ p ∈ before ++ (inside ++ after), p.text ≠ [] := by
    rw [← heq]
    exact Piece.text_ne_nil_of_mem_ofText
  obtain ⟨hbefore, hrest⟩ := List.forall_mem_append.mp hne
  obtain ⟨hinside, hafter⟩ := List.forall_mem_append.mp hrest
  rw [ofExtent_of_some hpart, Piece.ofText_of_infix heq, ofText, heq, Text.place_append,
    Text.place_append, Nat.zero_add, hfrom, hto]
  symm
  refine Extent.filter_covers 0 _ (fun span hspan => ?_) (fun span hspan => ?_)
    fun span hspan => Text.lies_of_mem_place hafter hspan
  · have hlies := Text.lies_of_mem_place hbefore hspan
    rw [Nat.zero_add, hfrom] at hlies
    exact hlies
  · have hlies := Text.lies_of_mem_place hinside hspan
    rw [hto] at hlies
    exact hlies

/-- The words between the brackets are one span, in the part as in the whole. -/
theorem ofExtent_eq_filter_covers_brackets :
    Bound .source "[x y] ->".toList 1 ∧ Bound .source "[x y] ->".toList 6
      ∧ ofExtent .source "[x y] ->".toList ⟨1, 6, by decide⟩
          = (ofText .source "[x y] ->".toList).filter
              fun span => (⟨1, 6, by decide⟩ : Extent).Covers Piece.text span := by
  have hstart : Bound .source "[x y] ->".toList 1 :=
    .inr (.inr ⟨⟨1, ⟨none, "x y".toList⟩⟩, by decide +kernel, rfl⟩)
  have hstop : Bound .source "[x y] ->".toList 6 :=
    .inr (.inr ⟨⟨6, ⟨some .operatorSymbol, "->".toList⟩⟩, by decide +kernel, rfl⟩)
  exact ⟨hstart, hstop, ofExtent_eq_filter_covers .source _ ⟨1, 6, by decide⟩ hstart hstop⟩

end Span

end CryptolEdit
