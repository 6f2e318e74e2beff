import CryptolEdit.Proofs.Outline.Concat
import CryptolEdit.Proofs.Outline.Grammar
import CryptolEdit.Proofs.Text.Utf8

/-!
Where the entries of an outline are.

An entry has an offset, counted in bytes while the outline goes over the lines, and a
position, counted in lines at the same time. The position is the one that the offset has
in the text (`position_of_mem_ofText`). This is an induction over lines: the first line
is read where it stands, and the entries of the lines below it are those of the rest of
the text, moved down as positions are (`ofText_append_newline`,
`Position.ofOffset_append_newline`).

The offset is that of the name, and the name is followed by the first colon of its line
(`DeclaredBy.exists_name`).
-/

namespace CryptolEdit

namespace Text

/-- At the offset of a character is its first byte. -/
theorem getElem?_encode (before : Text) (c : Char) (after : Text) :
    (encode (before ++ c :: after))[size before]? = (String.utf8EncodeChar c)[0]? := by
  have hpos : 0 < (String.utf8EncodeChar c).length := by
    rw [String.length_utf8EncodeChar]
    exact c.utf8Size_pos
  have hfirst := getElem?_encode_append before (c :: after) 0
  rw [Nat.add_zero] at hfirst
  rw [hfirst, encode_cons, List.getElem?_append_left hpos]

end Text

namespace Outline

-- =========================================================== positions

/-- On a single line an entry is where its offset says. -/
theorem position_on_line {line : Text} (hline : '\n' ∉ line) {e : Entry}
    (he : e ∈ ofText line) :
    e.position = ⟨0, e.declaration.offset⟩ ∧ e.declaration.offset ≤ Text.size line := by
  unfold ofText at he
  rw [Text.lines_eq_singleton hline] at he
  cases h : nameOnLine? line with
  | none =>
      rw [ofLines_cons_of_none h] at he
      cases he
  | some found =>
      obtain ⟨col, name⟩ := found
      obtain ⟨spaces, hdeclares, rfl⟩ := nameOnLine?_eq_some_iff.mp h
      rw [ofLines_cons_of_some h, Nat.zero_add] at he
      obtain rfl := List.mem_singleton.mp he
      have hdeclared : DeclaredBy ⟨0, line⟩ ⟨name, 7 + spaces⟩ :=
        ⟨spaces, hdeclares, by rw [Nat.zero_add]⟩
      have hstop := hdeclared.bounds.2
      rw [Nat.zero_add] at hstop
      exact ⟨rfl, (Declaration.extent _).start_le_stop.trans hstop.le⟩

/-- The running counters give the position of the offset. -/
theorem position_of_mem_ofText {text : Text} {e : Entry} (he : e ∈ ofText text) :
    e.position = Position.ofOffset text e.declaration.offset := by
  induction text using Text.line_induction generalizing e with
  | last line hline =>
      obtain ⟨hposition, hle⟩ := position_on_line hline he
      have hoffset := Position.ofOffset_of_le hline [] hle
      rw [List.append_nil] at hoffset
      rw [hposition, hoffset]
  | next line rest hline ih =>
      rw [ofText_append_newline, List.mem_append] at he
      rcases he with he | he
      · obtain ⟨hposition, hle⟩ := position_on_line hline he
        rw [hposition, Position.ofOffset_of_le hline _ hle]
      · obtain ⟨lower, hlower, rfl⟩ := List.mem_map.mp he
        show lower.position.below _
          = Position.ofOffset _ (Text.size line + 1 + lower.declaration.offset)
        rw [Position.ofOffset_append_newline, ih hlower]

-- =============================================================== names

/-- What an editor finds in the text where a declaration points. -/
structure Points (text : Text) (d : Declaration) : Prop where
  start : text.Boundary d.extent.start
  stop : text.Boundary d.extent.stop
  name : d.extent.of? text = some d.name
  /-- The byte after the name is a colon. -/
  colon : (Text.encode text)[d.extent.stop]? = some 0x3a

/-- A declaration in its text: the name stands at the offset, and a colon after it. -/
theorem DeclaredBy.exists_name {text : Text} {line : Text.Located Text} {d : Declaration}
    (hd : DeclaredBy line d) (hline : line ∈ Text.placedLines 0 text) :
    ∃ before rest, text = before ++ (d.name ++ ':' :: rest) ∧ Text.size before = d.offset := by
  obtain ⟨before, after, rfl, -, -, -, hstart⟩ := Text.mem_placedLines_iff.mp hline
  obtain ⟨spaces, ⟨-, -, -, rest, hitem⟩, hoffset⟩ := hd
  refine ⟨before ++ (Vocabulary.theoremWord ++ List.replicate spaces ' '), rest ++ after, ?_, ?_⟩
  · rw [hitem]
    simp only [List.append_assoc, List.cons_append]
  · have hword : Text.size Vocabulary.theoremWord = 7 := rfl
    rw [Text.size_append, Text.size_append, size_replicate_space, hword, hoffset, hstart,
      Nat.add_assoc]

/-- Every declaration of a text points at its own colon, as the text has it. -/
theorem points_of_mem {text : Text} {d : Declaration} (hd : d ∈ declarations text) :
    Points text d := by
  obtain ⟨line, hline, hdeclared⟩ := mem_declarations_iff.mp hd
  obtain ⟨before, rest, htext, hoffset⟩ := hdeclared.exists_name hline
  have hstop : d.extent.stop = Text.size (before ++ d.name) := by
    rw [Text.size_append, hoffset]
    rfl
  have hname : d.extent.of? text = some d.name :=
    Extent.of?_eq_some_iff.mpr
      ⟨before, ':' :: rest, htext, hoffset, by rw [hstop, Text.size_append]⟩
  obtain ⟨hstart, hstop'⟩ := Extent.exists_of?_iff.mp ⟨d.name, hname⟩
  refine ⟨hstart, hstop', hname, ?_⟩
  rw [hstop, htext, ← List.append_assoc, Text.getElem?_encode]
  rfl

/-- The outline agrees with offsets. Its entries are the declarations, in their order,
each with the position of its offset. The name of a declaration is what stands in its
extent, between characters, and the byte after it is a colon. No number in an entry is
greater than the size of the text, so that 32 bits hold them all in a text of less than
2 ^ 32 bytes. -/
theorem outline_positions (text : Text) :
    ofText text = (declarations text).map (fun d => ⟨d, Position.ofOffset text d.offset⟩)
      ∧ (∀ d ∈ declarations text, Points text d)
      ∧ ∀ e ∈ ofText text, e.position.line + e.position.col ≤ e.declaration.offset
          ∧ e.declaration.extent.stop ≤ Text.size text := by
  refine ⟨?_, fun d hd => points_of_mem hd, fun e he => ⟨?_, ?_⟩⟩
  · unfold declarations
    rw [List.map_map]
    refine (List.map_id (ofText text)).symm.trans (List.map_congr_left fun e he => ?_)
    show e = ⟨e.declaration, Position.ofOffset text e.declaration.offset⟩
    rw [← position_of_mem_ofText he]
  · rw [position_of_mem_ofText he]
    exact Position.line_add_col_le text _
  · obtain ⟨before, hbefore, hsize⟩ := (points_of_mem (List.mem_map_of_mem he)).stop
    obtain ⟨rest, rfl⟩ := hbefore
    rw [← hsize, Text.size_append]
    exact Nat.le_add_right _ _

/-- Accents before the name and in it count as two bytes each, and the last line has no
newline. -/
theorem outline_positions_accented :
    ofText "é\n\ntheorem  ñ:".toList = [⟨⟨"ñ".toList, 13⟩, ⟨2, 9⟩⟩]
      ∧ Points "é\n\ntheorem  ñ:".toList ⟨"ñ".toList, 13⟩
      ∧ Position.ofOffset "é\n\ntheorem  ñ:".toList 13 = ⟨2, 9⟩ := by
  have hentries : ofText "é\n\ntheorem  ñ:".toList = [⟨⟨"ñ".toList, 13⟩, ⟨2, 9⟩⟩] := by decide
  obtain ⟨-, hpoints, -⟩ := outline_positions "é\n\ntheorem  ñ:".toList
  exact ⟨hentries, hpoints _ (by decide), by decide⟩

end Outline

end CryptolEdit
