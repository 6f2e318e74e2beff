import CryptolEdit.Proofs.Text.Position
import CryptolEdit.Proofs.Text.Utf8

/-!
Offsets and positions, one for one.

`Position.Measures` says what a position counts: whole lines, newlines included, and
then bytes among which there is no newline, up to the offset. The position of an offset
counts what stands before it (`measures_ofOffset`), so the offset can be had back from
the position and the text.

Positions are in the order of their offsets (`compare_ofOffset_eq_lt_iff`). This does not
follow from what they count, since a last line without a newline is counted either as a
line or as a column. It is a second induction over lines: two offsets on the first line
differ in their columns, an offset on the first line comes before all later ones in both
orders, and two later ones are compared without the first line.

The same induction shows that a position can be found by two scans over bytes, forwards
for newlines and backwards for the start of the last line (`ofOffset_eq_ofBytes`).
-/

namespace CryptolEdit

namespace Text

-- ========================================================== whole lines

/-- The lines of a text, each with the newline that ends it. What follows the last
newline is a line if there is anything. -/
def wholeLines : Text → List Text
  | [] => []
  | c :: t =>
    if c = '\n' then
      [c] :: wholeLines t
    else
      match wholeLines t with
      | [] => [[c]]
      | line :: lines => (c :: line) :: lines

/-- A line and its newline are the first whole line of what they begin. -/
theorem wholeLines_append_newline {line : Text} (hline : '\n' ∉ line) (rest : Text) :
    wholeLines (line ++ '\n' :: rest) = (line ++ ['\n']) :: wholeLines rest := by
  induction line with
  | nil => rfl
  | cons c line ih =>
      obtain ⟨hc, hline⟩ := not_or.mp (mt List.mem_cons.mpr hline)
      rw [List.cons_append, wholeLines, if_neg (Ne.symm hc), ih hline]
      rfl

end Text

namespace Position

-- ======================================================== what is counted

/-- The position counts what a text has before an offset. -/
structure Measures (t : Text) (p : Position) (offset : Nat) : Prop where
  line_le : p.line ≤ t.wholeLines.length
  /-- The lines above and the column make up the offset. -/
  size_add_col : Text.size (t.wholeLines.take p.line).flatten + p.col = offset
  /-- The column is all on one line. -/
  no_newline : ∀ i, offset ≤ i + p.col → i < offset → (Text.encode t)[i]? ≠ some 0x0a

/-- On the first line the column counts all there is. -/
theorem measures_of_le {line : Text} (hline : '\n' ∉ line) (rest : Text) {offset : Nat}
    (hle : offset ≤ Text.size line) : Measures (line ++ rest) ⟨0, offset⟩ offset where
  line_le := Nat.zero_le _
  size_add_col := Nat.zero_add offset
  no_newline := by
    intro i _ hi hbyte
    have hinside : i < (Text.encode line).length := by
      rw [Text.length_encode]
      omega
    rw [Text.encode_append, List.getElem?_append_left hinside] at hbyte
    exact Text.newline_notMem_encode hline (List.mem_of_getElem? hbyte)

/-- One line more above is counted as a line and does not move the column. -/
theorem Measures.below {line rest : Text} {p : Position} {n : Nat} (h : Measures rest p n)
    (hline : '\n' ∉ line) :
    Measures (line ++ '\n' :: rest) (p.below 1) (Text.size line + 1 + n) := by
  have hlines := Text.wholeLines_append_newline hline rest
  have hsize : Text.size (line ++ ['\n']) = Text.size line + 1 := Text.size_append _ _
  have htext : line ++ '\n' :: rest = (line ++ ['\n']) ++ rest := List.append_cons _ _ _
  refine ⟨?_, ?_, ?_⟩
  · show 1 + p.line ≤ _
    rw [hlines, List.length_cons, Nat.add_comm]
    exact Nat.succ_le_succ h.line_le
  · show Text.size ((Text.wholeLines _).take (1 + p.line)).flatten + p.col = _
    rw [hlines, Nat.add_comm 1, List.take_succ_cons, List.flatten_cons, Text.size_append, hsize,
      Nat.add_assoc, h.size_add_col]
  · intro i hcol hi
    have hn := h.size_add_col
    change Text.size line + 1 + n ≤ i + p.col at hcol
    obtain ⟨j, rfl⟩ := Nat.exists_eq_add_of_le (show Text.size line + 1 ≤ i by omega)
    rw [htext, ← hsize, Text.getElem?_encode_append]
    exact h.no_newline j (by omega) (by omega)

/-- An offset on the first line, or on a later one. -/
theorem offset_cases (line : Text) (offset : Nat) :
    offset ≤ Text.size line ∨ ∃ n, offset = Text.size line + 1 + n := by
  rcases Nat.lt_or_ge (Text.size line) offset with hpast | hle
  · exact .inr (Nat.exists_eq_add_of_le hpast)
  · exact .inl hle

theorem size_line_newline (line rest : Text) :
    Text.size (line ++ '\n' :: rest) = Text.size line + 1 + Text.size rest := by
  rw [Text.size_append, Text.size_cons, ← Nat.add_assoc]
  rfl

/-- The position of an offset measures it. -/
theorem measures_ofOffset {t : Text} {offset : Nat} (hle : offset ≤ Text.size t) :
    Measures t (ofOffset t offset) offset := by
  induction t using Text.line_induction generalizing offset with
  | last line hline =>
      have hfirst := measures_of_le hline [] hle
      rw [← ofOffset_of_le hline [] hle, List.append_nil] at hfirst
      exact hfirst
  | next line rest hline ih =>
      rcases offset_cases line offset with hfirst | ⟨n, rfl⟩
      · rw [ofOffset_of_le hline _ hfirst]
        exact measures_of_le hline _ hfirst
      · rw [ofOffset_line_newline hline]
        rw [size_line_newline] at hle
        exact (ih (Nat.le_of_add_le_add_left hle)).below hline

/-- Offsets past the end are taken for the end. -/
theorem ofOffset_min (t : Text) (offset : Nat) :
    ofOffset t (min offset (Text.size t)) = ofOffset t offset := by
  induction t generalizing offset with
  | nil => rfl
  | cons c t ih =>
      by_cases hinside : offset < c.utf8Size
      · rw [Nat.min_eq_left (by rw [Text.size_cons]; omega)]
      · obtain ⟨n, rfl⟩ := Nat.exists_eq_add_of_le (Nat.le_of_not_lt hinside)
        rw [Text.size_cons, Nat.add_min_add_left]
        by_cases hc : c = '\n'
        · subst hc
          rw [show Char.utf8Size '\n' = 1 from rfl, ofOffset_newline, ofOffset_newline, ih]
        · rw [ofOffset_cons hc, ofOffset_cons hc, ih]

-- ============================================================ two scans

/-- Where no newline comes before, the line starts with the text. -/
theorem lineStart_of_notMem {bytes : Bytes} (h : 0x0a ∉ bytes) : lineStart bytes = 0 := by
  have hnone : bytes.reverse.findIdx? (· == 0x0a) = none := by
    rw [List.findIdx?_eq_none_iff]
    intro b hb
    exact beq_false_of_ne fun hb' => h (hb' ▸ List.mem_reverse.mp hb)
  unfold lineStart
  rw [hnone]

/-- Looking back, a newline is met only if there is none behind it. -/
theorem lineStart_append_newline (above below : Bytes) :
    lineStart (above ++ 0x0a :: below) = above.length + 1 + lineStart below := by
  have hreverse : (above ++ 0x0a :: below).reverse = below.reverse ++ 0x0a :: above.reverse := by
    rw [List.reverse_append, List.reverse_cons, List.append_assoc, List.singleton_append]
  have hlength : (above ++ 0x0a :: below).length = above.length + 1 + below.length := by
    rw [List.length_append, List.length_cons]
    omega
  have hnewline : (0x0a :: above.reverse).findIdx? (· == (0x0a : UInt8)) = some 0 := rfl
  unfold lineStart
  rw [hreverse, List.findIdx?_append, hlength, hnewline]
  cases hback : below.reverse.findIdx? (· == 0x0a) with
  | none =>
      simp only [Option.none_or, Option.map_some, List.length_reverse]
      omega
  | some count =>
      have hlt := (List.findIdx?_eq_some_iff_findIdx_eq.mp hback).1
      rw [List.length_reverse] at hlt
      simp only [Option.some_or]
      omega

/-- Where no newline comes before, all the bytes are on the first line. -/
theorem atEnd_of_notMem {bytes : Bytes} (h : 0x0a ∉ bytes) : atEnd bytes = ⟨0, bytes.length⟩ := by
  unfold atEnd
  rw [lineStart_of_notMem h, List.count_eq_zero_of_not_mem h, Nat.sub_zero]

/-- A line of bytes above others moves their end down by one line. -/
theorem atEnd_append_newline {line : Bytes} (hline : 0x0a ∉ line) (rest : Bytes) :
    atEnd (line ++ 0x0a :: rest) = (atEnd rest).below 1 := by
  have hcol : line.length + (rest.length + 1) - (line.length + 1 + lineStart rest)
      = rest.length - lineStart rest := by omega
  unfold atEnd below
  rw [lineStart_append_newline, List.count_append, List.count_cons_self,
    List.count_eq_zero_of_not_mem hline, List.length_append, List.length_cons, hcol, Nat.zero_add,
    Nat.add_comm]

/-- A position is what the two scans over the encoded text find. -/
theorem ofOffset_eq_ofBytes (t : Text) (offset : Nat) :
    ofOffset t offset = ofBytes (Text.encode t) offset := by
  have hle := Nat.min_le_right offset (Text.size t)
  unfold ofBytes
  rw [← ofOffset_min, Text.length_encode]
  generalize min offset (Text.size t) = n at hle
  induction t using Text.line_induction generalizing n with
  | last line hline =>
      have hbytes := Text.newline_notMem_encode hline
      have hfirst := ofOffset_of_le hline [] hle
      rw [List.append_nil] at hfirst
      rw [hfirst, atEnd_of_notMem fun h => hbytes (List.mem_of_mem_take h), List.length_take,
        Text.length_encode, Nat.min_eq_left hle]
  | next line rest hline ih =>
      have hbytes := Text.newline_notMem_encode hline
      have hencode : Text.encode (line ++ '\n' :: rest)
          = Text.encode line ++ 0x0a :: Text.encode rest := Text.encode_append _ _
      rw [hencode]
      rcases offset_cases line n with hfirst | ⟨m, rfl⟩
      · rw [ofOffset_of_le hline _ hfirst,
          List.take_append_of_le_length (by rwa [Text.length_encode]),
          atEnd_of_notMem fun h => hbytes (List.mem_of_mem_take h), List.length_take,
          Text.length_encode, Nat.min_eq_left hfirst]
      · rw [size_line_newline] at hle
        rw [ofOffset_line_newline hline, ih m (Nat.le_of_add_le_add_left hle),
          ← Text.length_encode line, Nat.add_assoc, List.take_length_add_append, Nat.add_comm 1,
          List.take_succ_cons, atEnd_append_newline hbytes]

-- ================================================================= order

/-- A position comes before another one by its line, and on one line by its
column. -/
theorem compare_eq_lt_iff {p q : Position} :
    compare p q = .lt ↔ p.line < q.line ∨ p.line = q.line ∧ p.col < q.col := by
  unfold compare
  rw [Ordering.then_eq_lt, Nat.compare_eq_lt, Nat.compare_eq_eq, Nat.compare_eq_lt]

/-- In a text, positions come in the order of their offsets. -/
theorem compare_ofOffset_eq_lt_iff {t : Text} {offset offset' : Nat}
    (hle : offset ≤ Text.size t) (hle' : offset' ≤ Text.size t) :
    compare (ofOffset t offset) (ofOffset t offset') = .lt ↔ offset < offset' := by
  rw [compare_eq_lt_iff]
  induction t using Text.line_induction generalizing offset offset' with
  | last line hline =>
      have hposition := ofOffset_of_le hline [] hle
      have hposition' := ofOffset_of_le hline [] hle'
      rw [List.append_nil] at hposition hposition'
      rw [hposition, hposition']
      dsimp only
      omega
  | next line rest hline ih =>
      rw [size_line_newline] at hle hle'
      rcases offset_cases line offset with hfirst | ⟨n, rfl⟩
      · rcases offset_cases line offset' with hfirst' | ⟨n', rfl⟩
        · rw [ofOffset_of_le hline _ hfirst, ofOffset_of_le hline _ hfirst']
          dsimp only
          omega
        · rw [ofOffset_of_le hline _ hfirst, ofOffset_line_newline hline]
          dsimp only [below]
          omega
      · rcases offset_cases line offset' with hfirst' | ⟨n', rfl⟩
        · rw [ofOffset_line_newline hline, ofOffset_of_le hline _ hfirst']
          dsimp only [below]
          omega
        · have hrest := ih (Nat.le_of_add_le_add_left hle) (Nat.le_of_add_le_add_left hle')
          rw [ofOffset_line_newline hline, ofOffset_line_newline hline]
          dsimp only [below]
          omega

/-- Offsets and positions tell each other, in the same order. The lines above a position
and its column make up the offset, or the end of the text for an offset past it, and the
column has no newline in it. Neither number is greater than the offset, so that 32 bits
hold them in a text of less than 2 ^ 32 bytes. Of two offsets the smaller has the smaller
position, and offsets with one position are one offset. -/
theorem ofOffset_ordered (t : Text) :
    (∀ offset, Measures t (ofOffset t offset) (min offset (Text.size t))
        ∧ (ofOffset t offset).line + (ofOffset t offset).col ≤ min offset (Text.size t))
      ∧ ∀ offset offset',
        (min offset (Text.size t) < min offset' (Text.size t)
            ↔ compare (ofOffset t offset) (ofOffset t offset') = .lt)
          ∧ (min offset (Text.size t) = min offset' (Text.size t)
            ↔ ofOffset t offset = ofOffset t offset') := by
  have hmeasures : ∀ offset, Measures t (ofOffset t offset) (min offset (Text.size t)) := by
    intro offset
    rw [← ofOffset_min]
    exact measures_ofOffset (Nat.min_le_right _ _)
  refine ⟨fun offset => ⟨hmeasures offset, ?_⟩, fun offset offset' => ⟨?_, ?_, ?_⟩⟩
  · rw [← ofOffset_min]
    exact line_add_col_le t _
  · rw [← ofOffset_min t offset, ← ofOffset_min t offset']
    exact (compare_ofOffset_eq_lt_iff (Nat.min_le_right _ _) (Nat.min_le_right _ _)).symm
  · intro hoffset
    rw [← ofOffset_min t offset, hoffset, ofOffset_min]
  · intro hposition
    rw [← (hmeasures offset).size_add_col, ← (hmeasures offset').size_add_col, hposition]

/-- Two empty lines, an offset inside a character, and one past the end. -/
example : (List.range 7).map (ofOffset "é\n\nx".toList)
    = [⟨0, 0⟩, ⟨0, 1⟩, ⟨0, 2⟩, ⟨1, 0⟩, ⟨2, 0⟩, ⟨2, 1⟩, ⟨2, 1⟩] := by decide

end Position

end CryptolEdit
