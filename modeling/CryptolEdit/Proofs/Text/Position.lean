import CryptolEdit.Proofs.Text.Line
import CryptolEdit.Text.Position

/-!
Positions, line by line.

A position is found one character at a time. What it comes to is a matter of lines:
up to the first newline an offset is its own column (`ofOffset_of_le`), and an offset
past a text and a newline is where it would be without them, but as many lines further
down as the text has (`ofOffset_append_newline`). A line takes at least the byte of its
newline, so neither part of a position is greater than the offset (`line_add_col_le`).
-/

namespace CryptolEdit

/-- There is one line more than there are newlines. -/
theorem Text.length_lines (t : Text) : t.lines.length = t.count '\n' + 1 := by
  induction t using line_induction with
  | last line hline => rw [lines_eq_singleton hline, List.count_eq_zero.mpr hline]; rfl
  | next line rest hline ih =>
      rw [lines_append_newline, lines_eq_singleton hline, List.length_append, ih,
        List.count_append, List.count_eq_zero.mpr hline, List.count_cons_self,
        List.length_singleton]
      omega

namespace Position

-- ========================================================== one character

/-- The position once so many lines stand above it. -/
def below (lines : Nat) (p : Position) : Position := ⟨lines + p.line, p.col⟩

/-- To be some lines further down twice is to be further down by both counts. -/
theorem below_below (m n : Nat) (p : Position) : below m (below n p) = below (m + n) p := by
  unfold below
  rw [Nat.add_assoc]

/-- What stands in front on its own line does not move a position on a later one. -/
theorem after_below_succ (bytes n : Nat) (p : Position) :
    after bytes (below (n + 1) p) = below (n + 1) p := by
  have hline : (below (n + 1) p).line ≠ 0 := by
    show n + 1 + p.line ≠ 0
    omega
  exact if_neg hline

theorem ofOffset_zero (t : Text) : ofOffset t 0 = ⟨0, 0⟩ := by
  cases t with
  | nil => rfl
  | cons c t => exact if_pos c.utf8Size_pos

/-- Behind a newline, positions are counted anew one line further down. -/
theorem ofOffset_newline (t : Text) (n : Nat) :
    ofOffset ('\n' :: t) (1 + n) = below 1 (ofOffset t n) := by
  have hpast : ¬1 + n < Char.utf8Size '\n' := by
    show ¬1 + n < 1
    omega
  have hrest : 1 + n - Char.utf8Size '\n' = n := Nat.add_sub_cancel_left 1 n
  rw [ofOffset, if_neg hpast, hrest, if_pos rfl, below, Nat.add_comm 1]

/-- Behind any other character, positions on the same line are further on by its
bytes. -/
theorem ofOffset_cons {c : Char} (hc : c ≠ '\n') (t : Text) (n : Nat) :
    ofOffset (c :: t) (c.utf8Size + n) = after c.utf8Size (ofOffset t n) := by
  have hpast : ¬c.utf8Size + n < c.utf8Size := by omega
  rw [ofOffset, if_neg hpast, Nat.add_sub_cancel_left, if_neg hc]

-- ================================================================ lines

/-- On the first line an offset is its own column. -/
theorem ofOffset_of_le {line : Text} (hline : '\n' ∉ line) (rest : Text) {offset : Nat}
    (hle : offset ≤ Text.size line) : ofOffset (line ++ rest) offset = ⟨0, offset⟩ := by
  induction line generalizing offset with
  | nil =>
      have hzero : offset = 0 := Nat.le_zero.mp hle
      rw [hzero, ofOffset_zero]
  | cons c line ih =>
      obtain ⟨hc, hline⟩ := not_or.mp (mt List.mem_cons.mpr hline)
      by_cases hinside : offset < c.utf8Size
      · exact if_pos hinside
      · obtain ⟨n, rfl⟩ := Nat.exists_eq_add_of_le (Nat.le_of_not_lt hinside)
        have hn : n ≤ Text.size line := by
          rw [Text.size_cons] at hle
          omega
        rw [List.cons_append, ofOffset_cons (Ne.symm hc), ih hline hn]
        rfl

/-- Behind a whole line, positions are counted anew one line further down. -/
theorem ofOffset_line_newline {line : Text} (hline : '\n' ∉ line) (rest : Text) (n : Nat) :
    ofOffset (line ++ '\n' :: rest) (Text.size line + 1 + n) = below 1 (ofOffset rest n) := by
  induction line with
  | nil =>
      rw [Text.size_nil, Nat.zero_add]
      exact ofOffset_newline rest n
  | cons c line ih =>
      obtain ⟨hc, hline⟩ := not_or.mp (mt List.mem_cons.mpr hline)
      rw [List.cons_append, Text.size_cons, Nat.add_assoc, Nat.add_assoc,
        ofOffset_cons (Ne.symm hc), ← Nat.add_assoc, ih hline, after_below_succ]

/-- Past a text and a newline, all is as it would be without them, some lines further
down. -/
theorem ofOffset_append_newline (t rest : Text) (n : Nat) :
    ofOffset (t ++ '\n' :: rest) (Text.size t + 1 + n)
      = below (t.count '\n' + 1) (ofOffset rest n) := by
  induction t using Text.line_induction generalizing n with
  | last line hline =>
      rw [ofOffset_line_newline hline, List.count_eq_zero.mpr hline]
  | next line upper hline ih =>
      have hsize : Text.size (line ++ '\n' :: upper) + 1 + n
          = Text.size line + 1 + (Text.size upper + 1 + n) := by
        have hnewline : Char.utf8Size '\n' = 1 := rfl
        rw [Text.size_append, Text.size_cons, hnewline]
        omega
      have hcount : (line ++ '\n' :: upper).count '\n' + 1 = 1 + (upper.count '\n' + 1) := by
        rw [List.count_append, List.count_eq_zero.mpr hline, List.count_cons_self]
        omega
      rw [hsize, hcount, List.append_assoc, List.cons_append, ofOffset_line_newline hline, ih,
        below_below]

theorem line_add_col_after_le (bytes : Nat) (p : Position) :
    (after bytes p).line + (after bytes p).col ≤ bytes + (p.line + p.col) := by
  unfold after
  split
  · next hline =>
      show p.line + (bytes + p.col) ≤ _
      omega
  · exact Nat.le_add_left _ _

/-- Every line above takes a byte at least, and every column is one. -/
theorem line_add_col_le (t : Text) (offset : Nat) :
    (ofOffset t offset).line + (ofOffset t offset).col ≤ offset := by
  induction t generalizing offset with
  | nil => exact Nat.zero_le _
  | cons c t ih =>
      by_cases hinside : offset < c.utf8Size
      · rw [ofOffset, if_pos hinside, Nat.zero_add]
      · obtain ⟨n, rfl⟩ := Nat.exists_eq_add_of_le (Nat.le_of_not_lt hinside)
        by_cases hc : c = '\n'
        · subst hc
          have hrest := ih n
          rw [show Char.utf8Size '\n' = 1 from rfl, ofOffset_newline]
          show 1 + (ofOffset t n).line + (ofOffset t n).col ≤ 1 + n
          omega
        · rw [ofOffset_cons hc]
          exact (line_add_col_after_le _ _).trans (Nat.add_le_add_left (ih n) _)

end Position

end CryptolEdit
