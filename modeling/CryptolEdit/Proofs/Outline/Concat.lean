import CryptolEdit.Outline
import CryptolEdit.Proofs.Text.Position

/-!
The outline of two texts with a newline between them.

The outline goes over the lines of a text with two counters, one for lines and one for
bytes. An entry depends on the counters by addition alone (`ofLines_add`), and the
counters depend on the lines before by their number and their size (`ofLines_append`).
The lines of two texts with a newline between them are the lines of the one, whatever it
ends in, and then those of the other. So an outline can be made part by part
(`ofText_append_newline`).
-/

namespace CryptolEdit

/-- The declaration in a text that has so many bytes more in front. -/
def Declaration.shift (bytes : Nat) (d : Declaration) : Declaration := ⟨d.name, bytes + d.offset⟩

/-- The entry in a text that has so many bytes and whole lines more in front. -/
def Entry.shift (bytes lines : Nat) (e : Entry) : Entry :=
  ⟨e.declaration.shift bytes, e.position.below lines⟩

namespace Outline

/-- A line that declares a name puts one entry in front of those of the lines
behind it. -/
theorem ofLines_cons_of_some {line name : Text} {col : Nat}
    (h : nameOnLine? line = some (col, name)) (number start : Nat) (lines : List Text) :
    ofLines number start (line :: lines) = ⟨⟨name, start + col⟩, ⟨number, col⟩⟩
      :: ofLines (number + 1) (start + Text.size line + 1) lines := by
  rw [ofLines, h]

/-- A line that declares nothing only moves the lines behind it on. -/
theorem ofLines_cons_of_none {line : Text} (h : nameOnLine? line = none) (number start : Nat)
    (lines : List Text) :
    ofLines number start (line :: lines)
      = ofLines (number + 1) (start + Text.size line + 1) lines := by
  rw [ofLines, h]

/-- What the counters start from is added to every entry. -/
theorem ofLines_add (above number bytes start : Nat) (lines : List Text) :
    ofLines (above + number) (bytes + start) lines
      = (ofLines number start lines).map (Entry.shift bytes above) := by
  induction lines generalizing number start with
  | nil => rfl
  | cons line lines ih =>
      have hnext := ih (number + 1) (start + Text.size line + 1)
      rw [← Nat.add_assoc, ← Nat.add_assoc, ← Nat.add_assoc] at hnext
      cases h : nameOnLine? line with
      | none => rw [ofLines_cons_of_none h, ofLines_cons_of_none h, hnext]
      | some found =>
          obtain ⟨col, name⟩ := found
          rw [ofLines_cons_of_some h, ofLines_cons_of_some h, hnext, List.map_cons, Nat.add_assoc]
          rfl

/-- Lines can be gone over in two goes. -/
theorem ofLines_append (number start : Nat) (upper lower : List Text) :
    ofLines number start (upper ++ lower)
      = ofLines number start upper ++ ofLines (number + upper.length)
          (start + Text.size (upper.flatMap (· ++ ['\n']))) lower := by
  induction upper generalizing number start with
  | nil => rfl
  | cons line upper ih =>
      have hnumber : number + (line :: upper).length = number + 1 + upper.length := by
        rw [List.length_cons, Nat.add_comm upper.length, Nat.add_assoc]
      have hstart : start + Text.size ((line :: upper).flatMap (· ++ ['\n']))
          = start + Text.size line + 1 + Text.size (upper.flatMap (· ++ ['\n'])) := by
        rw [List.flatMap_cons, Text.size_append, Text.size_append, ← Nat.add_assoc, ← Nat.add_assoc]
        rfl
      rw [List.cons_append, hnumber, hstart]
      cases h : nameOnLine? line with
      | none => rw [ofLines_cons_of_none h, ofLines_cons_of_none h, ih]
      | some found =>
          obtain ⟨col, name⟩ := found
          rw [ofLines_cons_of_some h, ofLines_cons_of_some h, ih, List.cons_append]

/-- The outline below a text and a newline is that of the text on its own, moved down. -/
theorem ofText_append_newline (a b : Text) :
    ofText (a ++ '\n' :: b)
      = ofText a ++ (ofText b).map (Entry.shift (Text.size a + 1) (a.count '\n' + 1)) := by
  have hsize : Text.size (a.lines.flatMap (· ++ ['\n'])) = Text.size a + 1 := by
    rw [Text.flatMap_lines, Text.size_append]
    rfl
  unfold ofText
  rw [Text.lines_append_newline, ofLines_append, hsize, Text.length_lines, Nat.zero_add,
    Nat.zero_add, ← ofLines_add]

/-- The outline is incremental over lines. For two texts with a newline between them it
lists what the first declares, at the same places, and then what the second declares,
further on by the bytes of the first and of the newline and further down by the lines of
the first; columns stay. -/
theorem outline_incremental (a b : Text) :
    declarations (a ++ '\n' :: b)
        = declarations a ++ (declarations b).map (Declaration.shift (Text.size a + 1))
      ∧ ofText (a ++ '\n' :: b)
        = ofText a ++ (ofText b).map (Entry.shift (Text.size a + 1) (a.count '\n' + 1)) := by
  refine ⟨?_, ofText_append_newline a b⟩
  have hmap : Entry.declaration ∘ Entry.shift (Text.size a + 1) (a.count '\n' + 1)
      = Declaration.shift (Text.size a + 1) ∘ Entry.declaration := rfl
  unfold declarations
  rw [ofText_append_newline, List.map_append, List.map_map, List.map_map, hmap]

end Outline

end CryptolEdit
