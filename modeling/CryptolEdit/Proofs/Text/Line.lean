import CryptolEdit.Proofs.Text.Boundary

/-!
The lines of a text and where they are.

A list is a last part, or a part, a separator and another list; `split_induction` is
induction over that, and for lines and newlines it is `line_induction`.

`lineExtents` lists the extents of all lines in order, and `IsLine` says of one extent,
by what stands around it, that it is one of them (`mem_lineExtents_iff`).
-/

namespace CryptolEdit.Text

-- ========================================================= separators

section split

variable {α : Type} {separates : α → Bool}

theorem split_eq_splitOnP (separates : α → Bool) (as : List α) :
    split separates as = as.splitOnP separates := by
  induction as with
  | nil => rfl
  | cons a as ih =>
      rw [split, List.splitOnP_cons_eq_if_modifyHead, ih]
      split
      · rfl
      · cases h : as.splitOnP separates with
        | nil => exact absurd h (List.splitOnP_ne_nil _ _)
        | cons part parts => rfl

theorem split_eq_singleton {as : List α} (h : ∀ a ∈ as, separates a = false) :
    split separates as = [as] := by
  rw [split_eq_splitOnP, List.splitOnP_eq_singleton h]

/-- The parts on the two sides of a separator are told apart. -/
theorem split_append_cons (as bs : List α) {a : α} (ha : separates a = true) :
    split separates (as ++ a :: bs) = split separates as ++ split separates bs := by
  rw [split_eq_splitOnP, split_eq_splitOnP, split_eq_splitOnP]
  exact List.splitOnP_append_cons as bs ha

/-- A list is a last part, or a part, a separator and another list. -/
theorem split_induction (separates : α → Bool) {motive : List α → Prop}
    (last : ∀ part, (∀ a ∈ part, separates a = false) → motive part)
    (next : ∀ part a rest, (∀ b ∈ part, separates b = false) → separates a = true →
      motive rest → motive (part ++ a :: rest))
    (as : List α) : motive as := by
  induction hn : as.length using Nat.strongRecOn generalizing as with
  | ind n ih =>
      cases hfind : as.find? separates with
      | none =>
          apply last
          intro a ha
          exact Bool.eq_false_iff.mpr (List.find?_eq_none.mp hfind a ha)
      | some a =>
          obtain ⟨ha, part, rest, rfl, hpart⟩ := List.find?_eq_some_iff_append.mp hfind
          rw [List.length_append, List.length_cons] at hn
          refine next part a rest (fun b hb => ?_) ha (ih rest.length (by omega) rest rfl)
          simpa using hpart b hb

/-- Where a single item separates, parts are what does not have it. -/
theorem forall_beq_eq_false_iff [BEq α] [LawfulBEq α] {a : α} {as : List α} :
    (∀ b ∈ as, (b == a) = false) ↔ a ∉ as := by
  constructor
  · intro h hmem
    exact beq_eq_false_iff_ne.mp (h a hmem) rfl
  · intro h b hb
    rw [beq_eq_false_iff_ne]
    rintro rfl
    exact h hb

theorem forall_bne_of_notMem [BEq α] [LawfulBEq α] {a : α} {as : List α} (h : a ∉ as) :
    ∀ b ∈ as, (b != a) = true := by
  intro b hb
  rw [bne, forall_beq_eq_false_iff.mpr h b hb, Bool.not_false]

end split

-- ============================================================= lines

theorem lines_eq_singleton {t : Text} (h : '\n' ∉ t) : t.lines = [t] :=
  split_eq_singleton (forall_beq_eq_false_iff.mpr h)

/-- The lines on the two sides of a newline are told apart. -/
theorem lines_append_newline (s t : Text) :
    lines (s ++ '\n' :: t) = s.lines ++ t.lines :=
  split_append_cons s t rfl

/-- Every text is one line, or a line with its newline and a text behind it. -/
theorem line_induction {motive : Text → Prop}
    (last : ∀ line, '\n' ∉ line → motive line)
    (next : ∀ line rest, '\n' ∉ line → motive rest → motive (line ++ '\n' :: rest))
    (t : Text) : motive t := by
  induction t using split_induction (· == '\n') with
  | last line h => exact last line (forall_beq_eq_false_iff.mp h)
  | next line c rest h hc ih =>
      rw [beq_iff_eq.mp hc]
      exact next line rest (forall_beq_eq_false_iff.mp h) ih

/-- No line has a newline in it. -/
theorem notMem_of_mem_lines {t line : Text} (h : line ∈ t.lines) : '\n' ∉ line := by
  induction t using line_induction with
  | last t hmem =>
      rw [lines_eq_singleton hmem, List.mem_singleton] at h
      rw [h]
      exact hmem
  | next first rest hmem ih =>
      rw [lines_append_newline, lines_eq_singleton hmem] at h
      rcases List.mem_cons.mp h with rfl | h
      · exact hmem
      · exact ih h

/-- Lines and newlines make up the text, and a newline that it does not have. -/
theorem flatMap_lines (t : Text) : t.lines.flatMap (· ++ ['\n']) = t ++ ['\n'] := by
  induction t using line_induction with
  | last t hmem => rw [lines_eq_singleton hmem, List.flatMap_singleton]
  | next line rest hmem ih =>
      rw [lines_append_newline, lines_eq_singleton hmem, List.flatMap_append,
        List.flatMap_singleton, ih, List.append_assoc, List.append_assoc]
      rfl

-- ==================================================== where lines are

/-- The lines of a text that begins at an offset, in their places. -/
def placedLines (base : Nat) (t : Text) : List (Located Text) :=
  place (· ++ ['\n']) base t.lines

/-- What a line covers, without the newline that ends it. -/
def lineExtent (line : Located Text) : Extent :=
  ⟨line.start, line.start + size line.item, Nat.le_add_right _ _⟩

/-- The extents of the lines of a text. -/
def lineExtents (t : Text) : List Extent :=
  (placedLines 0 t).map lineExtent

/-- There is no newline in the extent, but a newline or nothing on either side. -/
def IsLine (t : Text) (e : Extent) : Prop :=
  ∃ before line after, t = before ++ (line ++ after) ∧ '\n' ∉ line
    ∧ (∀ c ∈ before.getLast?, c = '\n') ∧ (∀ c ∈ after.head?, c = '\n')
    ∧ e.start = size before ∧ e.stop = size before + size line

theorem lines_append_of_head {line after : Text} (hline : '\n' ∉ line)
    (hafter : ∀ c ∈ after.head?, c = '\n') :
    ∃ later, lines (line ++ after) = line :: later := by
  cases after with
  | nil => exact ⟨[], by rw [List.append_nil, lines_eq_singleton hline]⟩
  | cons c after =>
      cases hafter c rfl
      exact ⟨lines after, by rw [lines_append_newline, lines_eq_singleton hline]; rfl⟩

/-- Whole lines end in a newline, if there are any. -/
theorem newline_of_getLast? (ls : List Text) :
    ∀ c ∈ (ls.flatMap (· ++ ['\n'])).getLast?, c = '\n' := by
  intro c hc
  rcases List.eq_nil_or_concat' ls with rfl | ⟨init, last, rfl⟩
  · cases hc
  · rw [List.flatMap_append, List.flatMap_singleton, ← List.append_assoc,
      List.getLast?_concat] at hc
    exact (Option.some.inj hc).symm

/-- The newlines that end lines can be taken for newlines that begin them. -/
theorem exists_newline_append (ls : List Text) :
    ∃ after, '\n' :: ls.flatMap (· ++ ['\n']) = after ++ ['\n']
      ∧ ∀ c ∈ after.head?, c = '\n' := by
  rcases List.eq_nil_or_concat' ls with rfl | ⟨init, last, rfl⟩
  · exact ⟨[], rfl, fun c hc => nomatch hc⟩
  · refine ⟨'\n' :: (init.flatMap (· ++ ['\n']) ++ last), ?_,
      fun c hc => (Option.some.inj hc).symm⟩
    rw [List.flatMap_append, List.flatMap_singleton, List.cons_append, List.append_assoc]

/-- A line in its place among the lines. -/
theorem exists_lines_iff {t before line : Text} :
    (∃ earlier later, t.lines = earlier ++ line :: later
        ∧ before = earlier.flatMap (· ++ ['\n']))
      ↔ ∃ after, t = before ++ (line ++ after) ∧ '\n' ∉ line
          ∧ (∀ c ∈ before.getLast?, c = '\n') ∧ (∀ c ∈ after.head?, c = '\n') := by
  constructor
  · rintro ⟨earlier, later, hlines, rfl⟩
    have hline : '\n' ∉ line := by
      refine notMem_of_mem_lines (t := t) ?_
      rw [hlines]
      exact List.mem_append_right _ List.mem_cons_self
    obtain ⟨after, hafter, hhead⟩ := exists_newline_append later
    refine ⟨after, ?_, hline, newline_of_getLast? earlier, hhead⟩
    -- the newline after the last line is not part of the text
    have htext : earlier.flatMap (· ++ ['\n']) ++ (line ++ after) ++ ['\n'] = t ++ ['\n'] := by
      rw [← flatMap_lines t, hlines, List.flatMap_append, List.flatMap_cons,
        List.append_assoc line, List.singleton_append, hafter, List.append_assoc,
        List.append_assoc]
    exact (List.append_cancel_right htext).symm
  · rintro ⟨after, rfl, hline, hlast, hafter⟩
    obtain ⟨later, hlater⟩ := lines_append_of_head hline hafter
    rcases List.eq_nil_or_concat' before with rfl | ⟨init, c, rfl⟩
    · exact ⟨[], later, hlater, rfl⟩
    · have hc : c = '\n' := hlast c List.getLast?_concat
      subst hc
      refine ⟨lines init, later, ?_, (flatMap_lines init).symm⟩
      rw [List.append_assoc, List.singleton_append, lines_append_newline, hlater]

/-- A line stands between newlines, or between one and an end of the text. -/
theorem mem_placedLines_iff {t : Text} {line : Located Text} :
    line ∈ placedLines 0 t ↔ ∃ before after, t = before ++ (line.item ++ after)
      ∧ '\n' ∉ line.item ∧ (∀ c ∈ before.getLast?, c = '\n')
      ∧ (∀ c ∈ after.head?, c = '\n') ∧ line.start = size before := by
  constructor
  · intro h
    obtain ⟨earlier, w, later, hlines, rfl⟩ := (mem_place_iff _).mp h
    obtain ⟨after, ht, hw, hlast, hafter⟩ :=
      exists_lines_iff.mp ⟨earlier, later, hlines, rfl⟩
    exact ⟨_, after, ht, hw, hlast, hafter, Nat.zero_add _⟩
  · rintro ⟨before, after, ht, hw, hlast, hafter, hstart⟩
    obtain ⟨earlier, later, hlines, rfl⟩ :=
      exists_lines_iff.mpr ⟨after, ht, hw, hlast, hafter⟩
    refine (mem_place_iff _).mpr ⟨earlier, line.item, later, hlines, ?_⟩
    rw [Nat.zero_add, ← hstart]

/-- A line is what the text has between its ends. -/
theorem of?_lineExtent {t : Text} {line : Located Text} (h : line ∈ placedLines 0 t) :
    (lineExtent line).of? t = some line.item := by
  obtain ⟨before, after, ht, -, -, -, hstart⟩ := mem_placedLines_iff.mp h
  exact Extent.of?_eq_some_iff.mpr ⟨before, after, ht, hstart.symm, by rw [← hstart]; rfl⟩

/-- The line extents of a text are its lines. -/
theorem mem_lineExtents_iff {t : Text} {e : Extent} :
    e ∈ t.lineExtents ↔ t.IsLine e := by
  unfold lineExtents
  rw [List.mem_map]
  constructor
  · rintro ⟨line, hline, rfl⟩
    obtain ⟨before, after, ht, hw, hlast, hafter, hstart⟩ := mem_placedLines_iff.mp hline
    exact ⟨before, line.item, after, ht, hw, hlast, hafter, hstart, by rw [← hstart]; rfl⟩
  · rintro ⟨before, w, after, ht, hw, hlast, hafter, hstart, hstop⟩
    obtain ⟨start, stop, hle⟩ := e
    change start = _ at hstart
    change stop = _ at hstop
    subst hstart hstop
    exact ⟨⟨size before, w⟩,
      mem_placedLines_iff.mpr ⟨before, after, ht, hw, hlast, hafter, rfl⟩, rfl⟩

/-- Between two lines there is at least a newline. -/
theorem pairwise_placedLines (base : Nat) (t : Text) :
    (placedLines base t).Pairwise fun line next =>
      (lineExtent line).stop < (lineExtent next).start := by
  refine (pairwise_ending_place base t.lines).imp fun {line next} hle => ?_
  have hnewline : size (line.item ++ ['\n']) = size line.item + 1 := size_append _ _
  unfold ending at hle
  rw [hnewline] at hle
  show line.start + size line.item < next.start
  omega

/-- An offset is in one line only. -/
theorem IsLine.unique {t : Text} {r r' : Extent} (h : t.IsLine r) (h' : t.IsLine r')
    {offset : Nat} (hr : r.start ≤ offset ∧ offset ≤ r.stop)
    (hr' : r'.start ≤ offset ∧ offset ≤ r'.stop) : r = r' := by
  have : Std.Symm fun r r' : Extent => r.stop < r'.start ∨ r'.stop < r.start :=
    ⟨fun _ _ => Or.symm⟩
  have hapart : t.lineExtents.Pairwise fun r r' => r.stop < r'.start ∨ r'.stop < r.start :=
    List.pairwise_map.mpr ((pairwise_placedLines 0 t).imp Or.inl)
  by_contra hne
  have hdisjoint := hapart.forall (mem_lineExtents_iff.mpr h) (mem_lineExtents_iff.mpr h') hne
  omega

end CryptolEdit.Text
