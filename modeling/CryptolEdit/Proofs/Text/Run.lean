import CryptolEdit.Proofs.Text.Line

/-!
Runs of characters in a text, and the comments of a script.

# Runs

A run is as long as its class of characters lets it be: it is not empty, all of
it is in the class, and what stands on either side is not. Around a place in a text
it is made of what the text before it ends with and what the text after it begins
with (`exists_append_run`, `exists_run_append`).

# Comments

A line has a comment if it has a number sign, and the comment goes from the first
of these to the end of the line. `comments` finds the comments of a text line by
line. What stands after `before` is in no comment exactly if every number sign in
`before` has a newline after it (`Uncommented`); this is how a reader who comes
from the left sees it, and it determines where comments begin (`mem_comments_iff`)
and what stands outside them (`outside_iff`).
-/

namespace CryptolEdit.Text

-- ============================================================== runs

/-- The item stands in the text at its offset. -/
def Occurs (t : Text) (w : Located Text) : Prop :=
  t.slice? w.start (ending id w) = some w.item

/-- A text occurs where the text around it can be split off before and behind
it. -/
theorem occurs_iff {t : Text} {w : Located Text} :
    t.Occurs w ↔ ∃ before after, t = before ++ (w.item ++ after) ∧ size before = w.start := by
  have hextent := @Extent.of?_eq_some_iff ⟨w.start, ending id w, Nat.le_add_right _ _⟩ t w.item
  refine hextent.trans (exists_congr fun before => exists_congr fun after => ?_)
  constructor
  · rintro ⟨ht, hstart, -⟩
    exact ⟨ht, hstart⟩
  · rintro ⟨ht, hstart⟩
    refine ⟨ht, hstart, ?_⟩
    rw [hstart]
    rfl

/-- A run of characters of a class, with none of the class on either side. -/
def IsRun (t : Text) (inClass : Char → Bool) (run : Located Text) : Prop :=
  ∃ before after, t = before ++ (run.item ++ after) ∧ size before = run.start
    ∧ run.item ≠ [] ∧ (∀ c ∈ run.item, inClass c = true)
    ∧ (∀ c ∈ before.getLast?, inClass c = false) ∧ ∀ c ∈ after.head?, inClass c = false

/-- What is left of a run without the characters of a class that it begins with. -/
def Located.trim (skipped : Char → Bool) (run : Located Text) : Located Text :=
  ⟨run.start + size (run.item.takeWhile skipped), run.item.dropWhile skipped⟩

/-- What a text begins with of a class. -/
theorem exists_run_append (inClass : Char → Bool) (t : Text) :
    ∃ run after, t = run ++ after ∧ (∀ c ∈ run, inClass c = true)
      ∧ ∀ c ∈ after.head?, inClass c = false := by
  induction t with
  | nil => exact ⟨[], [], rfl, List.forall_mem_nil _, fun c hc => nomatch hc⟩
  | cons c t ih =>
      by_cases hc : inClass c = true
      · obtain ⟨run, after, rfl, hrun, hafter⟩ := ih
        exact ⟨c :: run, after, rfl, List.forall_mem_cons.mpr ⟨hc, hrun⟩, hafter⟩
      · refine ⟨[], c :: t, rfl, List.forall_mem_nil _, fun d hd => ?_⟩
        cases hd
        exact Bool.eq_false_iff.mpr hc

/-- What a text ends with of a class. -/
theorem exists_append_run (inClass : Char → Bool) (t : Text) :
    ∃ before run, t = before ++ run ∧ (∀ c ∈ run, inClass c = true)
      ∧ ∀ c ∈ before.getLast?, inClass c = false := by
  obtain ⟨run, before, ht, hrun, hbefore⟩ := exists_run_append inClass t.reverse
  refine ⟨before.reverse, run.reverse, ?_, fun c hc => hrun c (List.mem_reverse.mp hc), ?_⟩
  · rw [← List.reverse_append, ← ht, List.reverse_reverse]
  · rw [List.getLast?_reverse]
    exact hbefore

-- ========================================================== comments

/-- The comment of a line, if it has one. -/
def commentOf (line : Located Text) : Option (Located Text) :=
  match line.item.dropWhile (· != '#') with
  | [] => none
  | c :: w => some ⟨line.start + size (line.item.takeWhile (· != '#')), c :: w⟩

/-- The comments of a script, one for each line with a number sign in it. -/
def comments (t : Text) : List (Located Text) := (placedLines 0 t).filterMap commentOf

/-- The item lies before or after each of the comments. -/
def Outside (t : Text) (w : Located Text) : Prop :=
  ∀ comment ∈ t.comments, ending id w ≤ comment.start ∨ ending id comment ≤ w.start

/-- No comment goes on after the text: every number sign has a newline after it. -/
def Uncommented (before : Text) : Prop := ∀ w, '#' :: w <:+ before → '\n' ∈ w

theorem Uncommented.of_append {before front : Text} (h : (before ++ front).Uncommented)
    (hfront : '\n' ∉ front) : before.Uncommented := by
  rintro w ⟨x, rfl⟩
  have hmem := h (w ++ front) ⟨x, by rw [List.append_assoc, List.cons_append]⟩
  rcases List.mem_append.mp hmem with hw | hnewline
  · exact hw
  · exact absurd hnewline hfront

/-- The comment of a line starts at the first hash on it. -/
theorem commentOf_eq_some_iff {line comment : Located Text} :
    commentOf line = some comment ↔ ∃ front w, line.item = front ++ '#' :: w ∧ '#' ∉ front
      ∧ comment = ⟨line.start + size front, '#' :: w⟩ := by
  unfold commentOf
  constructor
  · intro h
    cases hdrop : line.item.dropWhile (· != '#') with
    | nil =>
        rw [hdrop] at h
        cases h
    | cons c w =>
        rw [hdrop] at h
        have hc : c = '#' := by
          have hnot := List.head?_dropWhile_not (· != '#') line.item
          rw [hdrop] at hnot
          simpa using hnot
        subst hc
        refine ⟨line.item.takeWhile (· != '#'), w, ?_, ?_, (Option.some.inj h).symm⟩
        · rw [← hdrop, List.takeWhile_append_dropWhile]
        · intro hmem
          simpa using List.all_eq_true.mp List.all_takeWhile '#' hmem
  · rintro ⟨front, w, hline, hfront, rfl⟩
    have hall := forall_bne_of_notMem hfront
    rw [hline, List.dropWhile_append_of_pos hall, List.takeWhile_append_of_pos hall]
    simp

/-- After a newline, or at the start, a line is uncommented as long as it has no
number sign. -/
theorem uncommented_append_iff {before front : Text}
    (hbefore : ∀ c ∈ before.getLast?, c = '\n') (hfront : '\n' ∉ front) :
    (before ++ front).Uncommented ↔ '#' ∉ front := by
  constructor
  · intro h hmem
    obtain ⟨x, y, rfl⟩ := List.append_of_mem hmem
    have hnewline := h y ⟨before ++ x, List.append_assoc _ _ _⟩
    exact hfront (List.mem_append_right _ (List.mem_cons_of_mem _ hnewline))
  · rintro h w ⟨x, hx⟩
    rcases List.append_eq_append_iff.mp hx with ⟨y, hbefore', hw⟩ | ⟨y, -, rfl⟩
    · cases y with
      | nil =>
          rw [List.nil_append] at hw
          exact absurd (hw ▸ List.mem_cons_self) h
      | cons d y =>
          -- the sign stands before the newline that `before` ends with
          obtain ⟨rfl, rfl⟩ := List.cons.inj hw
          rcases List.eq_nil_or_concat' y with rfl | ⟨y, e, rfl⟩
          · have hlast := hbefore '#' (by rw [hbefore', List.getLast?_concat]; rfl)
            exact absurd hlast (by decide)
          · have hlast := hbefore e (by
              rw [hbefore', ← List.cons_append, ← List.append_assoc, List.getLast?_concat]
              rfl)
            subst hlast
            exact List.mem_append_left _ (List.mem_append_right _ List.mem_cons_self)
    · exact absurd (List.mem_append_right _ List.mem_cons_self) h

/-- Where comments begin: at a number sign that is in no comment itself. -/
theorem mem_comments_iff {t : Text} {comment : Located Text} :
    comment ∈ t.comments ↔ ∃ before w after, t = before ++ ('#' :: w ++ after)
      ∧ before.Uncommented ∧ '\n' ∉ w ∧ (∀ c ∈ after.head?, c = '\n')
      ∧ comment = ⟨size before, '#' :: w⟩ := by
  unfold comments
  rw [List.mem_filterMap]
  constructor
  · rintro ⟨line, hline, hcomment⟩
    obtain ⟨before, after, ht, hnewline, hlast, hhead, hstart⟩ := mem_placedLines_iff.mp hline
    obtain ⟨front, w, hitem, hsign, rfl⟩ := commentOf_eq_some_iff.mp hcomment
    rw [hitem, List.mem_append, List.mem_cons, not_or, not_or] at hnewline
    refine ⟨before ++ front, w, after, ?_, ?_, hnewline.2.2, hhead, ?_⟩
    · rw [ht, hitem, List.append_assoc, List.append_assoc]
    · exact (uncommented_append_iff hlast hnewline.1).mpr hsign
    · rw [hstart, size_append]
  · rintro ⟨before, w, after, rfl, hbefore, hw, hhead, rfl⟩
    -- the line of the comment begins after the last newline
    obtain ⟨before, front, rfl, hfront, hlast⟩ := exists_append_run (· != '\n') before
    have hlast : ∀ c ∈ before.getLast?, c = '\n' := fun c hc => by simpa using hlast c hc
    have hfront : '\n' ∉ front := fun hmem => by simpa using hfront '\n' hmem
    refine ⟨⟨size before, front ++ '#' :: w⟩, mem_placedLines_iff.mpr
      ⟨before, after, ?_, ?_, hlast, hhead, rfl⟩, commentOf_eq_some_iff.mpr
      ⟨front, w, rfl, (uncommented_append_iff hlast hfront).mp hbefore, ?_⟩⟩
    · rw [List.append_assoc, List.append_assoc]
    · rw [List.mem_append, List.mem_cons, not_or, not_or]
      exact ⟨hfront, by decide, hw⟩
    · rw [size_append]

/-- The first number sign of a comment that goes on after a text. -/
theorem exists_comment_of_not_uncommented {before : Text} (h : ¬before.Uncommented) :
    ∃ front w, before = front ++ '#' :: w ∧ front.Uncommented ∧ '\n' ∉ w := by
  obtain ⟨earlier, line, rfl, hline, hlast⟩ := exists_append_run (· != '\n') before
  have hlast : ∀ c ∈ earlier.getLast?, c = '\n' := fun c hc => by simpa using hlast c hc
  have hline : '\n' ∉ line := fun hmem => by simpa using hline '\n' hmem
  rw [uncommented_append_iff hlast hline, not_not] at h
  obtain ⟨front, w, rfl, hfront⟩ := List.eq_append_cons_of_mem h
  rw [List.mem_append, List.mem_cons, not_or, not_or] at hline
  exact ⟨earlier ++ front, w, (List.append_assoc _ _ _).symm,
    (uncommented_append_iff hlast hline.1).mpr hfront, hline.2.2⟩

/-- What is neither in a comment nor begins one stands outside all of them. -/
theorem outside_iff {before w after : Text} (hne : w ≠ [])
    (hnewline : '\n' ∉ w) (hsign : '#' ∉ w) :
    (before ++ (w ++ after)).Outside ⟨size before, w⟩ ↔ before.Uncommented := by
  have hpos : 0 < size w := Nat.pos_of_ne_zero (mt eq_nil_of_size_eq_zero hne)
  constructor
  · intro h
    by_contra hcommented
    -- then the comment goes on over `w` to the end of the line
    obtain ⟨front, x, rfl, hfront, hx⟩ := exists_comment_of_not_uncommented hcommented
    obtain ⟨y, after, rfl, hy, hhead⟩ := exists_run_append (· != '\n') after
    have hcomment := h ⟨size front, '#' :: (x ++ (w ++ y))⟩ (mem_comments_iff.mpr
      ⟨front, x ++ (w ++ y), after, by simp, hfront, ?_, fun c hc => by simpa using hhead c hc,
        rfl⟩)
    · unfold ending at hcomment
      simp only [id, size_append, size_cons] at hcomment
      omega
    · simp only [List.mem_append, not_or]
      exact ⟨hx, hnewline, fun hmem => by simpa using hy '\n' hmem⟩
  · intro h comment hcomment
    obtain ⟨front, x, rest, ht, hfront, hx, hhead, rfl⟩ := mem_comments_iff.mp hcomment
    unfold ending
    simp only [id]
    rcases List.append_eq_append_iff.mp ht with ⟨y, rfl, hy⟩ | ⟨y, rfl, hy⟩
    · left
      rcases List.append_eq_append_iff.mp hy with ⟨z, rfl, -⟩ | ⟨z, rfl, hz⟩
      · simp only [size_append]
        omega
      · cases z with
        | nil => simp
        | cons c z =>
            obtain ⟨rfl, -⟩ := List.cons.inj hz
            exact absurd (List.mem_append_right _ List.mem_cons_self) hsign
    · right
      cases y with
      | nil =>
          obtain ⟨c, w, rfl⟩ := List.exists_cons_of_ne_nil hne
          obtain ⟨rfl, -⟩ := List.cons.inj hy
          exact absurd List.mem_cons_self hsign
      | cons c y =>
          rw [List.cons_append, List.cons_append, List.cons.injEq] at hy
          obtain ⟨rfl, hy⟩ := hy
          have hclosed : '\n' ∈ y := h y (List.suffix_append _ _)
          rcases List.append_eq_append_iff.mp hy with ⟨z, rfl, -⟩ | ⟨z, rfl, -⟩
          · simp only [size_append, size_cons]
            omega
          · exact absurd (List.mem_append_left _ hclosed) hx

end CryptolEdit.Text
