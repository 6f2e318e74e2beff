import CryptolEdit.Proofs.Text.Run

/-!
What stands between separators, and where.

`placedParts` splits a text like `split` does and keeps the place of each part
(`map_item_placedParts`). A part has no separator in it, and a separator or nothing on
either side (`mem_placedParts_iff`); the parts come in the order of their places
(`pairwise_placedParts`). The parts that are not empty are the runs of the characters
that do not separate (`mem_placedRuns_iff`).
-/

namespace CryptolEdit.Text

variable (separates : Char → Bool)

-- ============================================================= parts

/-- The parts of a text that begins at an offset, in their places. -/
def placedParts : Nat → Text → List (Located Text)
  | base, [] => [⟨base, []⟩]
  | base, c :: t =>
    if separates c then
      ⟨base, []⟩ :: placedParts (base + c.utf8Size) t
    else
      (placedParts (base + c.utf8Size) t).modifyHead fun part => ⟨base, c :: part.item⟩

variable {separates}

theorem placedParts_of_forall {base : Nat} {part : Text}
    (h : ∀ c ∈ part, separates c = false) : placedParts separates base part = [⟨base, part⟩] := by
  induction part generalizing base with
  | nil => rfl
  | cons c part ih =>
      obtain ⟨hc, hpart⟩ := List.forall_mem_cons.mp h
      rw [placedParts, hc, if_neg Bool.false_ne_true, ih hpart]
      rfl

theorem placedParts_ne_nil (base : Nat) (t : Text) : placedParts separates base t ≠ [] := by
  induction t generalizing base with
  | nil => exact List.cons_ne_nil _ _
  | cons c t ih =>
      rw [placedParts]
      split
      · exact List.cons_ne_nil _ _
      · obtain ⟨part, parts, hparts⟩ := List.exists_cons_of_ne_nil (ih (base + c.utf8Size))
        rw [hparts]
        exact List.cons_ne_nil _ _

/-- What is on one side of a separator does not depend on the other side. -/
theorem placedParts_append_cons (base : Nat) (s t : Text) {c : Char}
    (hc : separates c = true) :
    placedParts separates base (s ++ c :: t)
      = placedParts separates base s
        ++ placedParts separates (base + size s + c.utf8Size) t := by
  induction s generalizing base with
  | nil =>
      rw [List.nil_append]
      show (if separates c then _ else _) = _
      rw [if_pos hc]
      rfl
  | cons d s ih =>
      have hbase : base + size (d :: s) + c.utf8Size
          = base + d.utf8Size + size s + c.utf8Size := by
        rw [size_cons]
        omega
      rw [List.cons_append, placedParts, placedParts, ih, hbase]
      split
      · rfl
      · obtain ⟨part, parts, hparts⟩ :=
          List.exists_cons_of_ne_nil (placedParts_ne_nil (base + d.utf8Size) s)
        rw [hparts]
        rfl

/-- Without their places, the placed parts of a text are its parts. -/
theorem map_item_placedParts (base : Nat) (t : Text) :
    (placedParts separates base t).map Located.item = split separates t := by
  induction t using split_induction separates generalizing base with
  | last part hpart => rw [placedParts_of_forall hpart, split_eq_singleton hpart]; rfl
  | next part c rest hpart hc ih =>
      rw [placedParts_append_cons base part rest hc, split_append_cons part rest hc,
        placedParts_of_forall hpart, split_eq_singleton hpart, List.map_append, ih]
      rfl

/-- A part ends at the first separator, or with the text. -/
theorem mem_placedParts_of_head (base : Nat) {part after : Text}
    (hpart : ∀ c ∈ part, separates c = false) (hafter : ∀ c ∈ after.head?, separates c = true) :
    (⟨base, part⟩ : Located Text) ∈ placedParts separates base (part ++ after) := by
  cases after with
  | nil =>
      rw [List.append_nil, placedParts_of_forall hpart]
      exact List.mem_singleton_self _
  | cons c after =>
      rw [placedParts_append_cons base part after (hafter c rfl), placedParts_of_forall hpart]
      exact List.mem_append_left _ (List.mem_singleton_self _)

/-- A part stands between separators, or between one and an end of the text. -/
theorem mem_placedParts_iff {base : Nat} {t : Text} {w : Located Text} :
    w ∈ placedParts separates base t ↔ ∃ before after, t = before ++ (w.item ++ after)
      ∧ w.start = base + size before ∧ (∀ c ∈ w.item, separates c = false)
      ∧ (∀ c ∈ before.getLast?, separates c = true)
      ∧ ∀ c ∈ after.head?, separates c = true := by
  constructor
  · intro h
    induction t using split_induction separates generalizing base with
    | last part hpart =>
        rw [placedParts_of_forall hpart, List.mem_singleton] at h
        subst h
        exact ⟨[], [], (List.append_nil _).symm, rfl, hpart, (fun c hc => nomatch hc),
          (fun c hc => nomatch hc)⟩
    | next part c rest hpart hc ih =>
        rw [placedParts_append_cons base part rest hc, placedParts_of_forall hpart,
          List.singleton_append, List.mem_cons] at h
        rcases h with rfl | h
        · exact ⟨[], c :: rest, rfl, rfl, hpart, (fun d hd => nomatch hd),
            (fun d hd => Option.some.inj hd ▸ hc)⟩
        · obtain ⟨before, after, rfl, hstart, hitem, hlast, hhead⟩ := ih h
          refine ⟨part ++ c :: before, after, ?_, ?_, hitem, fun d hd => ?_, hhead⟩
          · rw [List.append_assoc, List.cons_append]
          · rw [hstart, size_append, size_cons]
            omega
          · -- what the text before it ends with is the separator, or comes after it
            rw [List.getLast?_append, List.getLast?_cons, Option.some_or] at hd
            cases hbefore : before.getLast? with
            | none =>
                rw [hbefore] at hd
                exact Option.some.inj hd ▸ hc
            | some e =>
                rw [hbefore] at hd
                exact Option.some.inj hd ▸ hlast e hbefore
  · rintro ⟨before, after, rfl, hstart, hitem, hlast, hhead⟩
    have hw : w = ⟨base + size before, w.item⟩ := by rw [← hstart]
    rcases List.eq_nil_or_concat' before with rfl | ⟨before, c, rfl⟩
    · rw [hw]
      exact mem_placedParts_of_head base hitem hhead
    · have hc : separates c = true := hlast c List.getLast?_concat
      have hsize : base + size (before ++ [c]) = base + size before + c.utf8Size := by
        rw [size_append, size_cons, size_nil]
        omega
      rw [List.append_assoc, List.singleton_append, placedParts_append_cons base before _ hc,
        hw, hsize]
      exact List.mem_append_right _ (mem_placedParts_of_head _ hitem hhead)

/-- A part lies in the text that it is a part of. -/
theorem bounds_of_mem_placedParts {base : Nat} {t : Text} {w : Located Text}
    (h : w ∈ placedParts separates base t) :
    base ≤ w.start ∧ ending id w ≤ base + size t := by
  obtain ⟨before, after, rfl, hstart, -, -, -⟩ := mem_placedParts_iff.mp h
  unfold ending
  rw [id, hstart, size_append, size_append]
  constructor <;> omega

/-- Between two parts there is at least a separator. -/
theorem pairwise_placedParts (base : Nat) (t : Text) :
    (placedParts separates base t).Pairwise fun w next => w.start < next.start := by
  induction t using split_induction separates generalizing base with
  | last part hpart =>
      rw [placedParts_of_forall hpart]
      exact List.pairwise_singleton _ _
  | next part c rest hpart hc ih =>
      rw [placedParts_append_cons base part rest hc, placedParts_of_forall hpart]
      refine .cons (fun w hw => ?_) (ih _)
      have hbound := (bounds_of_mem_placedParts hw).1
      have hpos := c.utf8Size_pos
      show base < w.start
      omega

-- ============================================================== runs

/-- The parts that are not empty, in their places. -/
def placedRuns (separates : Char → Bool) (base : Nat) (t : Text) : List (Located Text) :=
  (placedParts separates base t).filter (·.item != [])

/-- The parts that are not empty are the longest runs without a separator. -/
theorem mem_placedRuns_iff {base : Nat} {t : Text} {w : Located Text} :
    w ∈ placedRuns separates base t ↔ ∃ run, t.IsRun (!separates ·) run ∧ w = run.shift base := by
  unfold placedRuns
  rw [List.mem_filter, mem_placedParts_iff, bne_iff_ne]
  constructor
  · rintro ⟨⟨before, after, ht, hstart, hitem, hlast, hhead⟩, hne⟩
    refine ⟨⟨size before, w.item⟩, ⟨before, after, ht, rfl, hne, ?_, ?_, ?_⟩, ?_⟩
    · exact fun c hc => by simpa using hitem c hc
    · exact fun c hc => by simpa using hlast c hc
    · exact fun c hc => by simpa using hhead c hc
    · unfold Located.shift
      rw [← hstart]
  · rintro ⟨run, ⟨before, after, ht, hstart, hne, hitem, hlast, hhead⟩, rfl⟩
    refine ⟨⟨before, after, ht, ?_, ?_, ?_, ?_⟩, hne⟩
    · rw [hstart]
      rfl
    · exact fun c hc => by simpa using hitem c hc
    · exact fun c hc => by simpa using hlast c hc
    · exact fun c hc => by simpa using hhead c hc

end CryptolEdit.Text
