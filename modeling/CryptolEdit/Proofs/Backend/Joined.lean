import CryptolEdit.Proofs.Backend.Listing

/-!
A listing that is written from names is read back to them.

`Joined between ns t` says that `t` is the names `ns` with something between each two of
them that is not empty and is made of the characters that `between` allows. Whatever the
names are joined by, they are the words of the text (`words_joined`).

A label ends at the first colon of a line, so names may have colons if they are all on one
line with a label, and the label must be one line itself. Without a label names cannot have
colons, but then the text can be broken anywhere between them, since a newline separates
names like other white space (`flatMap_lines_words`).
-/

namespace CryptolEdit.Backend

open Text

-- ============================================================== words

/-- What stands between separators in a text. -/
def words (t : Text) : List Text := (split separates t).filter (· != [])

theorem namesOnLine_eq_words (line : Text) : namesOnLine line = words (unlabelled line) := rfl

theorem separates_iff {c : Char} : separates c = true ↔ isBlank c = true ∨ c = ',' := by
  unfold separates
  rw [Bool.or_eq_true, beq_iff_eq]

/-- No character of a name ends it. -/
theorem IsName.not_separates {n : Text} (h : IsName n) : ∀ c ∈ n, separates c = false := by
  intro c hc
  have hname := h.unbroken c hc
  rw [← Backend.not_separates, Bool.not_eq_true'] at hname
  exact hname

/-- A name alone is one word. -/
theorem words_of_isName {n : Text} (h : IsName n) : words n = [n] := by
  unfold words
  rw [split_eq_singleton h.not_separates, List.filter_eq_self]
  exact List.forall_mem_singleton.mpr (bne_iff_ne.mpr h.ne_nil)

/-- No word goes on past a separator, so what stands on its two sides is read
apart. -/
theorem words_append_cons (s t : Text) {c : Char} (hc : separates c = true) :
    words (s ++ c :: t) = words s ++ words t := by
  unfold words
  rw [split_append_cons s t hc, List.filter_append]

/-- Separators before a text add no words. -/
theorem words_separators_append {gap : Text} (hgap : ∀ c ∈ gap, separates c = true)
    (t : Text) : words (gap ++ t) = words t := by
  induction gap with
  | nil => rfl
  | cons c gap ih =>
      obtain ⟨hc, hgap⟩ := List.forall_mem_cons.mp hgap
      have hcons := words_append_cons [] (gap ++ t) hc
      rw [List.nil_append] at hcons
      rw [List.cons_append, hcons, ih hgap]
      rfl

-- ============================================================ joining

/-- A text of names, with some of the characters allowed between each two of them. -/
inductive Joined (between : Char → Prop) : List Text → Text → Prop
  | nil : Joined between [] []
  | single (n : Text) : Joined between [n] n
  | cons {n m gap t : Text} {ns : List Text} (hne : gap ≠ []) (hgap : ∀ c ∈ gap, between c)
      (h : Joined between (m :: ns) t) : Joined between (n :: m :: ns) (n ++ (gap ++ t))

/-- Every character of a joined text is in a name or between two. -/
theorem mem_joined {between : Char → Prop} {ns : List Text} {t : Text}
    (h : Joined between ns t) : ∀ c ∈ t, (∃ n ∈ ns, c ∈ n) ∨ between c := by
  induction h with
  | nil => exact fun c hc => nomatch hc
  | single n => exact fun c hc => Or.inl ⟨n, List.mem_singleton_self n, hc⟩
  | @cons n m gap t ns hne hgap h ih =>
      intro c hc
      rcases List.mem_append.mp hc with hc | hc
      · exact Or.inl ⟨n, List.mem_cons_self, hc⟩
      rcases List.mem_append.mp hc with hc | hc
      · exact Or.inr (hgap c hc)
      rcases ih c hc with ⟨n', hn', hc⟩ | hbetween
      · exact Or.inl ⟨n', List.mem_cons_of_mem n hn', hc⟩
      · exact Or.inr hbetween

/-- Whatever separators names are joined by, they are read back. -/
theorem words_joined {between : Char → Prop} {ns : List Text} {t : Text}
    (hbetween : ∀ c, between c → separates c = true) (h : Joined between ns t)
    (hnames : ∀ n ∈ ns, IsName n) : words t = ns := by
  induction h with
  | nil => rfl
  | single n => exact words_of_isName (hnames n (List.mem_singleton_self n))
  | @cons n m gap t ns hne hgap h ih =>
      obtain ⟨hn, hnames⟩ := List.forall_mem_cons.mp hnames
      obtain ⟨c, gap, rfl⟩ := List.exists_cons_of_ne_nil hne
      obtain ⟨hc, hgap⟩ := List.forall_mem_cons.mp hgap
      have hrest : ∀ d ∈ gap, separates d = true := fun d hd => hbetween d (hgap d hd)
      rw [List.cons_append, words_append_cons n _ (hbetween c hc), words_of_isName hn,
        words_separators_append hrest, ih hnames]
      rfl

-- ============================================================== lines

/-- Without a colon there is no label, and lines are read like one text. -/
theorem flatMap_lines_words {t : Text} (h : ':' ∉ t) :
    t.lines.flatMap namesOnLine = words t := by
  induction t using line_induction with
  | last line hline =>
      rw [lines_eq_singleton hline, List.flatMap_singleton, namesOnLine_eq_words,
        unlabelled_of_notMem h]
  | next line rest hline ih =>
      rw [List.mem_append, List.mem_cons, not_or, not_or] at h
      have hnewline : separates '\n' = true := by decide
      rw [lines_append_newline, lines_eq_singleton hline, List.flatMap_append,
        List.flatMap_singleton, namesOnLine_eq_words, unlabelled_of_notMem h.1, ih h.2.2,
        words_append_cons line rest hnewline]

/-- On a single line with a label, the names are the words after the label. -/
theorem flatMap_lines_label {label rest : Text} (hcolon : ':' ∉ label)
    (hlabel : '\n' ∉ label) (hrest : '\n' ∉ rest) :
    (label ++ ':' :: rest).lines.flatMap namesOnLine = words rest := by
  have hline : '\n' ∉ label ++ ':' :: rest := by
    rw [List.mem_append, List.mem_cons, not_or, not_or]
    exact ⟨hlabel, by decide, hrest⟩
  rw [lines_eq_singleton hline, List.flatMap_singleton, namesOnLine_eq_words,
    unlabelled_append hcolon]

-- ============================================================ line ends

/-- The lines of a listing without their ends. A carriage return before a newline is part of
the end of its line, but not one at the end of the listing, and no line follows the last
newline. -/
def bareLines (t : Text) : List Text :=
  let strip (line : Text) : Text := if line.getLast? = some '\r' then line.dropLast else line
  t.lines.dropLast.map strip ++ (t.lines.getLast?.filter (· != [])).toList

/-- A carriage return at the end of a line is white space to the reader of names. -/
theorem namesOnLine_return (line : Text) :
    namesOnLine (line ++ ['\r']) = namesOnLine line := by
  have hwords : ∀ t : Text, words (t ++ ['\r']) = words t := by
    intro t
    rw [words_append_cons t [] (by decide)]
    exact List.append_nil _
  rw [namesOnLine_eq_words, namesOnLine_eq_words]
  by_cases hmem : ':' ∈ line
  · obtain ⟨label, rest, rfl, hlabel⟩ := List.eq_append_cons_of_mem hmem
    rw [List.append_assoc, List.cons_append, unlabelled_append hlabel, unlabelled_append hlabel,
      hwords]
  · have hmem' : ':' ∉ line ++ ['\r'] := by
      rw [List.mem_append]
      exact not_or.mpr ⟨hmem, by decide⟩
    rw [unlabelled_of_notMem hmem, unlabelled_of_notMem hmem', hwords]

/-- Lines with carriage returns before their newlines hold the same names as without. -/
theorem names_eq_bareLines (t : Text) :
    names t = ((bareLines t).flatMap namesOnLine).eraseDups := by
  have hstrip : ∀ line : Text,
      namesOnLine (if line.getLast? = some '\r' then line.dropLast else line)
        = namesOnLine line := by
    intro line
    split
    · next hlast =>
      rw [← namesOnLine_return, List.dropLast_append_getLast? _ hlast]
    · rfl
  have hne : t.lines ≠ [] := by
    unfold lines
    rw [split_eq_splitOnP]
    exact List.splitOnP_ne_nil _ t
  obtain ⟨above, last, hlines⟩ : ∃ above last, t.lines = above ++ [last] :=
    ⟨_, _, (List.dropLast_append_getLast hne).symm⟩
  -- The last line is left out only if there is nothing in it, and then it has no names.
  have hlast : ((some last).filter (· != [])).toList.flatMap namesOnLine = namesOnLine last := by
    cases last with
    | nil => rfl
    | cons c last => exact List.flatMap_singleton _ _
  unfold names bareLines
  rw [hlines, List.dropLast_concat, List.getLast?_concat, List.flatMap_append, List.flatMap_append,
    hlast, List.flatMap_map, List.flatMap_singleton]
  simp only [hstrip]

/-- Names that are written are read back: behind a label, which is one line without a colon,
joined by anything but newlines; or without a label, joined by anything, if they have no
colons themselves. -/
theorem names_joined {label : Text} {found : List Text} (hcolon : ':' ∉ label)
    (hnewline : '\n' ∉ label) (hnodup : found.Nodup) (hnames : ∀ n ∈ found, IsName n) :
    (∀ t, Joined (fun c => (isBlank c = true ∨ c = ',') ∧ c ≠ '\n') found t →
        names (label ++ ':' :: t) = found)
      ∧ ((∀ n ∈ found, ':' ∉ n) → ∀ t, Joined (fun c => isBlank c = true ∨ c = ',') found t →
        names t = found) := by
  constructor
  · intro t ht
    have hmem : '\n' ∉ t := by
      intro hmem
      rcases mem_joined ht '\n' hmem with ⟨n, hn, hc⟩ | ⟨-, hne⟩
      · exact absurd ((hnames n hn).unbroken '\n' hc) (by decide)
      · exact hne rfl
    have hwords := words_joined (fun c hc => separates_iff.mpr hc.1) ht hnames
    unfold names
    rw [flatMap_lines_label hcolon hnewline hmem, hwords, eraseDups_of_nodup hnodup]
  · intro hcolons t ht
    have hmem : ':' ∉ t := by
      intro hmem
      rcases mem_joined ht ':' hmem with ⟨n, hn, hc⟩ | hsep
      · exact hcolons n hn hc
      · exact absurd hsep (by decide)
    have hwords := words_joined (fun c hc => separates_iff.mpr hc) ht hnames
    unfold names
    rw [flatMap_lines_words hmem, hwords, eraseDups_of_nodup hnodup]

/-- Two names are joined by a comma and white space, or stand on lines of their own. -/
theorem names_joined_available :
    names ("Available backends".toList ++ ':' :: ("c".toList ++ (",\r\t".toList ++ "ir:2".toList)))
        = ["c".toList, "ir:2".toList]
      ∧ names ("c".toList ++ ("\n\n".toList ++ "sbv".toList)) = ["c".toList, "sbv".toList] := by
  have hc : IsName "c".toList := ⟨by decide, List.all_eq_true.mp rfl⟩
  have hir : IsName "ir:2".toList := ⟨by decide, List.all_eq_true.mp rfl⟩
  have hsbv : IsName "sbv".toList := ⟨by decide, List.all_eq_true.mp rfl⟩
  have hlabelled := (@names_joined "Available backends".toList ["c".toList, "ir:2".toList]
    (by decide) (by decide) (by decide)
    (List.forall_mem_cons.mpr ⟨hc, List.forall_mem_singleton.mpr hir⟩)).1
  have hplain := (@names_joined [] ["c".toList, "sbv".toList] (by decide) (by decide) (by decide)
    (List.forall_mem_cons.mpr ⟨hc, List.forall_mem_singleton.mpr hsbv⟩)).2
  have hcomma := List.forall_iff_forall_mem.mp (by decide : List.Forall
    (fun c => (isBlank c = true ∨ c = ',') ∧ c ≠ '\n') ",\r\t".toList)
  have hbreak := List.forall_iff_forall_mem.mp (by decide : List.Forall
    (fun c => isBlank c = true ∨ c = ',') "\n\n".toList)
  exact ⟨hlabelled _ (.cons (by decide) hcomma (.single _)),
    hplain (by decide) _ (.cons (by decide) hbreak (.single _))⟩

end CryptolEdit.Backend
