import CryptolEdit.Proofs.Text.Boundary
import CryptolEdit.Proofs.Token.Seam

/-!
Lexing the parts of a text.

# The end of a part

What follows a lexeme matters only in so far as the lexeme might have been
longer. A text that ends earlier offers less (`Munches.cut`), so up to the end of
a part its lexemes are those of the whole (`scan_cut`).

# The start of a part

A part may begin inside a lexeme, and then its first lexemes are new. Not much
depends on that if the part before is confined: lexing the two on their own finds
the same categorized lexemes as lexing them together (`marks_append`). They need
not fall into step at once, because a run of blanks may go on across the seam;
but blanks that a text begins with are never missed (`marks_blanks`).

Together these give what a part has of the marks of the whole: those that end in
it (`mem_marks_of_ending_le`), and those that begin in it
(`mem_marks_of_le_start`).
-/

namespace CryptolEdit

-- ============================================================== marks

/-- The tokens with a category. -/
def Token.marks (tokens : List Token) : List Token :=
  tokens.filter fun t => t.category?.isSome

/-- The marks of lexemes that are laid from an offset on. -/
def Lexeme.marks (base : Nat) (ls : List Lexeme) : List Token :=
  Token.marks (Text.place Lexeme.text base ls)

/-- The marks of a text that begins at an offset. -/
def Mode.marks (m : Mode) (base : Nat) (t : Text) : List Token :=
  Lexeme.marks base (Lexeme.scan m.rules t)

namespace Lexeme

/-- The marks of lexemes behind others begin where the others end. -/
theorem marks_append (base : Nat) (ls ls' : List Lexeme) :
    marks base (ls ++ ls')
      = marks base ls ++ marks (base + Text.size (ls.flatMap Lexeme.text)) ls' := by
  unfold marks Token.marks
  rw [Text.place_append, List.filter_append]

theorem marks_cons (base : Nat) (l : Lexeme) (ls : List Lexeme) :
    marks base (l :: ls) = marks base [l] ++ marks (base + Text.size l.text) ls := by
  have happend := marks_append base [l] ls
  rw [List.flatMap_singleton] at happend
  exact happend

theorem marks_of_plain (base : Nat) {l : Lexeme} (h : l.kind.category? = none) :
    marks base [l] = [] := by
  refine List.filter_eq_nil_iff.mpr fun t ht => ?_
  rw [List.mem_singleton.mp ht]
  simp [Token.category?, h]

/-- To begin further on moves every mark by as much. -/
theorem marks_add (base offset : Nat) (ls : List Lexeme) :
    marks (base + offset) ls = (marks offset ls).map (Text.Located.shift base) := by
  unfold marks Token.marks
  rw [Text.place_add, List.filter_map]
  rfl

theorem bounds_of_mem_marks {base : Nat} {ls : List Lexeme} {t : Token}
    (h : t ∈ marks base ls) :
    base ≤ t.start
      ∧ Text.ending Lexeme.text t ≤ base + Text.size (ls.flatMap Lexeme.text) :=
  Text.bounds_of_mem_place (List.mem_filter.mp h).1

end Lexeme

namespace Mode

variable {m : Mode}

-- ========================================================== cut lexemes

/-- A lexeme stays what it is before other text if nothing is spelled there that was
not spelled before. -/
theorem Munches.of_spelled {l : Lexeme} {rest rest' : Text} (h : m.Munches (l.text ++ rest) l)
    (hall : ∀ kind w, w <+: l.text ++ rest' → m.Spells kind w → w <+: l.text ++ rest) :
    m.Munches (l.text ++ rest') l where
  isPrefix := List.prefix_append _ _
  stray_iff := by
    constructor
    · intro hstray kind w hne hw hspelled
      exact h.stray_iff.mp hstray kind w hne (hall kind w hw hspelled) hspelled
    · intro hnone
      by_contra hkind
      exact hnone _ _ h.text_ne_nil (List.prefix_append _ _) (h.spelled hkind)
  stray_length := h.stray_length
  spelled := h.spelled
  longest := fun kind w hw hspelled => h.longest kind w (hall kind w hw hspelled) hspelled
  literal_first := h.literal_first

/-- A lexeme stays what it is if the text ends earlier. -/
theorem Munches.cut {l : Lexeme} {rest rest' : Text} (h : m.Munches (l.text ++ rest) l)
    (hrest : rest' <+: rest) : m.Munches (l.text ++ rest') l :=
  h.of_spelled fun _ _ hw _ => hw.trans ((List.prefix_append_right_inj _).mpr hrest)

/-- Lexemes stay munched if those behind them are read anew from a beginning of
their text. -/
theorem munched_append_cut {ls ls' ls'' : List Lexeme} (h : m.Munched (ls ++ ls'))
    (hnext : m.Munched ls'') (hcut : ls''.flatMap Lexeme.text <+: ls'.flatMap Lexeme.text) :
    m.Munched (ls ++ ls'') := by
  induction ls with
  | nil => exact hnext
  | cons l ls ih =>
      rw [List.cons_append, munched_cons, List.flatMap_append] at h ⊢
      exact ⟨h.1.cut ((List.prefix_append_right_inj _).mpr hcut), ih h.2⟩

/-- The lexemes behind others are munched on their own. -/
theorem munched_of_append {ls ls' : List Lexeme} (h : m.Munched (ls ++ ls')) :
    m.Munched ls' := by
  induction ls with
  | nil => exact h
  | cons l ls ih => exact ih (munched_cons.mp h).2

/-- No lexeme is empty. -/
theorem text_ne_nil_of_mem_scan {t : Text} :
    ∀ l ∈ Lexeme.scan m.rules t, l.text ≠ [] := by
  intro l hl
  obtain ⟨before, after, hscan⟩ := List.append_of_mem hl
  exact ((m.munched_scan t).2 before l after hscan).text_ne_nil

-- ======================================================== cut scanning

/-- Where a lexeme begins, what stands before has no influence. -/
theorem scan_of_append {t : Text} {ls ls' : List Lexeme}
    (h : Lexeme.scan m.rules t = ls ++ ls') :
    t = ls.flatMap Lexeme.text ++ ls'.flatMap Lexeme.text
      ∧ Lexeme.scan m.rules (ls'.flatMap Lexeme.text) = ls' := by
  obtain ⟨hspelling, hmunched⟩ := scan_eq_iff.mp h
  rw [List.flatMap_append] at hspelling
  exact ⟨hspelling.symm, scan_eq_iff.mpr ⟨rfl, munched_of_append hmunched⟩⟩

/-- Lexemes of a text are still its lexemes if it ends earlier, after them. -/
theorem scan_cut {t rest : Text} {ls ls' : List Lexeme}
    (h : Lexeme.scan m.rules t = ls ++ ls') (hrest : rest <+: ls'.flatMap Lexeme.text) :
    Lexeme.scan m.rules (ls.flatMap Lexeme.text ++ rest)
      = ls ++ Lexeme.scan m.rules rest := by
  obtain ⟨hspelling, hmunched⟩ := m.munched_scan rest
  refine scan_eq_iff.mpr ⟨by rw [List.flatMap_append, hspelling], ?_⟩
  refine munched_append_cut (scan_eq_iff.mp h).2 hmunched ?_
  rw [hspelling]
  exact hrest

theorem scan_nil : Lexeme.scan m.rules [] = [] := by
  rw [Lexeme.scan]

/-- Lexemes that follow each other are the lexemes of what they spell. -/
theorem scan_of_infix {t : Text} {ls inner ls' : List Lexeme}
    (h : Lexeme.scan m.rules t = ls ++ (inner ++ ls')) :
    Lexeme.scan m.rules (inner.flatMap Lexeme.text) = inner := by
  have hcut := scan_cut (scan_of_append h).2 List.nil_prefix
  rw [scan_nil, List.append_nil, List.append_nil] at hcut
  exact hcut

/-- What is not a single character is spelled, for only strays are not. -/
theorem Munches.spelled_of_length {t : Text} {l : Lexeme} (h : m.Munches t l)
    (hlength : l.text.length ≠ 1) : m.Spells l.kind l.text :=
  h.spelled fun hstray => hlength (h.stray_length hstray)

/-- Every text but the empty one is a lexeme and a rest. -/
theorem exists_munches {t : Text} (hne : t ≠ []) :
    ∃ l rest, t = l.text ++ rest ∧ m.Munches t l := by
  obtain ⟨c, t, rfl⟩ := List.exists_cons_of_ne_nil hne
  obtain ⟨l, hmunches, -⟩ := scan_cons m c t
  obtain ⟨rest, hrest⟩ := hmunches.isPrefix
  exact ⟨l, rest, hrest.symm, hmunches⟩

/-- A lexeme that is munched is the first of the scan. -/
theorem scan_eq_cons {l : Lexeme} {rest : Text} (h : m.Munches (l.text ++ rest) l) :
    Lexeme.scan m.rules (l.text ++ rest) = l :: Lexeme.scan m.rules rest := by
  obtain ⟨hspelling, hmunched⟩ := m.munched_scan rest
  refine scan_eq_iff.mpr ⟨by rw [List.flatMap_cons, hspelling], munched_cons.mpr ⟨?_, hmunched⟩⟩
  rw [hspelling]
  exact h

-- ============================================================= blanks

/-- A whole run of blanks is one lexeme. -/
theorem munches_blanks {w rest : Text} (hne : w ≠ []) (hw : ∀ c ∈ w, c ∈ blanks)
    (hrest : ∀ c ∈ rest.head?, c ∉ blanks) : m.Munches (w ++ rest) ⟨.blank, w⟩ := by
  have hspelled : m.Spells .blank w := .blank hne hw
  have hbegins : w <+: w ++ rest := List.prefix_append _ _
  exact {
    isPrefix := hbegins
    stray_iff := iff_of_false hspelled.ne_stray fun hnone =>
      hnone _ _ hne hbegins hspelled
    stray_length := fun hkind => absurd hkind hspelled.ne_stray
    spelled := fun _ => hspelled
    longest := by
      intro kind x hx hspells
      by_contra hlt
      obtain ⟨y, rfl⟩ := List.prefix_of_prefix_length_le hbegins hx (Nat.le_of_not_le hlt)
      have hall := (hspells.blank_of_append hne hw).2
      have hy := (List.prefix_append_right_inj _).mp hx
      cases y with
      | nil => exact hlt (by rw [List.append_nil])
      | cons d y =>
          obtain ⟨rest, rfl⟩ := hy
          exact hrest d rfl (hall d (List.mem_append_right _ List.mem_cons_self))
    literal_first := by
      intro category hliteral
      rw [← List.append_nil w] at hliteral
      cases (hliteral.blank_of_append hne hw).1 }

/-- The marks of a text are those of its first lexeme and then those of the
rest. -/
theorem marks_of_munches (base : Nat) {l : Lexeme} {rest : Text}
    (h : m.Munches (l.text ++ rest) l) :
    m.marks base (l.text ++ rest)
      = Lexeme.marks base [l] ++ m.marks (base + Text.size l.text) rest := by
  unfold marks
  rw [scan_eq_cons h, Lexeme.marks_cons]

/-- Blanks in front add no mark. -/
theorem marks_run (base : Nat) {w rest : Text} (hw : ∀ c ∈ w, c ∈ blanks)
    (hrest : ∀ c ∈ rest.head?, c ∉ blanks) :
    m.marks base (w ++ rest) = m.marks (base + Text.size w) rest := by
  by_cases hne : w = []
  · subst hne
    rfl
  · have hmunches : m.Munches (w ++ rest) ⟨.blank, w⟩ := munches_blanks hne hw hrest
    have hmarks := marks_of_munches (l := ⟨.blank, w⟩) base hmunches
    rw [Lexeme.marks_of_plain base rfl, List.nil_append] at hmarks
    exact hmarks

/-- Blanks that a text begins with are not missed. -/
theorem marks_blanks (base : Nat) {w : Text} (hw : ∀ c ∈ w, c ∈ blanks) (rest : Text) :
    m.marks base (w ++ rest) = m.marks (base + Text.size w) rest := by
  -- the run of blanks may go on
  have hmore : ∀ c ∈ rest.takeWhile (· ∈ blanks), c ∈ blanks := fun c hc =>
    of_decide_eq_true (List.all_eq_true.mp List.all_takeWhile c hc)
  have htail : ∀ c ∈ (rest.dropWhile (· ∈ blanks)).head?, c ∉ blanks := by
    intro c hc hmem
    have hnot := List.head?_dropWhile_not (fun c => decide (c ∈ blanks)) rest
    rw [hc] at hnot
    simp [hmem] at hnot
  obtain ⟨more, tail, rfl, hmore, htail⟩ : ∃ more tail, rest = more ++ tail
      ∧ (∀ c ∈ more, c ∈ blanks) ∧ ∀ c ∈ tail.head?, c ∉ blanks :=
    ⟨_, _, List.takeWhile_append_dropWhile.symm, hmore, htail⟩
  have hall : ∀ c ∈ w ++ more, c ∈ blanks := List.forall_mem_append.mpr ⟨hw, hmore⟩
  rw [← List.append_assoc, marks_run base hall htail, marks_run _ hmore htail,
    Text.size_append, Nat.add_assoc]

-- =============================================================== parts

theorem marks_nil (base : Nat) : m.marks base [] = [] := by
  unfold marks
  rw [scan_nil]
  rfl

theorem marks_of_blanks (base : Nat) {w : Text} (hw : ∀ c ∈ w, c ∈ blanks) :
    m.marks base w = [] := by
  have hmarks := marks_blanks (m := m) base hw []
  rw [List.append_nil, marks_nil] at hmarks
  exact hmarks

/-- Of two cuts of a text one comes first. -/
theorem append_seam {t rest w tail : Text} (h : t ++ rest = w ++ tail) :
    (∃ c x, w = t ++ c :: x ∧ c :: x <+: rest)
      ∨ ∃ inner, t = w ++ inner ∧ tail = inner ++ rest := by
  rcases List.append_eq_append_iff.mp h with ⟨beyond, hw, hrest⟩ | hinside
  · cases beyond with
    | nil => exact .inr ⟨[], by rw [hw, List.append_nil, List.append_nil], hrest.symm⟩
    | cons c x => exact .inl ⟨c, x, hw, hrest ▸ List.prefix_append _ _⟩
  · exact .inr hinside

/-- Confined parts can be lexed on their own. -/
theorem marks_append (base : Nat) {t rest : Text} (h : m.Confined t rest) :
    m.marks base (t ++ rest) = m.marks base t ++ m.marks (base + Text.size t) rest := by
  induction hn : t.length using Nat.strongRecOn generalizing base t with
  | ind n ih =>
      by_cases hne : t = []
      · subst hne
        rw [marks_nil]
        rfl
      · obtain ⟨l, tail, htext, hmunches⟩ :=
          exists_munches (m := m) (t := t ++ rest) (List.append_ne_nil_of_left_ne_nil hne rest)
        rcases append_seam htext with ⟨c, x, hl, hx⟩ | ⟨inner, rfl, rfl⟩
        · -- the lexeme goes on beyond the seam, so it is blank, and so is `t`
          have hspelled := hmunches.spelled_of_length (by
            have hpos := List.length_pos_of_ne_nil hne
            rw [hl, List.length_append, List.length_cons]
            omega)
          rw [hl] at hspelled
          have hkind := h t c x _ List.suffix_rfl hne hx hspelled
          rw [hkind] at hspelled
          have hblank : ∀ d ∈ t, d ∈ blanks := fun d hd =>
            hspelled.mem_blanks d (List.mem_append_left _ hd)
          rw [marks_blanks base hblank, marks_of_blanks base hblank, List.nil_append]
        · -- the lexeme ends inside, or at the seam
          rw [List.append_assoc] at hmunches ⊢
          have hlt : inner.length < n := by
            have hpos := List.length_pos_of_ne_nil hmunches.text_ne_nil
            rw [← hn, List.length_append]
            omega
          rw [marks_of_munches base hmunches,
            marks_of_munches base (hmunches.cut (List.prefix_append inner rest)),
            ih inner.length hlt (base + Text.size l.text)
              (h.of_suffix (List.suffix_append _ _)) rfl,
            List.append_assoc, Text.size_append, Nat.add_assoc]

/-- A mark is a lexeme of the scan that has a category, behind the texts of those
before it. -/
theorem mem_marks_iff {base : Nat} {t : Text} {token : Token} :
    token ∈ m.marks base t ↔ ∃ before l after,
      Lexeme.scan m.rules t = before ++ l :: after ∧ l.kind.category?.isSome = true
        ∧ token = ⟨base + Text.size (before.flatMap Lexeme.text), l⟩ := by
  unfold marks Lexeme.marks Token.marks
  rw [List.mem_filter, Text.mem_place_iff]
  constructor
  · rintro ⟨⟨before, l, after, hscan, rfl⟩, hcategory⟩
    exact ⟨before, l, after, hscan, hcategory, rfl⟩
  · rintro ⟨before, l, after, hscan, hcategory, rfl⟩
    exact ⟨⟨before, l, after, hscan, rfl⟩, hcategory⟩

theorem lies_of_mem_marks {base : Nat} {t : Text} {token : Token}
    (h : token ∈ m.marks base t) :
    Text.Lies Lexeme.text base (base + Text.size t) token := by
  have hlies := Text.lies_of_mem_place text_ne_nil_of_mem_scan (List.mem_filter.mp h).1
  rw [(m.munched_scan t).1] at hlies
  exact hlies

/-- The marks that end in the front part are marks of that part. -/
theorem mem_marks_of_ending_le {base : Nat} {front back : Text} {token : Token}
    (h : token ∈ m.marks base (front ++ back))
    (hle : Text.ending Lexeme.text token ≤ base + Text.size front) :
    token ∈ m.marks base front := by
  obtain ⟨before, l, after, hscan, hcategory, rfl⟩ := mem_marks_iff.mp h
  rw [List.append_cons] at hscan
  have htext := (scan_of_append hscan).1
  have hbegins : (before ++ [l]).flatMap Lexeme.text <+: front := by
    refine Text.prefix_of_size_le (t := front ++ back) ?_ (List.prefix_append _ _) ?_
    · rw [htext]
      exact List.prefix_append _ _
    · rw [List.flatMap_append, List.flatMap_singleton, Text.size_append]
      have hle' : base + Text.size (before.flatMap Lexeme.text) + Text.size l.text
          ≤ base + Text.size front := hle
      omega
  obtain ⟨rest, rfl⟩ := hbegins
  rw [List.append_assoc] at htext
  have hcut := scan_cut hscan ⟨back, List.append_cancel_left htext⟩
  rw [List.append_assoc] at hcut
  exact mem_marks_iff.mpr ⟨before, l, _, hcut, hcategory, rfl⟩

/-- The marks that begin in the back part are marks of that part. -/
theorem mem_marks_of_le_start {base : Nat} {front back : Text} {token : Token}
    (h : token ∈ m.marks base (front ++ back))
    (hle : base + Text.size front ≤ token.start) :
    token ∈ m.marks (base + Text.size front) back := by
  by_cases hne : front = []
  · subst hne
    exact h
  · obtain ⟨hspelling, hmunched⟩ := m.munched_scan (front ++ back)
    obtain ⟨before, l, after, u, v, hscan, hl, hu, rfl, rfl⟩ := Text.exists_cut hspelling hne
    have hconfined : m.Confined v (after.flatMap Lexeme.text) := by
      refine Confined.of_suffix (t := l.text) ?_ ?_
      · exact (hmunched before l after hscan).confined
      · rw [hl]
        exact List.suffix_append _ _
    have hafter : Lexeme.scan m.rules (after.flatMap Lexeme.text) = after := by
      rw [List.append_cons] at hscan
      exact (scan_of_append hscan).2
    have hoffset : base + Text.size (before.flatMap Lexeme.text) + Text.size l.text
        = base + Text.size (before.flatMap Lexeme.text ++ u) + Text.size v := by
      rw [hl, Text.size_append, Text.size_append]
      omega
    rw [marks_append _ hconfined, List.mem_append]
    right
    unfold marks at h ⊢
    rw [hscan, Lexeme.marks_append, Lexeme.marks_cons, hoffset, List.mem_append,
      List.mem_append] at h
    rw [hafter]
    -- the mark is not before the lexeme that is cut, nor is it that lexeme
    have hpos : 0 < Text.size u := Nat.pos_of_ne_zero (mt Text.eq_nil_of_size_eq_zero hu)
    rw [Text.size_append] at hle
    rcases h with h | h | h
    · have hbounds := Lexeme.bounds_of_mem_marks h
      unfold Text.ending at hbounds
      omega
    · cases List.mem_singleton.mp (List.mem_filter.mp h).1
      dsimp only at hle
      omega
    · exact h

end Mode

end CryptolEdit
