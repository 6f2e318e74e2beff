import CryptolEdit.Text
import Mathlib.Data.List.Chain

/-!
Pieces that cover a text from one offset to another.

`Tiles` states the cover as a reader would check it: the first piece starts at
the one offset, each starts where the one before it ends, the last ends at the
other offset, none is empty, and each is what the text has between its bounds.
In particular every bound falls between characters.

A tiling is nothing but pieces laid end to end (`tiles_iff`). `tiles_nil` and
`tiles_cons` are the steps of the induction: a tiling is empty, or a piece and
a tiling from where that piece ends.
-/

namespace CryptolEdit.Text

variable {α : Type} (text : α → Text)

-- ============================================================ slices

theorem eq_nil_of_size_eq_zero {t : Text} (h : size t = 0) : t = [] := by
  cases t with
  | nil => rfl
  | cons c t =>
      have hpos := c.utf8Size_pos
      rw [size_cons] at h
      omega

/-- From an offset on, a text has what the rest begins with. -/
theorem slice?_eq_some_iff {done rest w : Text} :
    slice? (size done) (size done + size w) (done ++ rest) = some w ↔ w <+: rest := by
  unfold slice?
  rw [splitAt?_size_append, Option.bind_some, Nat.add_sub_cancel_left]
  constructor
  · intro h
    obtain ⟨⟨s, r⟩, hcut, rfl⟩ := Option.map_eq_some_iff.mp h
    exact ⟨r, (eq_append_of_splitAt? hcut).1.symm⟩
  · rintro ⟨r, rfl⟩
    show (splitAt? (size w) (w ++ r)).map Prod.fst = some w
    rw [splitAt?_size_append, Option.map_some]

-- ============================================================ placing

/-- Where a piece ends. -/
def ending (p : Located α) : Nat := p.start + size (text p.item)

/-- An item has an extent of its own exactly if its text is not empty. -/
theorem start_lt_ending_iff {p : Located α} :
    p.start < ending text p ↔ text p.item ≠ [] := by
  unfold ending
  rw [Nat.lt_add_right_iff_pos, Nat.pos_iff_ne_zero]
  exact not_congr ⟨eq_nil_of_size_eq_zero, fun h => h ▸ size_nil⟩

/-- A piece that was laid starts after all the pieces before it. -/
theorem mem_place_iff {base : Nat} {as : List α} {p : Located α} :
    p ∈ place text base as ↔ ∃ before a after, as = before ++ a :: after
      ∧ p = ⟨base + size (before.flatMap text), a⟩ := by
  induction as generalizing base with
  | nil => simp [place]
  | cons a as ih =>
      rw [place, List.mem_cons, ih]
      constructor
      · rintro (rfl | ⟨before, b, after, rfl, rfl⟩)
        · exact ⟨[], a, as, rfl, rfl⟩
        · refine ⟨a :: before, b, after, rfl, ?_⟩
          rw [List.flatMap_cons, size_append, Nat.add_assoc]
      · rintro ⟨before, b, after, heq, rfl⟩
        cases before with
        | nil =>
            cases heq
            exact Or.inl rfl
        | cons first before =>
            cases heq
            refine Or.inr ⟨before, b, after, rfl, ?_⟩
            rw [List.flatMap_cons, size_append, Nat.add_assoc]

-- ============================================================= tiling

/-- Pieces that cover a text from one offset to another. -/
structure Tiles (whole : Text) (lo hi : Nat) (pieces : List (Located α)) : Prop where
  starts : ∀ p, pieces.head? = some p → p.start = lo
  adjacent : pieces.IsChain fun p q => ending text p = q.start
  ends : (pieces.getLast?.map (ending text)).getD lo = hi
  nonempty : ∀ p ∈ pieces, p.start < ending text p
  cut : ∀ p ∈ pieces, whole.slice? p.start (ending text p) = some (text p.item)

variable {text} {whole : Text} {lo hi : Nat}

theorem tiles_nil : Tiles text whole lo hi [] ↔ lo = hi := by
  constructor
  · exact fun h => h.ends
  · intro h
    exact {
      starts := fun _ hp => nomatch hp
      adjacent := .nil
      ends := h
      nonempty := List.forall_mem_nil _
      cut := List.forall_mem_nil _ }

theorem tiles_cons {p : Located α} {ps : List (Located α)} :
    Tiles text whole lo hi (p :: ps) ↔
      p.start = lo ∧ text p.item ≠ []
        ∧ whole.slice? p.start (ending text p) = some (text p.item)
        ∧ Tiles text whole (ending text p) hi ps := by
  -- the last of the pieces, if the first is not the last, is the last of the rest
  have hends : (((p :: ps).getLast?).map (ending text)).getD lo
      = (ps.getLast?.map (ending text)).getD (ending text p) := by
    rw [List.getLast?_cons, Option.map_some, Option.getD_some, Option.getD_map]
  constructor
  · intro h
    obtain ⟨hnext, hadjacent⟩ := List.isChain_cons.mp h.adjacent
    obtain ⟨hnonempty, hnonempty'⟩ := List.forall_mem_cons.mp h.nonempty
    obtain ⟨hcut, hcut'⟩ := List.forall_mem_cons.mp h.cut
    refine ⟨h.starts p rfl, (start_lt_ending_iff text).mp hnonempty, hcut, ?_⟩
    exact {
      starts := fun q hq => (hnext q hq).symm
      adjacent := hadjacent
      ends := hends.symm.trans h.ends
      nonempty := hnonempty'
      cut := hcut' }
  · rintro ⟨hstart, hne, hcut, h⟩
    exact {
      starts := fun q hq => Option.some.inj hq ▸ hstart
      adjacent := List.isChain_cons.mpr ⟨fun q hq => (h.starts q hq).symm, h.adjacent⟩
      ends := hends.trans h.ends
      nonempty := List.forall_mem_cons.mpr
        ⟨(start_lt_ending_iff text).mpr hne, h.nonempty⟩
      cut := List.forall_mem_cons.mpr ⟨hcut, h.cut⟩ }

/-- Tilings are what comes of laying pieces end to end. -/
theorem tiles_iff {done rest : Text} {pieces : List (Located α)} :
    Tiles text (done ++ rest) (size done) hi pieces ↔
      ∃ as, pieces = place text (size done) as ∧ (∀ a ∈ as, text a ≠ [])
        ∧ as.flatMap text <+: rest ∧ hi = size done + size (as.flatMap text) := by
  induction pieces generalizing done rest with
  | nil =>
      rw [tiles_nil]
      constructor
      · rintro rfl
        exact ⟨[], rfl, List.forall_mem_nil _, List.nil_prefix, rfl⟩
      · rintro ⟨as, hplace, -, -, rfl⟩
        cases as with
        | nil => rfl
        | cons a as => cases hplace
  | cons p ps ih =>
      rw [tiles_cons]
      constructor
      · rintro ⟨hstart, hne, hcut, h⟩
        obtain ⟨start, a⟩ := p
        change start = size done at hstart
        subst hstart
        obtain ⟨rest, rfl⟩ := slice?_eq_some_iff.mp hcut
        change Tiles text (done ++ (text a ++ rest)) (size done + size (text a)) hi ps at h
        rw [← List.append_assoc, ← size_append, ih] at h
        obtain ⟨as, rfl, hall, hbegins, rfl⟩ := h
        refine ⟨a :: as, ?_, List.forall_mem_cons.mpr ⟨hne, hall⟩, ?_, ?_⟩
        · rw [place, size_append]
        · rw [List.flatMap_cons]
          exact (List.prefix_append_right_inj _).mpr hbegins
        · rw [List.flatMap_cons, size_append, size_append, Nat.add_assoc]
      · rintro ⟨as, hplace, hall, hbegins, rfl⟩
        cases as with
        | nil => cases hplace
        | cons a as =>
            cases hplace
            rw [List.flatMap_cons] at hbegins
            obtain ⟨hne, hall⟩ := List.forall_mem_cons.mp hall
            obtain ⟨rest', rfl⟩ := (List.prefix_append _ _).trans hbegins
            refine ⟨rfl, hne, slice?_eq_some_iff.mpr (List.prefix_append _ _), ?_⟩
            show Tiles text (done ++ (text a ++ rest')) (size done + size (text a)) _ _
            rw [← List.append_assoc]
            have htail := (@ih (done ++ text a) rest').mpr
              ⟨as, by rw [size_append], hall, (List.prefix_append_right_inj _).mp hbegins,
                by rw [List.flatMap_cons, size_append, size_append, Nat.add_assoc]⟩
            rw [size_append] at htail
            exact htail

/-- The same for a text as a whole. -/
theorem tiles_whole_iff {pieces : List (Located α)} :
    Tiles text whole 0 (size whole) pieces ↔
      ∃ as, pieces = place text 0 as ∧ (∀ a ∈ as, text a ≠ [])
        ∧ as.flatMap text = whole := by
  refine (@tiles_iff _ text _ [] whole pieces).trans ?_
  constructor
  · rintro ⟨as, rfl, hne, ⟨rest, rfl⟩, hsize⟩
    refine ⟨as, rfl, hne, ?_⟩
    rw [size_append, size_nil, Nat.zero_add] at hsize
    rw [eq_nil_of_size_eq_zero (Nat.add_eq_left.mp hsize), List.append_nil]
  · rintro ⟨as, rfl, hne, rfl⟩
    exact ⟨as, rfl, hne, List.prefix_refl _, (Nat.zero_add _).symm⟩

end CryptolEdit.Text
