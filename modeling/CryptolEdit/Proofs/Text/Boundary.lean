import CryptolEdit.Proofs.Text.Tiling
import CryptolEdit.Text.Extent

/-!
Parts of a text: where they begin, and which pieces lie in them.

An offset is a boundary if it falls between characters. An extent has a text
exactly if both its ends are boundaries (`Extent.exists_of?_iff`), and then it is
what stands between them (`Extent.of?_eq_some_iff`).

Pieces laid end to end can be laid in two goes (`place_append`), and from
anywhere (`place_add`). A boundary falls inside a piece or at the end of one
(`exists_cut`). An extent covers the pieces that lie between its ends; of pieces
that lie before it, in it and after it, those are the ones in the middle
(`Extent.filter_covers`).
-/

namespace CryptolEdit

namespace Text

-- ========================================================= boundaries

/-- The offset falls between two characters of the text, or at one of its ends. -/
def Boundary (t : Text) (offset : Nat) : Prop :=
  ∃ before, before <+: t ∧ size before = offset

/-- A boundary is an offset at which the text can be split. -/
theorem boundary_iff_splitAt? {t : Text} {offset : Nat} :
    t.Boundary offset ↔ (splitAt? offset t).isSome = true := by
  constructor
  · rintro ⟨before, ⟨rest, rfl⟩, rfl⟩
    rw [splitAt?_size_append]
    rfl
  · intro h
    obtain ⟨⟨before, rest⟩, hcut⟩ := Option.isSome_iff_exists.mp h
    obtain ⟨rfl, hsize⟩ := eq_append_of_splitAt? hcut
    exact ⟨before, List.prefix_append _ _, hsize⟩

instance (t : Text) (offset : Nat) : Decidable (t.Boundary offset) :=
  decidable_of_iff _ boundary_iff_splitAt?.symm

/-- Of two beginnings of a text the one with fewer bytes begins the other. -/
theorem prefix_of_size_le {s s' t : Text} (h : s <+: t) (h' : s' <+: t)
    (hle : size s ≤ size s') : s <+: s' := by
  rcases List.prefix_or_prefix_of_prefix h h' with hs | ⟨rest, rfl⟩
  · exact hs
  · rw [size_append] at hle
    have hnil : rest = [] := eq_nil_of_size_eq_zero (by omega)
    exact ⟨[], by rw [hnil, List.append_nil, List.append_nil]⟩

-- ============================================================ placing

variable {α : Type} (text : α → Text)

/-- What stands some bytes further on. -/
def Located.shift (n : Nat) (p : Located α) : Located α := ⟨n + p.start, p.item⟩

/-- What is placed behind a list begins where the texts of the list end. -/
theorem place_append (base : Nat) (as bs : List α) :
    place text base (as ++ bs)
      = place text base as ++ place text (base + size (as.flatMap text)) bs := by
  induction as generalizing base with
  | nil => rfl
  | cons a as ih =>
      rw [List.cons_append, place, place, ih, List.flatMap_cons, size_append,
        Nat.add_assoc, List.cons_append]

/-- To begin further on moves every place by as much. -/
theorem place_add (base offset : Nat) (as : List α) :
    place text (base + offset) as = (place text offset as).map (Located.shift base) := by
  induction as generalizing offset with
  | nil => rfl
  | cons a as ih =>
      rw [place, place, List.map_cons, Nat.add_assoc, ih]
      rfl

variable {text}

/-- Pieces lie between the offsets they are laid between. -/
theorem bounds_of_mem_place {base : Nat} {as : List α} {p : Located α}
    (h : p ∈ place text base as) :
    base ≤ p.start ∧ ending text p ≤ base + size (as.flatMap text) := by
  obtain ⟨before, a, after, rfl, rfl⟩ := (mem_place_iff text).mp h
  unfold ending
  rw [List.flatMap_append, List.flatMap_cons, size_append, size_append]
  constructor
  · exact Nat.le_add_right _ _
  · show base + _ + size (text a) ≤ _
    omega

/-- The piece is not empty and lies between two offsets. -/
def Lies (text : α → Text) (lo hi : Nat) (p : Located α) : Prop :=
  lo ≤ p.start ∧ p.start < ending text p ∧ ending text p ≤ hi

/-- What is placed lies between the base and the end of all the texts. -/
theorem lies_of_mem_place {base : Nat} {as : List α} (hne : ∀ a ∈ as, text a ≠ [])
    {p : Located α} (h : p ∈ place text base as) :
    Lies text base (base + size (as.flatMap text)) p := by
  obtain ⟨hfrom, hto⟩ := bounds_of_mem_place h
  obtain ⟨before, a, after, rfl, rfl⟩ := (mem_place_iff text).mp h
  refine ⟨hfrom, (start_lt_ending_iff text).mpr ?_, hto⟩
  exact hne a (List.mem_append_right _ List.mem_cons_self)

/-- Each piece ends before all the pieces after it start. -/
theorem pairwise_ending_place (base : Nat) (as : List α) :
    (place text base as).Pairwise fun p q => ending text p ≤ q.start := by
  induction as generalizing base with
  | nil => exact .nil
  | cons a as ih => exact .cons (fun p hp => (bounds_of_mem_place hp).1) (ih _)

/-- Each piece starts after all the pieces before it. -/
theorem pairwise_place {base : Nat} {as : List α} (hne : ∀ a ∈ as, text a ≠ []) :
    (place text base as).Pairwise fun p q => p.start < q.start := by
  induction as generalizing base with
  | nil => exact .nil
  | cons a as ih =>
      obtain ⟨ha, has⟩ := List.forall_mem_cons.mp hne
      refine .cons (fun p hp => ?_) (ih has)
      have hstart := (bounds_of_mem_place hp).1
      have hpos : 0 < size (text a) := Nat.pos_of_ne_zero (mt eq_nil_of_size_eq_zero ha)
      show base < p.start
      omega

/-- An end of a piece of text lies in one of the pieces that it consists of, or
at its end. -/
theorem exists_cut {as : List α} {front back : Text}
    (h : as.flatMap text = front ++ back) (hfront : front ≠ []) :
    ∃ before a after u v, as = before ++ a :: after ∧ text a = u ++ v ∧ u ≠ []
      ∧ front = before.flatMap text ++ u ∧ back = v ++ after.flatMap text := by
  induction as generalizing front with
  | nil => exact absurd (List.append_eq_nil_iff.mp h.symm).1 hfront
  | cons a as ih =>
      rw [List.flatMap_cons] at h
      rcases List.append_eq_append_iff.mp h with ⟨u, rfl, hrest⟩ | ⟨v, ha, rfl⟩
      · by_cases hu : u = []
        · subst hu
          rw [List.append_nil] at hfront ⊢
          exact ⟨[], a, as, text a, [], rfl, (List.append_nil _).symm, hfront, rfl,
            hrest.symm⟩
        · obtain ⟨before, b, after, u', v, rfl, hb, hne, rfl, rfl⟩ := ih hrest hu
          refine ⟨a :: before, b, after, u', v, rfl, hb, hne, ?_, rfl⟩
          rw [List.flatMap_cons, List.append_assoc]
      · exact ⟨[], a, as, front, v, rfl, ha, hfront, rfl, rfl⟩

end Text

-- ============================================================ extents

namespace Extent

open Text

/-- The part of an extent is what stands between its two offsets. -/
theorem of?_eq_some_iff {e : Extent} {t part : Text} :
    e.of? t = some part ↔ ∃ before after, t = before ++ (part ++ after)
      ∧ size before = e.start ∧ size before + size part = e.stop := by
  have hle := e.start_le_stop
  constructor
  · intro h
    obtain ⟨⟨before, rest⟩, hstart, h⟩ := Option.bind_eq_some_iff.mp h
    obtain ⟨⟨part', after⟩, hstop, rfl⟩ := Option.map_eq_some_iff.mp h
    obtain ⟨rfl, hsize⟩ := eq_append_of_splitAt? hstart
    obtain ⟨rfl, hsize'⟩ := eq_append_of_splitAt? hstop
    exact ⟨before, after, rfl, hsize, by rw [hsize, hsize']; omega⟩
  · rintro ⟨before, after, rfl, hstart, hstop⟩
    rw [of?, ← hstart, ← hstop, slice?_eq_some_iff]
    exact List.prefix_append _ _

/-- An extent has a text exactly if it is in bounds and cuts no character. -/
theorem exists_of?_iff {e : Extent} {t : Text} :
    (∃ part, e.of? t = some part) ↔ t.Boundary e.start ∧ t.Boundary e.stop := by
  simp only [of?_eq_some_iff]
  constructor
  · rintro ⟨part, before, after, rfl, hstart, hstop⟩
    refine ⟨⟨before, List.prefix_append _ _, hstart⟩, before ++ part, ?_, ?_⟩
    · exact ⟨after, List.append_assoc _ _ _⟩
    · rw [size_append, hstop]
  · rintro ⟨⟨before, hbefore, hstart⟩, upto, hupto, hstop⟩
    have hle : size before ≤ size upto := by
      rw [hstart, hstop]
      exact e.start_le_stop
    obtain ⟨part, rfl⟩ := prefix_of_size_le hbefore hupto hle
    obtain ⟨after, rfl⟩ := hupto
    refine ⟨part, before, after, List.append_assoc _ _ _, hstart, ?_⟩
    rw [← size_append, hstop]

/-- An extent has no part exactly if one of its ends is no boundary. -/
theorem of?_eq_none_iff {e : Extent} {t : Text} :
    e.of? t = none ↔ ¬(t.Boundary e.start ∧ t.Boundary e.stop) := by
  rw [← exists_of?_iff, Option.eq_none_iff_forall_ne_some, not_exists]

/-- The whole of a text. -/
def whole (t : Text) : Extent := ⟨0, size t, Nat.zero_le _⟩

theorem of?_whole (t : Text) : (whole t).of? t = some t :=
  of?_eq_some_iff.mpr ⟨[], [], (List.append_nil t).symm, rfl, Nat.zero_add _⟩

-- ======================================================= what they cover

variable {α : Type} {text : α → Text}

/-- The piece lies between the ends of the extent. -/
def Covers (e : Extent) (text : α → Text) (p : Located α) : Prop :=
  e.start ≤ p.start ∧ ending text p ≤ e.stop

instance (e : Extent) (text : α → Text) (p : Located α) : Decidable (e.Covers text p) :=
  inferInstanceAs (Decidable (_ ∧ _))

/-- Of pieces before an extent, in it and after it, it covers those in it. -/
theorem filter_covers {e : Extent} (lo hi : Nat) {before inside after : List (Located α)}
    (hbefore : ∀ p ∈ before, Lies text lo e.start p)
    (hinside : ∀ p ∈ inside, Lies text e.start e.stop p)
    (hafter : ∀ p ∈ after, Lies text e.stop hi p) :
    (before ++ (inside ++ after)).filter (fun p => e.Covers text p) = inside := by
  have hnone : before.filter (fun p => decide (e.Covers text p)) = [] := by
    refine List.filter_eq_nil_iff.mpr fun p hp hcovers => ?_
    obtain ⟨hstart, -⟩ := of_decide_eq_true hcovers
    obtain ⟨-, hlt, hle⟩ := hbefore p hp
    omega
  have hnone' : after.filter (fun p => decide (e.Covers text p)) = [] := by
    refine List.filter_eq_nil_iff.mpr fun p hp hcovers => ?_
    obtain ⟨-, hstop⟩ := of_decide_eq_true hcovers
    obtain ⟨hle, hlt, -⟩ := hafter p hp
    omega
  have hall : inside.filter (fun p => decide (e.Covers text p)) = inside := by
    refine List.filter_eq_self.mpr fun p hp => decide_eq_true ?_
    obtain ⟨hstart, -, hstop⟩ := hinside p hp
    exact ⟨hstart, hstop⟩
  rw [List.filter_append, List.filter_append, hnone, hnone', hall, List.append_nil]
  rfl

end Extent

end CryptolEdit
