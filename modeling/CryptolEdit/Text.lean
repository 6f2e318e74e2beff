/-!
Text as a list of characters, measured in UTF-8 bytes.

Editors speak of byte offsets, the rules of the language speak of characters. This file joins the
two: `size` measures a text in bytes, `splitAt?` cuts it at a byte offset (and refuses to cut a
character in two), `slice?` takes the part between two offsets, and `place` lays pieces of text end
to end from a base offset. Lines are the parts between newlines, so a text with `n` newlines has
`n + 1` lines.
-/

namespace CryptolEdit

abbrev Text := List Char

namespace Text

-- ============================================================ size

/-- Length of a text in UTF-8 bytes. -/
def size (t : Text) : Nat := t.foldr (fun c n => c.utf8Size + n) 0

@[simp] theorem size_nil : size [] = 0 := rfl

@[simp] theorem size_cons (c : Char) (t : Text) : size (c :: t) = c.utf8Size + size t := rfl

@[simp] theorem size_append (s t : Text) : size (s ++ t) = size s + size t := by
  induction s with
  | nil => simp
  | cons c s ih => simp [ih, Nat.add_assoc]

-- ========================================================== cutting

/-- The parts before and after a byte offset. There is no cut inside a character, and none past
the end. -/
def splitAt? : Nat → Text → Option (Text × Text)
  | 0, t => some ([], t)
  | _ + 1, [] => none
  | n + 1, c :: t =>
    if c.utf8Size ≤ n + 1 then
      (splitAt? (n + 1 - c.utf8Size) t).map fun (s, r) => (c :: s, r)
    else
      none

/-- The text between two byte offsets, if both fall between characters. -/
def slice? (start stop : Nat) (t : Text) : Option Text :=
  (splitAt? start t).bind fun (_, rest) => (splitAt? (stop - start) rest).map Prod.fst

/-- A cut loses nothing, and falls where it was asked for. -/
theorem eq_append_of_splitAt? {n : Nat} {t s r : Text} (h : splitAt? n t = some (s, r)) :
    t = s ++ r ∧ size s = n := by
  fun_induction splitAt? n t generalizing s r with
  | case1 t => simp_all
  | case2 => simp at h
  | case3 n c t hc ih =>
    obtain ⟨⟨u, v⟩, huv, hp⟩ := Option.map_eq_some_iff.1 h
    obtain ⟨rfl, rfl⟩ := Prod.mk.inj hp
    obtain ⟨rfl, hu⟩ := ih huv
    exact ⟨rfl, by rw [size_cons]; omega⟩
  | case4 => simp at h

/-- Every boundary between characters is a cut. -/
theorem splitAt?_size_append (s r : Text) : splitAt? (size s) (s ++ r) = some (s, r) := by
  induction s with
  | nil => cases r <;> simp [splitAt?]
  | cons c s ih =>
    have hc := c.utf8Size_pos
    obtain ⟨n, hn⟩ : ∃ n, size (c :: s) = n + 1 := ⟨size (c :: s) - 1, by simp; omega⟩
    rw [hn, List.cons_append, splitAt?]
    have hle : c.utf8Size ≤ n + 1 := by rw [← hn]; simp
    have hrest : n + 1 - c.utf8Size = size s := by rw [← hn]; simp
    simp [hle, hrest, ih]

-- =========================================================== places

/-- Something that stands at a byte offset. -/
structure Located (α : Type) where
  start : Nat
  item : α
deriving DecidableEq, Repr

/-- Lays items end to end from a base offset; each begins where the one before it ends. -/
def place {α : Type} (text : α → Text) : Nat → List α → List (Located α)
  | _, [] => []
  | base, a :: as => ⟨base, a⟩ :: place text (base + size (text a)) as

@[simp] theorem map_item_place {α : Type} (text : α → Text) (base : Nat) (as : List α) :
    (place text base as).map Located.item = as := by
  induction as generalizing base with
  | nil => rfl
  | cons a as ih => simp [place, ih]

-- ============================================================ parts

/-- The parts between the members that separate, without those. There is one part more than there
are separators. -/
def split {α : Type} (separates : α → Bool) : List α → List (List α)
  | [] => [[]]
  | a :: as =>
    if separates a then
      [] :: split separates as
    else
      match split separates as with
      | [] => [[a]]
      | part :: parts => (a :: part) :: parts

/-- The parts between newlines. -/
def lines (t : Text) : List Text := split (· == '\n') t

/-- Joins texts with a separator between each two. -/
def join (separator : Text) : List Text → Text
  | [] => []
  | [t] => t
  | t :: u :: ts => t ++ separator ++ join separator (u :: ts)

theorem length_dropWhile_le (p : Char → Bool) (t : Text) : (t.dropWhile p).length ≤ t.length :=
  (List.dropWhile_suffix p).length_le

-- =========================================================== tables

/-- Whether a table of ranges, first and last code point of each, has a code point. -/
def inRanges (table : List (Nat × Nat)) (n : Nat) : Bool :=
  table.any fun (lo, hi) => lo ≤ n && n ≤ hi

end Text

end CryptolEdit
