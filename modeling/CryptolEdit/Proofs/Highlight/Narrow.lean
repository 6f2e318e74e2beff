import CryptolEdit.Proofs.Highlight.Piece
import Mathlib.Algebra.Group.Nat.Defs
import Mathlib.Data.List.Forall2

/-!
Highlighting with offsets of 32 bits.

An editor's offsets are numbers of 32 bits. Two of them may have no sum, and a
range must not end before it starts; a program that comes to that is stopped.
`Stretch.ofRange?` is highlighting as it goes with such offsets. First come the
tokens of the part, counted from its start. Then, one after the other, each is
moved to its place in the whole text, and either widens the last span or becomes
a new one. There is no result if any of it cannot be done.

It always can, in a text of less than 2 ^ 32 bytes, and the result is what
`Span.ofExtent` gives (`exists_ofRange?`). The loop goes from left to right and
merging from right to left; that these are the same is `Piece.merge_concat`. The
invariant of the loop is that its spans are the merged pieces of the tokens it
has seen (`exists_coalesce?`).
-/

namespace CryptolEdit

-- ============================================================= ranges

/-- A range of 32-bit offsets. -/
structure Range32 where
  start : UInt32
  stop : UInt32
  start_le_stop : start ≤ stop

namespace Range32

/-- The range between two offsets, if they come in order. -/
def ofBounds? (start stop : UInt32) : Option Range32 :=
  if h : start ≤ stop then some ⟨start, stop, h⟩ else none

/-- The sum of two offsets, if 32 bits hold it. -/
def add? (a b : UInt32) : Option UInt32 :=
  if a.toNat + b.toNat < 2 ^ 32 then some (a + b) else none

/-- The range so many bytes further on. -/
def shift? (n : UInt32) (r : Range32) : Option Range32 := do
  let start ← add? n r.start
  let stop ← add? n r.stop
  ofBounds? start stop

/-- The least range that covers both. -/
def cover (r q : Range32) : Range32 where
  start := if r.start ≤ q.start then r.start else q.start
  stop := if r.stop ≤ q.stop then q.stop else r.stop
  start_le_stop := by
    have hr := r.start_le_stop
    have hq := q.start_le_stop
    rw [UInt32.le_iff_toNat_le] at hr hq ⊢
    split <;> split <;> simp only [UInt32.le_iff_toNat_le] at * <;> omega

def extent (r : Range32) : Extent :=
  ⟨r.start.toNat, r.stop.toNat, UInt32.le_iff_toNat_le.mp r.start_le_stop⟩

/-- A sum that fits into 32 bits is exact. -/
theorem add?_eq_some {a b : UInt32} (h : a.toNat + b.toNat < 2 ^ 32) :
    ∃ c, add? a b = some c ∧ c.toNat = a.toNat + b.toNat :=
  ⟨a + b, if_pos h, by rw [UInt32.toNat_add, Nat.mod_eq_of_lt h]⟩

theorem ofBounds?_eq_some {start stop : UInt32} (h : start.toNat ≤ stop.toNat) :
    ∃ r, ofBounds? start stop = some r ∧ r.start = start ∧ r.stop = stop :=
  ⟨⟨start, stop, UInt32.le_iff_toNat_le.mpr h⟩, dif_pos (UInt32.le_iff_toNat_le.mpr h), rfl, rfl⟩

/-- A range can be moved as long as its end fits into 32 bits. -/
theorem shift?_eq_some {n : UInt32} {r : Range32} (h : n.toNat + r.stop.toNat < 2 ^ 32) :
    ∃ q, shift? n r = some q ∧ q.start.toNat = n.toNat + r.start.toNat
      ∧ q.stop.toNat = n.toNat + r.stop.toNat := by
  have hle := UInt32.le_iff_toNat_le.mp r.start_le_stop
  obtain ⟨start, hstart, hstart'⟩ := add?_eq_some (a := n) (b := r.start) (by omega)
  obtain ⟨stop, hstop, hstop'⟩ := add?_eq_some h
  have hle' : start.toNat ≤ stop.toNat := by omega
  obtain ⟨q, hq, rfl, rfl⟩ := ofBounds?_eq_some hle'
  refine ⟨q, ?_, hstart', hstop'⟩
  unfold shift?
  rw [hstart, hstop]
  exact hq

/-- Of two ranges in their right order, the first gives the start and the second
the stop. -/
theorem cover_of_le {r q : Range32} (hstart : r.start.toNat ≤ q.start.toNat)
    (hstop : r.stop.toNat ≤ q.stop.toNat) :
    (cover r q).start = r.start ∧ (cover r q).stop = q.stop :=
  ⟨if_pos (UInt32.le_iff_toNat_le.mpr hstart), if_pos (UInt32.le_iff_toNat_le.mpr hstop)⟩

end Range32

-- =========================================================== the loop

/-- A range and what it is highlighted as. -/
structure Stretch where
  range : Range32
  category : Option Category

namespace Stretch

/-- Puts a stretch behind others, as part of the last if both are plain. -/
def push : List Stretch → Stretch → List Stretch
  | [], s => [s]
  | [last], s =>
    if last.category.isNone && s.category.isNone then
      [{ last with range := last.range.cover s.range }]
    else
      [last, s]
  | first :: next :: rest, s => first :: push (next :: rest) s

/-- Takes one token to its place and puts it behind the spans that there are. -/
def step? (base : UInt32) (spans : List Stretch) (token : Stretch) : Option (List Stretch) := do
  let range ← token.range.shift? base
  return push spans { token with range := range }

/-- The spans of some tokens, counted from an offset. -/
def coalesce? (base : UInt32) (tokens : List Stretch) : Option (List Stretch) :=
  tokens.foldlM (step? base) []

/-- A token with what 32 bits hold of its offsets. -/
def ofToken? (t : Token) : Option Stretch := do
  let range ← Range32.ofBounds? t.start.toUInt32 t.stop.toUInt32
  return ⟨range, t.category?⟩

/-- The tokens of a text. -/
def lex? (m : Mode) (text : Text) : Option (List Stretch) :=
  (Token.ofText m text).mapM ofToken?

/-- The spans of a text. -/
def ofText? (m : Mode) (text : Text) : Option (List Stretch) := do
  let tokens ← lex? m text
  coalesce? 0 tokens

/-- The spans of a part of a text. -/
def ofRange? (m : Mode) (text : Text) (r : Range32) : Option (List Stretch) :=
  match r.extent.of? text with
  | none => some []
  | some part => do
    let tokens ← lex? m part
    coalesce? r.start tokens

/-- The stretch has the bounds and the category of the span. -/
structure Shows (s : Stretch) (span : Span) : Prop where
  start_eq : s.range.start.toNat = span.start
  stop_eq : s.range.stop.toNat = Text.ending Piece.text span
  category_eq : s.category = span.item.category

end Stretch

-- ============================================== merging from the left

namespace Piece

/-- Puts a piece behind others, as part of the last if both are plain. -/
def snoc : List Piece → Piece → List Piece
  | [], p => [p]
  | [last], p => if last.isPlain && p.isPlain then [⟨none, last.text ++ p.text⟩] else [last, p]
  | first :: next :: rest, p => first :: snoc (next :: rest) p

/-- It does not matter on which side of a piece merging goes on first. -/
theorem cons_snoc (p : Piece) (ps : List Piece) (q : Piece) :
    cons p (snoc ps q) = snoc (cons p ps) q := by
  match ps with
  | [] => rfl
  | [r] =>
      have hmerged : ∀ t, (⟨none, t⟩ : Piece).isPlain = true := fun t => rfl
      cases hp : p.isPlain <;> cases hr : r.isPlain <;> cases hq : q.isPlain <;>
        simp [cons, snoc, hp, hr, hq, hmerged]
  | r :: next :: rest =>
      rw [snoc, cons, cons]
      split <;> rfl

/-- Merging may take the pieces from the left. -/
theorem merge_concat (ps : List Piece) (p : Piece) :
    merge (ps ++ [p]) = snoc (merge ps) p := by
  induction ps with
  | nil => rfl
  | cons q ps ih => rw [List.cons_append, merge, merge, ih, cons_snoc]

end Piece

-- ======================================================== no overflow

namespace Stretch

/-- A token whose end fits into 32 bits becomes the span that it stands for. -/
theorem ofToken?_shows {t : Token} (h : t.stop < 2 ^ 32) :
    ∃ s, ofToken? t = some s ∧ Shows s (Span.ofToken t) := by
  have hstop : t.stop.toUInt32.toNat = t.stop := UInt32.toNat_ofNat_of_lt h
  have hle : t.start ≤ t.stop := Nat.le_add_right _ _
  have hstart : t.start.toUInt32.toNat = t.start :=
    UInt32.toNat_ofNat_of_lt (Nat.lt_of_le_of_lt hle h)
  have hle' : t.start.toUInt32.toNat ≤ t.stop.toUInt32.toNat := by
    rw [hstart, hstop]
    exact hle
  obtain ⟨range, hrange, hrange', hrange''⟩ := Range32.ofBounds?_eq_some hle'
  refine ⟨⟨range, t.category?⟩, ?_, ?_⟩
  · unfold ofToken?
    rw [hrange]
    rfl
  · exact {
      start_eq := by rw [hrange', hstart]; rfl
      stop_eq := by rw [hrange'', hstop]; rfl
      category_eq := rfl }

/-- If no element of a list fails, the whole list does not, and its results fit
element by element. -/
theorem exists_mapM {α β : Type} {f : α → Option β} {R : β → α → Prop} {as : List α}
    (h : ∀ a ∈ as, ∃ b, f a = some b ∧ R b a) :
    ∃ bs, as.mapM f = some bs ∧ List.Forall₂ R bs as := by
  induction as with
  | nil => exact ⟨[], rfl, .nil⟩
  | cons a as ih =>
      obtain ⟨hhead, htail⟩ := List.forall_mem_cons.mp h
      obtain ⟨b, hb, hR⟩ := hhead
      obtain ⟨bs, hbs, hall⟩ := ih htail
      refine ⟨b :: bs, ?_, .cons hR hall⟩
      rw [List.mapM_cons, hb, hbs]
      rfl

/-- A text of fewer than 2 ^ 32 bytes can be read, and gives the tokens that the
lexer without widths gives. -/
theorem exists_lex? (m : Mode) {text : Text} (h : Text.size text < 2 ^ 32) :
    ∃ tokens, lex? m text = some tokens
      ∧ List.Forall₂ Shows tokens
          (Text.place Piece.text 0 ((Lexeme.scan m.rules text).map Piece.ofLexeme)) := by
  have htokens : ∀ t ∈ Token.ofText m text,
      ∃ s, ofToken? t = some s ∧ Shows s (Span.ofToken t) := by
    intro t ht
    refine ofToken?_shows (Nat.lt_of_le_of_lt ?_ h)
    have hbounds := (Text.bounds_of_mem_place ht).2
    rw [(m.munched_scan text).1, Nat.zero_add] at hbounds
    exact hbounds
  obtain ⟨tokens, hlex, hshows⟩ := exists_mapM htokens
  refine ⟨tokens, hlex, ?_⟩
  rw [Span.place_ofLexeme]
  exact List.forall₂_map_right_iff.mpr hshows

-- ============================================================ the loop

/-- A stretch is without a category exactly if the piece is plain. -/
theorem Shows.isNone_eq {s : Stretch} {span : Span} (h : Shows s span) :
    s.category.isNone = span.item.isPlain := by
  rw [h.category_eq]
  rfl

/-- To widen a stretch is to lengthen a piece. -/
theorem shows_cover {base : Nat} {p q : Piece} {s s' : Stretch} (hs : Shows s ⟨base, p⟩)
    (hs' : Shows s' ⟨base + Text.size p.text, q⟩) (hplain : p.isPlain = true) :
    Shows { s with range := s.range.cover s'.range } ⟨base, ⟨none, p.text ++ q.text⟩⟩ := by
  have hstart : s.range.start.toNat = base := hs.start_eq
  have hstop : s.range.stop.toNat = base + Text.size p.text := hs.stop_eq
  have hstart' : s'.range.start.toNat = base + Text.size p.text := hs'.start_eq
  have hstop' : s'.range.stop.toNat = base + Text.size p.text + Text.size q.text := hs'.stop_eq
  obtain ⟨hcover, hcover'⟩ :=
    Range32.cover_of_le (r := s.range) (q := s'.range) (by omega) (by omega)
  exact {
    start_eq := by rw [hcover, hstart]
    stop_eq := by
      rw [hcover', hstop']
      unfold Text.ending
      rw [Text.size_append, Nat.add_assoc]
    category_eq := by
      rw [hs.category_eq]
      exact Option.isNone_iff_eq_none.mp hplain }

/-- To push a stretch is to put a piece behind others. -/
theorem push_shows {base : Nat} {ps : List Piece} {p : Piece} {spans : List Stretch}
    {s : Stretch} (hspans : List.Forall₂ Shows spans (Text.place Piece.text base ps))
    (hs : Shows s ⟨base + Text.size (ps.flatMap Piece.text), p⟩) :
    List.Forall₂ Shows (push spans s) (Text.place Piece.text base (Piece.snoc ps p)) := by
  fun_induction Piece.snoc ps p generalizing base spans with
  | case1 p =>
      cases hspans
      exact .cons hs .nil
  | case2 last p hplain =>
      obtain ⟨hlast, hp⟩ := Bool.and_eq_true_iff.mp hplain
      cases hspans with
      | cons hfirst hnil =>
          cases hnil
          rw [List.flatMap_singleton] at hs
          rw [push, if_pos (by rw [hfirst.isNone_eq, hs.isNone_eq]; exact hplain)]
          exact .cons (shows_cover hfirst hs hlast) .nil
  | case3 last p hplain =>
      cases hspans with
      | cons hfirst hnil =>
          cases hnil
          rw [List.flatMap_singleton] at hs
          rw [push, if_neg (by rw [hfirst.isNone_eq, hs.isNone_eq]; exact hplain)]
          exact .cons hfirst (.cons hs .nil)
  | case4 first next rest p ih =>
      cases hspans with
      | cons hfirst htail =>
          rw [List.flatMap_cons, Text.size_append, ← Nat.add_assoc] at hs
          have hpushed := ih htail hs
          cases htail with
          | cons hnext hrest => exact .cons hfirst hpushed

/-- One more token keeps the two forms in step, as long as the text so far fits
into 32 bits. -/
theorem step?_shows {base : UInt32} {done : List Piece} {p : Piece} {spans : List Stretch}
    {token : Stretch}
    (hspans : List.Forall₂ Shows spans (Text.place Piece.text base.toNat (Piece.merge done)))
    (htoken : Shows token ⟨Text.size (done.flatMap Piece.text), p⟩)
    (hsize : base.toNat + Text.size ((done ++ [p]).flatMap Piece.text) < 2 ^ 32) :
    ∃ out, step? base spans token = some out
      ∧ List.Forall₂ Shows out
          (Text.place Piece.text base.toNat (Piece.merge (done ++ [p]))) := by
  have hstart : token.range.start.toNat = Text.size (done.flatMap Piece.text) := htoken.start_eq
  have hstop : token.range.stop.toNat
      = Text.size (done.flatMap Piece.text) + Text.size p.text := htoken.stop_eq
  rw [List.flatMap_append, List.flatMap_singleton, Text.size_append] at hsize
  obtain ⟨range, hrange, hrange', hrange''⟩ :=
    Range32.shift?_eq_some (n := base) (r := token.range) (by rw [hstop]; exact hsize)
  refine ⟨push spans { token with range := range }, ?_, ?_⟩
  · unfold step?
    rw [hrange]
    rfl
  · rw [Piece.merge_concat]
    refine push_shows hspans ?_
    rw [Piece.flatMap_text_merge]
    exact {
      start_eq := by rw [hrange', hstart]
      stop_eq := by
        rw [hrange'', hstop, ← Nat.add_assoc]
        rfl
      category_eq := htoken.category_eq }

/-- From where the loop stands to its end. -/
theorem exists_foldlM_step? {base : UInt32} {done todo : List Piece}
    {spans tokens : List Stretch}
    (hspans : List.Forall₂ Shows spans (Text.place Piece.text base.toNat (Piece.merge done)))
    (htokens : List.Forall₂ Shows tokens
      (Text.place Piece.text (Text.size (done.flatMap Piece.text)) todo))
    (hsize : base.toNat + Text.size ((done ++ todo).flatMap Piece.text) < 2 ^ 32) :
    ∃ out, tokens.foldlM (step? base) spans = some out
      ∧ List.Forall₂ Shows out
          (Text.place Piece.text base.toNat (Piece.merge (done ++ todo))) := by
  induction todo generalizing done spans tokens with
  | nil =>
      cases htokens
      rw [List.append_nil]
      exact ⟨spans, rfl, hspans⟩
  | cons p todo ih =>
      cases htokens with
      | cons htoken hrest =>
          rw [List.append_cons] at hsize ⊢
          have hsize' : base.toNat + Text.size ((done ++ [p]).flatMap Piece.text) < 2 ^ 32 := by
            rw [List.flatMap_append, Text.size_append] at hsize
            omega
          obtain ⟨spans', hstep, hspans'⟩ := step?_shows hspans htoken hsize'
          rw [List.foldlM_cons, hstep]
          refine ih hspans' ?_ hsize
          rw [List.flatMap_append, List.flatMap_singleton, Text.size_append]
          exact hrest

theorem exists_coalesce? (m : Mode) (base : UInt32) {part : Text}
    (hsize : base.toNat + Text.size part < 2 ^ 32) :
    ∃ out, (lex? m part).bind (coalesce? base) = some out
      ∧ List.Forall₂ Shows out
          (Text.place Piece.text base.toNat (Piece.ofText m part)) := by
  obtain ⟨tokens, hlex, htokens⟩ := exists_lex? m (Nat.lt_of_le_of_lt (Nat.le_add_left _ _) hsize)
  rw [hlex]
  refine @exists_foldlM_step? base [] _ [] tokens .nil htokens ?_
  rw [List.nil_append, Piece.flatMap_text_ofLexeme, (m.munched_scan part).1]
  exact hsize

/-- With 32-bit offsets, highlighting a part never fails, and gives the spans of
the part. -/
theorem exists_ofRange? (m : Mode) {text : Text} (hsize : Text.size text < 2 ^ 32)
    (r : Range32) :
    ∃ out, ofRange? m text r = some out
      ∧ List.Forall₂ Shows out (Span.ofExtent m text r.extent) := by
  unfold ofRange?
  cases hpart : r.extent.of? text with
  | none =>
      rw [Span.ofExtent_of_none hpart]
      exact ⟨[], rfl, .nil⟩
  | some part =>
      rw [Span.ofExtent_of_some hpart]
      refine exists_coalesce? m r.start ?_
      obtain ⟨before, after, rfl, hbefore, -⟩ := Extent.of?_eq_some_iff.mp hpart
      have hstart : Text.size before = r.start.toNat := hbefore
      rw [Text.size_append, Text.size_append] at hsize
      omega

/-- A whole text of fewer than 2 ^ 32 bytes is highlighted as it is without
widths. -/
theorem exists_ofText? (m : Mode) {text : Text} (hsize : Text.size text < 2 ^ 32) :
    ∃ out, ofText? m text = some out ∧ List.Forall₂ Shows out (Span.ofText m text) :=
  exists_coalesce? m 0 (by rw [UInt32.toNat_zero, Nat.zero_add]; exact hsize)

end Stretch

end CryptolEdit
