import CryptolEdit.Proofs.Highlight.Narrow

/-!
Spans say all about a part, and no more than need be.

`Lossless` collects what the spans of a part are to be: they tile it, they spell
it, no two plain ones meet, and their marks are the marks of the part's tokens,
moved to where the part begins. The spans that highlighting gives are lossless
for every part there is (`lossless_ofExtent`), and a part that does not exist has
none.
-/

namespace CryptolEdit

namespace Span

/-- The spans of a part, lossless and minimal. -/
structure Lossless (m : Mode) (text part : Text) (r : Extent) (spans : List Span) : Prop where
  /-- None is empty, each begins where the one before it ends, and together they
  reach from the start of the part to its end. -/
  tiles : Text.Tiles Piece.text text r.start r.stop spans
  spells : spans.flatMap (fun span => span.item.text) = part
  /-- Plain neighbours are one span. -/
  alternating : spans.IsChain fun s s' => ¬(s.item.isPlain = true ∧ s'.item.isPlain = true)
  /-- Tokens with a category are a span each. -/
  marks_eq : marks spans = (Token.marks (Token.ofText m part)).map
    fun token => ofToken (token.shift r.start)

theorem flatMap_text_place (base : Nat) (ps : List Piece) :
    (Text.place Piece.text base ps).flatMap (fun span => span.item.text)
      = ps.flatMap Piece.text := by
  have hitems := congrArg (List.flatMap Piece.text) (Text.map_item_place Piece.text base ps)
  rw [List.flatMap_map] at hitems
  exact hitems

/-- Pieces that alternate still do when they have their places: no two plain spans
touch. -/
theorem isChain_place {base : Nat} {ps : List Piece} (h : Piece.Alternating ps) :
    (Text.place Piece.text base ps).IsChain
      fun s s' => ¬(s.item.isPlain = true ∧ s'.item.isPlain = true) := by
  rw [← Text.map_item_place Piece.text base ps] at h
  exact (List.isChain_map _).mp h

theorem lossless_ofExtent (m : Mode) {text part : Text} {r : Extent}
    (h : r.of? text = some part) : Lossless m text part r (ofExtent m text r) := by
  have hpieces := Piece.flatMap_text_ofText m part
  exact {
    tiles := by
      rw [ofExtent_of_some h]
      obtain ⟨before, after, rfl, hstart, hstop⟩ := Extent.of?_eq_some_iff.mp h
      rw [← hstart, ← hstop]
      refine Text.tiles_iff.mpr ⟨Piece.ofText m part, rfl,
        Piece.text_ne_nil_of_mem_ofText, ?_, ?_⟩
      · rw [hpieces]
        exact List.prefix_append _ _
      · rw [hpieces]
    spells := by rw [ofExtent_of_some h, flatMap_text_place, hpieces]
    alternating := by
      rw [ofExtent_of_some h]
      exact isChain_place (Piece.alternating_merge _)
    marks_eq := by
      rw [marks_ofExtent h, ← Nat.add_zero r.start, Mode.marks, Lexeme.marks_add, List.map_map]
      rfl }

/-- Highlighting a part of a text of less than 2 ^ 32 bytes. It never fails, and
what it gives with 32-bit offsets is what it gives with unbounded ones. There are
no spans if the part is out of bounds or cuts a character in two; if not, the
spans of the part are lossless. The spans of a text are those of the part that is
the whole of it. -/
theorem ofExtent_lossless (m : Mode) (text : Text) (hsize : Text.size text < 2 ^ 32)
    (r : Range32) :
    (∃ out, Stretch.ofRange? m text r = some out
        ∧ List.Forall₂ Stretch.Shows out (ofExtent m text r.extent))
      ∧ (¬(text.Boundary r.start.toNat ∧ text.Boundary r.stop.toNat) →
          ofExtent m text r.extent = [])
      ∧ (text.Boundary r.start.toNat → text.Boundary r.stop.toNat →
          ∃ part, r.extent.of? text = some part
            ∧ Lossless m text part r.extent (ofExtent m text r.extent))
      ∧ (∃ out, Stretch.ofText? m text = some out
          ∧ List.Forall₂ Stretch.Shows out (ofText m text))
      ∧ ofText m text = ofExtent m text (Extent.whole text) := by
  refine ⟨Stretch.exists_ofRange? m hsize r, fun hnone => ?_, fun hstart hstop => ?_,
    Stretch.exists_ofText? m hsize, ofText_eq_ofExtent m text⟩
  · exact ofExtent_of_none (Extent.of?_eq_none_iff.mpr hnone)
  · obtain ⟨part, hpart⟩ := (Extent.exists_of?_iff (e := r.extent)).mpr ⟨hstart, hstop⟩
    exact ⟨part, hpart, lossless_ofExtent m hpart⟩

/-- A part that begins between characters, and one that begins inside the first. -/
theorem ofExtent_lossless_beside_accent :
    Text.size "é let x".toList < 2 ^ 32
      ∧ Text.Boundary "é let x".toList 2 ∧ Text.Boundary "é let x".toList 8
      ∧ (∃ part, (⟨2, 8, by decide⟩ : Range32).extent.of? "é let x".toList = some part
          ∧ Lossless .source "é let x".toList part (⟨2, 8, by decide⟩ : Range32).extent
              (ofExtent .source "é let x".toList (⟨2, 8, by decide⟩ : Range32).extent))
      ∧ ¬(Text.Boundary "é let x".toList 1 ∧ Text.Boundary "é let x".toList 8)
      ∧ ofExtent .source "é let x".toList (⟨1, 8, by decide⟩ : Range32).extent = [] := by
  have hsize : Text.size "é let x".toList < 2 ^ 32 := by decide
  obtain ⟨-, -, hlossless, -⟩ := ofExtent_lossless .source _ hsize ⟨2, 8, by decide⟩
  obtain ⟨-, hnone, -⟩ := ofExtent_lossless .source _ hsize ⟨1, 8, by decide⟩
  exact ⟨hsize, by decide, by decide, hlossless (by decide) (by decide), by decide,
    hnone (by decide)⟩

end Span

end CryptolEdit
