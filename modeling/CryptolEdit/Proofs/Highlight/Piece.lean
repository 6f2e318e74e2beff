import CryptolEdit.Highlight
import CryptolEdit.Proofs.Token.Part

/-!
Merging plain pieces, and the spans that come of it.

Merging goes piece by piece, and one step has two outcomes (`cons_cases`): the
piece becomes part of the first of those that follow it, or it stands in front of
them and not both are plain. Everything else here is read off these two: text
and marks stay where they are (`flatMap_text_merge`, `marks_place_merge`), no two
neighbours are plain (`alternating_merge`), and where merged pieces fall apart
into two lists the pieces they are made of do so too (`merge_eq_append`).

So the spans of a part have the marks of its text (`marks_ofExtent`).
-/

namespace CryptolEdit

namespace Piece

-- ============================================================= merging

/-- A piece either melts into the one behind it, both being plain, or stays on its
own. -/
theorem cons_cases (p : Piece) (ps : List Piece) :
    (∃ q qs, ps = q :: qs ∧ p.isPlain = true ∧ q.isPlain = true
        ∧ cons p ps = ⟨none, p.text ++ q.text⟩ :: qs)
      ∨ ((∀ q ∈ ps.head?, ¬(p.isPlain = true ∧ q.isPlain = true)) ∧ cons p ps = p :: ps) := by
  cases ps with
  | nil => exact .inr ⟨fun q hq => absurd hq (Option.not_mem_none q), rfl⟩
  | cons q qs =>
      by_cases h : (p.isPlain && q.isPlain) = true
      · obtain ⟨hp, hq⟩ := Bool.and_eq_true_iff.mp h
        exact .inl ⟨q, qs, rfl, hp, hq, if_pos h⟩
      · refine .inr ⟨fun q' hq' hboth => ?_, if_neg h⟩
        cases hq'
        exact h (Bool.and_eq_true_iff.mpr hboth)

theorem flatMap_text_merge (ps : List Piece) :
    (merge ps).flatMap Piece.text = ps.flatMap Piece.text := by
  induction ps with
  | nil => rfl
  | cons p ps ih =>
      rw [List.flatMap_cons, ← ih, merge]
      rcases cons_cases p (merge ps) with ⟨q, qs, hps, -, -, hcons⟩ | ⟨-, hcons⟩
      · rw [hcons, hps, List.flatMap_cons, List.flatMap_cons, List.append_assoc]
      · rw [hcons, List.flatMap_cons]

theorem text_ne_nil_of_mem_merge {ps : List Piece} (h : ∀ p ∈ ps, p.text ≠ []) :
    ∀ p ∈ merge ps, p.text ≠ [] := by
  induction ps with
  | nil => exact h
  | cons p ps ih =>
      obtain ⟨hp, hps⟩ := List.forall_mem_cons.mp h
      rw [merge]
      rcases cons_cases p (merge ps) with ⟨q, qs, heq, -, -, hcons⟩ | ⟨-, hcons⟩
      · have hmerged := ih hps
        rw [heq] at hmerged
        rw [hcons]
        exact List.forall_mem_cons.mpr
          ⟨List.append_ne_nil_of_left_ne_nil hp _, (List.forall_mem_cons.mp hmerged).2⟩
      · rw [hcons]
        exact List.forall_mem_cons.mpr ⟨hp, ih hps⟩

/-- No two neighbours are plain. -/
def Alternating (ps : List Piece) : Prop :=
  ps.IsChain fun p q => ¬(p.isPlain = true ∧ q.isPlain = true)

/-- After merging no two plain pieces are neighbours. -/
theorem alternating_merge (ps : List Piece) : Alternating (merge ps) := by
  induction ps with
  | nil => exact .nil
  | cons p ps ih =>
      rw [merge]
      rcases cons_cases p (merge ps) with ⟨q, qs, heq, -, hq, hcons⟩ | ⟨hhead, hcons⟩
      · -- the merged piece is as plain as the one it takes the place of
        rw [heq] at ih
        obtain ⟨hnext, hqs⟩ := List.isChain_cons.mp ih
        rw [hcons]
        exact List.isChain_cons.mpr ⟨fun r hr hboth => hnext r hr ⟨hq, hboth.2⟩, hqs⟩
      · rw [hcons]
        exact List.isChain_cons.mpr ⟨hhead, ih⟩

/-- Merging does not cross a gap between merged pieces. -/
theorem merge_eq_append {ps qs qs' : List Piece} (h : merge ps = qs ++ qs') :
    ∃ as bs, ps = as ++ bs ∧ merge as = qs ∧ merge bs = qs' := by
  induction ps generalizing qs with
  | nil =>
      obtain ⟨rfl, rfl⟩ := List.append_eq_nil_iff.mp h.symm
      exact ⟨[], [], rfl, rfl, rfl⟩
  | cons p ps ih =>
      cases qs with
      | nil => exact ⟨[], p :: ps, rfl, rfl, h⟩
      | cons q qs =>
          rw [merge] at h
          rcases cons_cases p (merge ps) with ⟨r, rs, heq, hp, hr, hcons⟩ | ⟨hhead, hcons⟩
          · rw [hcons, List.cons_append, List.cons.injEq] at h
            obtain ⟨rfl, rfl⟩ := h
            obtain ⟨as, bs, rfl, has, rfl⟩ := @ih (r :: qs) heq
            refine ⟨p :: as, bs, rfl, ?_, rfl⟩
            rw [merge, has, cons, hp, hr]
            rfl
          · rw [hcons, List.cons_append, List.cons.injEq] at h
            obtain ⟨rfl, heq⟩ := h
            obtain ⟨as, bs, rfl, has, rfl⟩ := ih heq
            refine ⟨p :: as, bs, rfl, ?_, rfl⟩
            rw [merge, has]
            rcases cons_cases p qs with ⟨r, rs, hqs, hp, hr, -⟩ | ⟨-, hcons'⟩
            · rw [heq, hqs] at hhead
              exact absurd ⟨hp, hr⟩ (hhead r rfl)
            · exact hcons'

-- ===================================================== pieces of a text

theorem flatMap_text_ofLexeme (ls : List Lexeme) :
    (ls.map ofLexeme).flatMap Piece.text = ls.flatMap Lexeme.text :=
  List.flatMap_map _ _ ls

theorem flatMap_text_ofText (m : Mode) (text : Text) :
    (ofText m text).flatMap Piece.text = text := by
  unfold ofText
  rw [flatMap_text_merge, flatMap_text_ofLexeme, (m.munched_scan text).1]

/-- No piece of a text is empty. -/
theorem text_ne_nil_of_mem_ofText {m : Mode} {text : Text} :
    ∀ p ∈ ofText m text, p.text ≠ [] := by
  refine text_ne_nil_of_mem_merge fun p hp => ?_
  obtain ⟨l, hl, rfl⟩ := List.mem_map.mp hp
  exact Mode.text_ne_nil_of_mem_scan l hl

/-- Pieces that follow each other are the pieces of what they spell. -/
theorem ofText_of_infix {m : Mode} {text : Text} {ps inner ps' : List Piece}
    (h : ofText m text = ps ++ (inner ++ ps')) :
    ofText m (inner.flatMap Piece.text) = inner := by
  obtain ⟨as, rest, hpieces, -, hrest⟩ := merge_eq_append h
  obtain ⟨bs, cs, rfl, rfl, -⟩ := merge_eq_append hrest
  obtain ⟨ls, rest, hscan, -, hrest⟩ := List.map_eq_append_iff.mp hpieces
  obtain ⟨ls', ls'', rfl, rfl, -⟩ := List.map_eq_append_iff.mp hrest
  rw [flatMap_text_merge, flatMap_text_ofLexeme]
  unfold ofText
  rw [Mode.scan_of_infix hscan]

end Piece

-- ============================================================== marks

namespace Span

/-- The spans with a category. -/
def marks (spans : List Span) : List Span :=
  spans.filter fun s => s.item.category.isSome

/-- What a token is highlighted as. -/
def ofToken (t : Token) : Span := ⟨t.start, Piece.ofLexeme t.item⟩

/-- A plain span in front adds no mark. -/
theorem marks_cons_of_plain {s : Span} (h : s.item.isPlain = true) (spans : List Span) :
    marks (s :: spans) = marks spans := by
  refine List.filter_cons_of_neg ?_
  rw [Piece.isPlain, Option.isNone_iff_eq_none] at h
  rw [h]
  decide

/-- Merging plain pieces moves no mark. -/
theorem marks_place_merge (base : Nat) (ps : List Piece) :
    marks (Text.place Piece.text base (Piece.merge ps))
      = marks (Text.place Piece.text base ps) := by
  induction ps generalizing base with
  | nil => rfl
  | cons p ps ih =>
      have hcons : ∀ spans spans' : List Span, marks spans = marks spans' →
          marks (⟨base, p⟩ :: spans) = marks (⟨base, p⟩ :: spans') := by
        intro spans spans' heq
        unfold marks at heq ⊢
        rw [List.filter_cons, List.filter_cons, heq]
      rw [Piece.merge]
      rcases Piece.cons_cases p (Piece.merge ps) with ⟨q, qs, heq, hp, hq, hmerge⟩ | ⟨-, hmerge⟩
      · -- two plain pieces have no mark, and one has none either
        have hrest := ih (base + Text.size p.text)
        rw [heq, Text.place, marks_cons_of_plain hq] at hrest
        rw [hmerge, Text.place, Text.place, marks_cons_of_plain rfl, marks_cons_of_plain hp,
          ← hrest, Text.size_append, Nat.add_assoc]
      · rw [hmerge, Text.place, Text.place]
        exact hcons _ _ (ih _)

theorem place_ofLexeme (base : Nat) (ls : List Lexeme) :
    Text.place Piece.text base (ls.map Piece.ofLexeme)
      = (Text.place Lexeme.text base ls).map ofToken := by
  induction ls generalizing base with
  | nil => rfl
  | cons l ls ih =>
      rw [List.map_cons, Text.place, Text.place, List.map_cons, ih]
      rfl

theorem marks_map_ofToken (tokens : List Token) :
    marks (tokens.map ofToken) = (Token.marks tokens).map ofToken :=
  List.filter_map

/-- The pieces of a text have the marks of its tokens. -/
theorem marks_place_ofText (m : Mode) (base : Nat) (text : Text) :
    marks (Text.place Piece.text base (Piece.ofText m text)) = (m.marks base text).map ofToken := by
  unfold Piece.ofText
  rw [marks_place_merge, place_ofLexeme, marks_map_ofToken]
  rfl

theorem ofExtent_of_none {m : Mode} {text : Text} {r : Extent} (h : r.of? text = none) :
    ofExtent m text r = [] := by
  rw [ofExtent, h]

/-- The spans of an extent are the pieces of its own text, from where it
starts. -/
theorem ofExtent_of_some {m : Mode} {text part : Text} {r : Extent}
    (h : r.of? text = some part) :
    ofExtent m text r = Text.place Piece.text r.start (Piece.ofText m part) := by
  rw [ofExtent, h]

/-- To highlight a text is to highlight the extent of all of it. -/
theorem ofText_eq_ofExtent (m : Mode) (text : Text) :
    ofText m text = ofExtent m text (Extent.whole text) := by
  rw [ofExtent_of_some (Extent.of?_whole text)]
  rfl

/-- The marks of a part are those that its text has on its own. -/
theorem marks_ofExtent {m : Mode} {text part : Text} {r : Extent}
    (h : r.of? text = some part) :
    marks (ofExtent m text r) = (m.marks r.start part).map ofToken := by
  rw [ofExtent_of_some h, marks_place_ofText]

theorem marks_ofText (m : Mode) (text : Text) :
    marks (ofText m text) = (m.marks 0 text).map ofToken :=
  marks_place_ofText m 0 text

end Span

end CryptolEdit
