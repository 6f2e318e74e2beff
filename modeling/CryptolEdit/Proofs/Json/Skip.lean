import CryptolEdit.Proofs.Json.Grammar

/-!
Values of any depth are skipped.

Skipping is a machine with a stack of open brackets. What it does at each sign is said once,
for both kinds of brackets (`skipFrom_open` and its neighbours); all that tells the two
apart is that an item of an object has a key to be skipped first (`enter`).

`Part.Skips` is what the machine makes of a part of a document, whatever the stack and
whatever follows: it comes out behind a value with the stack it had, and behind an item with
the sign that ends it still to be read. Every part of the grammar is skipped so
(`skips_written`), by induction on its derivation; the only case with work in it is a row of
items in brackets (`skipFrom_items`).
-/

namespace CryptolEdit

namespace Json

open Decimal (isDigit)

-- =========================================================== the machine

/-- Skips what stands before the value of an item. -/
def enter : Frame → Text → Except Fault Text
  | .array, t => .ok t
  | .object, t => skipKey t

/-- A value without parts is skipped at once. -/
theorem skipFrom_scalar {frames : List Frame} {t u rest : Text} {c : Char} (ht : trim t = c :: u)
    (harray : c ≠ '[') (hobject : c ≠ '\x7b') (h : skipScalar (c :: u) = .ok rest) :
    skipFrom .value frames t = skipFrom .behind frames rest := by
  rw [skipFrom]
  grind

/-- A list or an object with nothing in it is skipped at once. -/
theorem skipFrom_empty {f : Frame} {frames : List Frame} {t r rest : Text}
    (ht : trim t = f.opening :: r) (hr : trim r = f.closing :: rest) :
    skipFrom .value frames t = skipFrom .behind frames rest := by
  rw [skipFrom]
  cases f <;> simp only [Frame.opening, Frame.closing] at ht hr <;> grind

/-- A list or an object with something in it is entered. -/
theorem skipFrom_open {f : Frame} {frames : List Frame} {t r u : Text}
    (ht : trim t = f.opening :: r) (hr : ∀ v, trim r ≠ f.closing :: v) (h : enter f r = .ok u) :
    skipFrom .value frames t = skipFrom .value (f :: frames) u := by
  rw [skipFrom]
  cases f <;> simp only [Frame.opening, Frame.closing, enter] at ht hr h <;> grind

/-- Behind the last part of a frame, the frame is closed. -/
theorem skipFrom_close {f : Frame} {frames : List Frame} {t rest : Text}
    (ht : trim t = f.closing :: rest) :
    skipFrom .behind (f :: frames) t = skipFrom .behind frames rest := by
  cases f <;> simp only [Frame.closing] at ht <;> rw [skipFrom] <;> grind

/-- Behind a comma the next part of the frame follows. -/
theorem skipFrom_comma {f : Frame} {frames : List Frame} {t r u : Text} (ht : trim t = ',' :: r)
    (h : enter f r = .ok u) :
    skipFrom .behind (f :: frames) t = skipFrom .value (f :: frames) u := by
  cases f <;> simp only [enter] at h <;> rw [skipFrom.eq_def] <;> grind

theorem skipFrom_done (t : Text) : skipFrom .behind [] t = .ok t := by
  rw [skipFrom]

/-- Blanks behind a value do not count as long as a bracket is open. -/
theorem skipFrom_blank {b : Text} (hb : Blank b) (f : Frame) (frames : List Frame) (t : Text) :
    skipFrom .behind (f :: frames) (b ++ t) = skipFrom .behind (f :: frames) t := by
  cases f <;> rw [skipFrom, skipFrom] <;> grind [trim_blank]

-- ============================================================== scalars

/-- Words are skipped. -/
theorem skipScalar_word {t : Text} (h : t ∈ ["null".toList, "true".toList, "false".toList])
    (rest : Text) : skipScalar (t ++ rest) = .ok rest := by
  simp only [List.mem_cons, List.not_mem_nil, or_false] at h
  rcases h with rfl | rfl | rfl <;> rfl

theorem skipScalar_digit {c : Char} (hc : isDigit c = true) (t : Text) :
    skipScalar (c :: t) = skipNumber (c :: t) := by
  have hne : ∀ d ∈ ['n', 't', 'f', '-', '"'], c ≠ d := by
    rintro d hd rfl
    simp only [List.mem_cons, List.not_mem_nil, or_false] at hd
    rcases hd with rfl | rfl | rfl | rfl | rfl <;> cases hc
  grind [skipScalar]

/-- Numbers are skipped unless what follows would make them longer. -/
theorem skipScalar_numeral {t rest : Text} (h : Numeral t) (hrest : EndsNumber rest) :
    skipScalar (t ++ rest) = .ok rest := by
  cases h with
  | @parts sign whole fraction exponent hsign hwhole hfraction hexponent =>
      have hskip := skipNumber_parts hwhole hfraction hexponent hrest
      have happend : sign ++ (whole ++ (fraction ++ exponent)) ++ rest
          = sign ++ (whole ++ (fraction ++ (exponent ++ rest))) := by
        simp only [List.append_assoc]
      rw [happend]
      simp only [List.mem_cons, List.not_mem_nil, or_false] at hsign
      rcases hsign with rfl | rfl
      · obtain ⟨c, ds, rfl⟩ := List.exists_cons_of_ne_nil hwhole.1.1
        have hc := hwhole.1.2 c List.mem_cons_self
        rw [List.cons_append] at hskip ⊢
        rw [List.nil_append, skipScalar_digit hc, hskip]
      · exact hskip

/-- Strings are skipped. -/
theorem skipScalar_strung {t : Text} (h : Strung t) (rest : Text) :
    skipScalar (t ++ rest) = .ok rest := by
  obtain ⟨tail, rfl, hskip⟩ := skipString_strung h
  exact hskip rest

/-- A key and its colon are skipped. -/
theorem skipKey_strung {b k b' : Text} (hb : Blank b) (hk : Strung k) (hb' : Blank b')
    (rest : Text) : skipKey (b ++ (k ++ (b' ++ ':' :: rest))) = .ok rest := by
  obtain ⟨tail, rfl, hskip⟩ := skipString_strung hk
  have htrim : trim (b ++ ('"' :: tail ++ (b' ++ ':' :: rest)))
      = '"' :: (tail ++ (b' ++ ':' :: rest)) := trim_blank_cons hb rfl _
  have hcolon : trim (b' ++ ':' :: rest) = ':' :: rest := trim_blank_cons hb' rfl rest
  simp only [skipKey, htrim, hskip, colon, hcolon]

-- =============================================================== values

/-- A value begins with neither a blank nor the end of an array. -/
theorem exists_head_of_written {t : Text} (h : Written .value t) :
    ∃ c u, t = c :: u ∧ isSpace c = false ∧ c ≠ ']' := by
  cases h with
  | word h =>
      simp only [List.mem_cons, List.not_mem_nil, or_false] at h
      rcases h with rfl | rfl | rfl
      · exact ⟨'n', _, rfl, rfl, by decide⟩
      · exact ⟨'t', _, rfl, rfl, by decide⟩
      · exact ⟨'f', _, rfl, rfl, by decide⟩
  | numeral h =>
      cases h with
      | parts hsign hwhole hfraction hexponent =>
          simp only [List.mem_cons, List.not_mem_nil, or_false] at hsign
          rcases hsign with rfl | rfl
          · obtain ⟨c, ds, rfl⟩ := List.exists_cons_of_ne_nil hwhole.1.1
            have hc := hwhole.1.2 c List.mem_cons_self
            refine ⟨c, _, rfl, isSpace_of_isDigit hc, ?_⟩
            rintro rfl
            cases hc
          · exact ⟨'-', _, rfl, rfl, by decide⟩
  | string h =>
      obtain ⟨pieces, -, rfl⟩ := h
      exact ⟨'"', _, rfl, rfl, by decide⟩
  | @enclosed f items _ ht h =>
      have hopening : isSpace f.opening = false ∧ f.opening ≠ ']' := by cases f <;> decide
      cases ht with
      | empty hb => exact ⟨f.opening, _, rfl, hopening⟩
      | items item items => exact ⟨f.opening, _, rfl, hopening⟩

theorem trim_written {b v : Text} (hb : Blank b) (hv : Written .value v) (rest : Text) :
    trim (b ++ (v ++ rest)) = v ++ rest := by
  obtain ⟨c, u, rfl, hc, -⟩ := exists_head_of_written hv
  exact trim_blank_cons hb hc _

/-- What skipping makes of a part of a document. A value is left behind, and so is the
value of an item; the sign that ends the item is still to be read. -/
def Part.Skips : Part → Text → Prop
  | .value, t => ∀ frames b rest, Blank b → EndsNumber rest →
      skipFrom .value frames (b ++ (t ++ rest)) = skipFrom .behind frames rest
  | .item f, t => ∀ frames c rest, c ∈ [',', f.closing] →
      (∀ u, trim (t ++ c :: rest) ≠ f.closing :: u)
        ∧ ∃ u, enter f (t ++ c :: rest) = .ok u
          ∧ skipFrom .value (f :: frames) u = skipFrom .behind (f :: frames) (c :: rest)

/-- What is skipped as a scalar is no bracket, and is skipped as a value. -/
theorem skips_scalar {t : Text} (ht : Written .value t)
    (h : ∀ rest, EndsNumber rest → skipScalar (t ++ rest) = .ok rest) : Part.value.Skips t := by
  intro frames b rest hb hrest
  have htrim := trim_written hb ht rest
  obtain ⟨c, u, rfl, -⟩ := exists_head_of_written ht
  refine skipFrom_scalar htrim ?_ ?_ (h rest hrest)
  · rintro rfl
    cases h rest hrest
  · rintro rfl
    cases h rest hrest

/-- Items with commas between them are skipped up to the bracket behind them. -/
theorem skipFrom_items {f : Frame} (item : Text) (items : List Text)
    (h : ∀ t ∈ item :: items, (Part.item f).Skips t) (frames : List Frame) (rest : Text) :
    ∃ u, enter f (Text.join [','] (item :: items) ++ f.closing :: rest) = .ok u
      ∧ skipFrom .value (f :: frames) u = skipFrom .behind frames rest := by
  have hitem := h item List.mem_cons_self frames
  induction items generalizing item with
  | nil =>
      obtain ⟨-, u, henter, hskip⟩ := hitem f.closing rest (by simp)
      refine ⟨u, henter, ?_⟩
      rw [hskip]
      refine skipFrom_close (trim_cons ?_ rest)
      cases f <;> rfl
  | cons next items ih =>
      have hnext := List.forall_mem_cons.mp h
      obtain ⟨v, henter', hskip'⟩ := ih next hnext.2 (hnext.2 next List.mem_cons_self frames)
      rw [Text.join_append]
      obtain ⟨-, u, henter, hskip⟩ := hitem ',' _ (by simp)
      refine ⟨u, henter, ?_⟩
      rw [hskip, skipFrom_comma (trim_cons rfl _) henter', hskip']

/-- Brackets are skipped with all that is in them. -/
theorem skips_enclosed {f : Frame} {items : List Text} {t : Text} (ht : Enclosed f items t)
    (h : ∀ item ∈ items, (Part.item f).Skips item) : Part.value.Skips t := by
  intro frames b rest hb hrest
  have hopening : isSpace f.opening = false := by cases f <;> rfl
  rcases ht.append_cases rest with ⟨rfl, b', hb', happend⟩ | ⟨item, later, rfl, happend⟩
  · have hclosing : isSpace f.closing = false := by cases f <;> rfl
    rw [happend]
    exact skipFrom_empty (trim_blank_cons hb hopening _) (trim_blank_cons hb' hclosing rest)
  · obtain ⟨u, henter, hskip⟩ := skipFrom_items item later h frames rest
    rw [happend, skipFrom_open (trim_blank_cons hb hopening _) ?_ henter, hskip]
    -- the first item shows that the brackets are not empty
    intro v
    have hitem := h item List.mem_cons_self frames
    cases later with
    | nil => exact (hitem f.closing rest (by simp)).1 v
    | cons next later =>
        rw [Text.join_append]
        exact (hitem ',' _ (by simp)).1 v

/-- The sign that ends an item ends a number in it. -/
theorem endsNumber_sign {f : Frame} {c : Char} (hc : c ∈ [',', f.closing]) (rest : Text) :
    EndsNumber (c :: rest) := by
  refine endsNumber_cons ?_ rest
  simp only [List.mem_cons, List.not_mem_nil, or_false] at hc
  rcases hc with rfl | rfl
  · decide
  · cases f <;> decide

/-- Every part of the grammar is skipped, whatever stands around it. -/
theorem skips_written {part : Part} {t : Text} (h : Written part t) : part.Skips t := by
  induction h with
  | word h => exact skips_scalar (.word h) fun rest _ => skipScalar_word h rest
  | numeral h => exact skips_scalar (.numeral h) fun rest hrest => skipScalar_numeral h hrest
  | string h => exact skips_scalar (.string h) fun rest _ => skipScalar_strung h rest
  | enclosed ht _ ih => exact skips_enclosed ht ih
  | @element b v b' hb hv hb' ih =>
      intro frames c rest hc
      have hends := endsNumber_blank hb' (endsNumber_sign hc rest)
      have happend : b ++ (v ++ b') ++ c :: rest = b ++ (v ++ (b' ++ c :: rest)) := by simp
      rw [happend]
      refine ⟨fun u => ?_, _, rfl, ?_⟩
      · rw [trim_written hb hv]
        obtain ⟨d, w, rfl, -, hd⟩ := exists_head_of_written hv
        exact fun heq => hd (List.cons.inj heq).1
      · rw [ih _ b _ hb hends, skipFrom_blank hb']
  | @member b k b' d v d' hb hk hb' hd hv hd' ih =>
      intro frames c rest hc
      have hends := endsNumber_blank hd' (endsNumber_sign hc rest)
      have happend : b ++ (k ++ (b' ++ ':' :: (d ++ (v ++ d')))) ++ c :: rest
          = b ++ (k ++ (b' ++ ':' :: (d ++ (v ++ (d' ++ c :: rest))))) := by simp
      rw [happend]
      refine ⟨fun u => ?_, _, skipKey_strung hb hk hb' _, ?_⟩
      · obtain ⟨pieces, -, rfl⟩ := hk
        rw [List.cons_append, trim_blank_cons hb rfl]
        exact fun heq => nomatch (List.cons.inj heq).1
      · rw [ih _ d _ hd hends, skipFrom_blank hd']

/-- A value is skipped with the blanks in front of it, and nothing of what follows. -/
theorem skip_written {b v rest : Text} (hb : Blank b) (hv : Written .value v)
    (hrest : EndsNumber rest) : skip (b ++ (v ++ rest)) = .ok rest := by
  unfold skip
  rw [skips_written hv [] b rest hb hrest, skipFrom_done]

end Json

end CryptolEdit
