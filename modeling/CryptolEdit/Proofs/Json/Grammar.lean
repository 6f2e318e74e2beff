import CryptolEdit.Json.Skip
import CryptolEdit.Proofs.Json.Value
import Mathlib.Data.List.Forall2

/-!
The grammar of documents, and that documents of the grammar are read.

# The grammar

A string is a row of characters between quotes, and each character can be written in
several ways (`Spelling`); a string that says nothing but is well written need not have its
units paired (`Piece`). A numeral is a whole number with an optional fraction and an
optional exponent. A value is a word, a numeral, a string, or a row of items in brackets,
with commas between the items and blanks around everything (`Written`). Nothing in these
definitions looks at a reader.

# Reading

Each reader takes off the front of a document exactly what the grammar puts there, however
it is spelled: `string_literal` and `texts_literals` give the texts that strings say,
`skipString_strung` and `skipNumber_parts` go past strings and numerals. What the program
itself writes is of the grammar (`literal_quoted`), and is read in the same way.
-/

namespace CryptolEdit

/-- Joined texts are the first, and each of the others behind its separator. -/
theorem Text.join_eq_flatMap (separator : Char) (t : Text) (ts : List Text) :
    join [separator] (t :: ts) = t ++ ts.flatMap (separator :: ·) := by
  induction ts generalizing t with
  | nil => simp [join]
  | cons u ts ih => simp [join, ih]

namespace Json

open Decimal (isDigit)

-- ====================================================== strings, written

/-- Nothing but blanks. -/
def Blank (t : Text) : Prop := ∀ c ∈ t, c ∈ " \t\n\r".toList

instance (t : Text) : Decidable (Blank t) := List.decidableBAll _ t

/-- A digit of base sixteen, in either case, and the number it stands for. -/
def HexDigit (c : Char) (n : Nat) : Prop :=
  "0123456789abcdef".toList[n]? = some c ∨ "0123456789ABCDEF".toList[n]? = some c

/-- Four digits of base sixteen, and the number they make. -/
inductive HexDigits : Text → Nat → Prop
  | four {a b c d : Char} {i j k l : Nat} (ha : HexDigit a i) (hb : HexDigit b j)
      (hc : HexDigit c k) (hd : HexDigit d l) :
      HexDigits [a, b, c, d] (i * 4096 + j * 256 + k * 16 + l)

/-- The letters that may follow a backslash, and what they stand for. -/
def shortEscapes : List (Char × Char) :=
  [('"', '"'), ('\\', '\\'), ('/', '/'), ('b', '\x08'), ('f', '\x0c'), ('n', '\n'), ('r', '\r'),
    ('t', '\t')]

/-- The ways to write a character in a string. -/
inductive Spelling : Char → Text → Prop
  | plain {c : Char} (hcontrol : ' ' ≤ c) (hquote : c ≠ '"') (hbackslash : c ≠ '\\') :
      Spelling c [c]
  | short {letter c : Char} (h : (letter, c) ∈ shortEscapes) : Spelling c ['\\', letter]
  | unit {c : Char} {u : Text} (h : HexDigits u c.toNat) : Spelling c ('\\' :: 'u' :: u)
  /-- A character beyond U+FFFF as two units. -/
  | pair {c : Char} {u v : Text} {leading trailing : Nat}
      (hu : HexDigits u (0xd800 + leading)) (hv : HexDigits v (0xdc00 + trailing))
      (hleading : leading < 0x400) (htrailing : trailing < 0x400)
      (hc : c.toNat = 0x10000 + leading * 0x400 + trailing) :
      Spelling c ('\\' :: 'u' :: (u ++ '\\' :: 'u' :: v))

/-- A string that says a text. -/
def Literal (s t : Text) : Prop :=
  ∃ pieces, List.Forall₂ Spelling s pieces ∧ t = '"' :: (pieces.flatten ++ ['"'])

/-- What a string may be made of, whether it says something or not. -/
inductive Piece : Text → Prop
  | plain {c : Char} (hcontrol : ' ' ≤ c) (hquote : c ≠ '"') (hbackslash : c ≠ '\\') : Piece [c]
  | short {letter c : Char} (h : (letter, c) ∈ shortEscapes) : Piece ['\\', letter]
  | unit {u : Text} {n : Nat} (h : HexDigits u n) : Piece ('\\' :: 'u' :: u)

/-- A string. -/
def Strung (t : Text) : Prop :=
  ∃ pieces, (∀ piece ∈ pieces, Piece piece) ∧ t = '"' :: (List.flatten pieces ++ ['"'])

-- ====================================================== numbers, written

/-- One digit or more. -/
def Digits (t : Text) : Prop := t ≠ [] ∧ ∀ c ∈ t, isDigit c = true

instance (t : Text) : Decidable (Digits t) :=
  @instDecidableAnd _ _ inferInstance (List.decidableBAll _ t)

/-- A whole number. No zero stands in front of other digits. -/
def Whole (t : Text) : Prop := Digits t ∧ (t.head? = some '0' → t = ['0'])

/-- A fraction, or none. -/
def Fraction (t : Text) : Prop := t = [] ∨ ∃ ds, Digits ds ∧ t = '.' :: ds

/-- An exponent, or none. -/
def Exponent (t : Text) : Prop :=
  t = [] ∨ ∃ mark sign ds, mark ∈ ['e', 'E'] ∧ sign ∈ [[], ['+'], ['-']] ∧ Digits ds
    ∧ t = mark :: (sign ++ ds)

/-- A number. -/
inductive Numeral : Text → Prop
  | parts {sign whole fraction exponent : Text} (hsign : sign ∈ [[], ['-']])
      (hwhole : Whole whole) (hfraction : Fraction fraction) (hexponent : Exponent exponent) :
      Numeral (sign ++ (whole ++ (fraction ++ exponent)))

-- ======================================================= values, written

namespace Frame

/-- The bracket that opens a frame. -/
def opening : Frame → Char
  | array => '['
  | object => '\x7b'

/-- The bracket that closes a frame. -/
def closing : Frame → Char
  | array => ']'
  | object => '\x7d'

end Frame

/-- Items in brackets, with commas between them. Brackets without items may hold blanks. -/
inductive Enclosed (f : Frame) : List Text → Text → Prop
  | empty {b : Text} (hb : Blank b) : Enclosed f [] (f.opening :: (b ++ [f.closing]))
  | items (t : Text) (ts : List Text) :
      Enclosed f (t :: ts) (f.opening :: (Text.join [','] (t :: ts) ++ [f.closing]))

/-- Something with blanks around it. -/
def Padded (P : Text → Prop) (t : Text) : Prop :=
  ∃ b v b', Blank b ∧ P v ∧ Blank b' ∧ t = b ++ (v ++ b')

/-- An array of strings that say texts. -/
def Literals (ss : List Text) (t : Text) : Prop :=
  ∃ items, Enclosed .array items t ∧ List.Forall₂ (fun s => Padded (Literal s)) ss items

/-- What a text may stand for in a document. -/
inductive Part where
  | value
  /-- What stands between two commas, blanks included. -/
  | item (f : Frame)

/-- The grammar of values. -/
inductive Written : Part → Text → Prop
  | word {t : Text} (h : t ∈ ["null".toList, "true".toList, "false".toList]) : Written .value t
  | numeral {t : Text} (h : Numeral t) : Written .value t
  | string {t : Text} (h : Strung t) : Written .value t
  | enclosed {f : Frame} {items : List Text} {t : Text} (ht : Enclosed f items t)
      (h : ∀ item ∈ items, Written (.item f) item) : Written .value t
  | element {b v b' : Text} (hb : Blank b) (hv : Written .value v) (hb' : Blank b') :
      Written (.item .array) (b ++ (v ++ b'))
  | member {b k b' c v c' : Text} (hb : Blank b) (hk : Strung k) (hb' : Blank b') (hc : Blank c)
      (hv : Written .value v) (hc' : Blank c') :
      Written (.item .object) (b ++ (k ++ (b' ++ ':' :: (c ++ (v ++ c')))))

-- ============================================================== blanks

/-- The four characters that blanks are made of. -/
theorem Blank.cases {b : Text} (hb : Blank b) {c : Char} (hc : c ∈ b) :
    c = ' ' ∨ c = '\t' ∨ c = '\n' ∨ c = '\r' := by
  simpa using hb c hc

/-- Blanks in front do not count. -/
theorem trim_blank {b : Text} (hb : Blank b) (t : Text) : trim (b ++ t) = trim t := by
  refine List.dropWhile_append_of_pos fun c hc => ?_
  rcases hb.cases hc with rfl | rfl | rfl | rfl <;> rfl

/-- Blanks are dropped up to the first character that is none. -/
theorem trim_blank_cons {b : Text} (hb : Blank b) {c : Char} (hc : isSpace c = false) (t : Text) :
    trim (b ++ c :: t) = c :: t := by
  rw [trim_blank hb, trim_cons hc]

/-- What a row of items begins with is what its first item begins with. -/
theorem trim_join {item tail : Text} {c : Char}
    (h : ∀ rest, trim (item ++ rest) = c :: (tail ++ rest)) (items : List Text) (rest : Text) :
    trim (Text.join [','] (item :: items) ++ rest)
      = c :: (Text.join [','] (tail :: items) ++ rest) := by
  rw [Text.join_eq_flatMap, Text.join_eq_flatMap, List.append_assoc, List.append_assoc, h]

/-- Brackets with something behind them: blanks between them, or a row of items. -/
theorem Enclosed.append_cases {f : Frame} {items : List Text} {t : Text} (h : Enclosed f items t)
    (rest : Text) :
    (items = [] ∧ ∃ b, Blank b ∧ t ++ rest = f.opening :: (b ++ f.closing :: rest))
      ∨ ∃ item later, items = item :: later
        ∧ t ++ rest = f.opening :: (Text.join [','] (item :: later) ++ f.closing :: rest) := by
  cases h with
  | empty hb => exact Or.inl ⟨rfl, _, hb, by simp⟩
  | items item later => exact Or.inr ⟨item, later, rfl, by simp⟩

/-- Blanks end a number, and so does what ends one behind them. -/
theorem endsNumber_blank {b : Text} (hb : Blank b) {t : Text} (ht : EndsNumber t) :
    EndsNumber (b ++ t) := by
  cases b with
  | nil => exact ht
  | cons c b =>
      refine endsNumber_cons ?_ (b ++ t)
      rcases hb.cases List.mem_cons_self with rfl | rfl | rfl | rfl <;> decide

-- ======================================================= strings, read

/-- A digit is read as its value, in either case of letters. -/
theorem ofHexDigit?_of_hexDigit {c : Char} {n : Nat} (h : HexDigit c n) :
    ofHexDigit? c = some n := by
  have hlower : ∀ m : Fin 16, ofHexDigit? ("0123456789abcdef".toList[m]) = some m.val := by decide
  have hupper : ∀ m : Fin 16, ofHexDigit? ("0123456789ABCDEF".toList[m]) = some m.val := by decide
  rcases h with h | h <;> obtain ⟨hn, rfl⟩ := List.getElem?_eq_some_iff.mp h
  · exact hlower ⟨n, hn⟩
  · exact hupper ⟨n, hn⟩

/-- Four digits are read as the unit that they spell. -/
theorem hexUnit_hexDigits {u : Text} {n : Nat} (h : HexDigits u n) (rest : Text) :
    hexUnit (u ++ rest) = .ok (n, rest) := by
  cases h with
  | @four a b c d i j k l ha hb hc hd =>
      have hvalue : ((i * 16 + j) * 16 + k) * 16 + l = i * 4096 + j * 256 + k * 16 + l := by omega
      have hdigits : ofHexDigits? a b c d = some (i * 4096 + j * 256 + k * 16 + l) := by
        simp only [ofHexDigits?, ofHexDigit?_of_hexDigit ha, ofHexDigit?_of_hexDigit hb,
          ofHexDigit?_of_hexDigit hc, ofHexDigit?_of_hexDigit hd, Option.bind_eq_bind,
          Option.bind_some, hvalue]
        rfl
      simp only [List.cons_append, List.nil_append, hexUnit, hdigits]

/-- The number of a character is no half of a pair. -/
theorem unpaired (c : Char) : isTrailing c.toNat = false ∧ isLeading c.toNat = false := by
  have hvalid : c.toNat < 0xd800 ∨ 0xdfff < c.toNat ∧ c.toNat < 0x110000 := c.valid
  unfold isTrailing isLeading
  simp only [Bool.and_eq_false_iff, decide_eq_false_iff_not]
  omega

/-- A letter of a short escape is read, and skipped, as what it is. -/
theorem escape_letter {letter c : Char} (h : (letter, c) ∈ shortEscapes) (t : Text) :
    escape (letter :: t) = .ok (c, t) ∧ skipEscape (letter :: t) = .ok t := by
  simp only [shortEscapes, List.mem_cons, Prod.mk.injEq, List.not_mem_nil, or_false] at h
  rcases h with h | h | h | h | h | h | h | h <;> obtain ⟨rfl, rfl⟩ := h <;> exact ⟨rfl, rfl⟩

/-- A unit that is a character of its own is read as that character. -/
theorem escape_unit {c : Char} {u : Text} (h : HexDigits u c.toNat) (rest : Text) :
    escape ('u' :: (u ++ rest)) = .ok (c, rest) := by
  obtain ⟨htrailing, hleading⟩ := unpaired c
  simp [escape, hexUnit_hexDigits h, htrailing, hleading]

/-- Two units of a pair are read as the one character that they stand for. -/
theorem escape_pair {c : Char} {u v : Text} {leading trailing : Nat}
    (hu : HexDigits u (0xd800 + leading)) (hv : HexDigits v (0xdc00 + trailing))
    (hleading : leading < 0x400) (htrailing : trailing < 0x400)
    (hc : c.toNat = 0x10000 + leading * 0x400 + trailing) (rest : Text) :
    escape ('u' :: (u ++ '\\' :: 'u' :: (v ++ rest))) = .ok (c, rest) := by
  have hfirst : isTrailing (0xd800 + leading) = false ∧ isLeading (0xd800 + leading) = true := by
    unfold isTrailing isLeading
    simp only [Bool.and_eq_false_iff, Bool.and_eq_true, decide_eq_false_iff_not, decide_eq_true_eq]
    omega
  have hsecond : isTrailing (0xdc00 + trailing) = true := by
    unfold isTrailing
    simp only [Bool.and_eq_true, decide_eq_true_eq]
    omega
  have hpair : ofPair (0xd800 + leading) (0xdc00 + trailing) = c := by
    unfold ofPair
    rw [Nat.add_sub_cancel_left, Nat.add_sub_cancel_left, ← hc, Char.ofNat_toNat]
  simp [escape, secondUnit, hexUnit_hexDigits hu, hexUnit_hexDigits hv, hfirst, hsecond, hpair]

/-- One step of reading takes one character, however it is written. -/
theorem string_spelling {c : Char} {u : Text} (h : Spelling c u) (t : Text) :
    string (u ++ t) = prepend c (string t) := by
  cases h with
  | plain hcontrol hquote hbackslash =>
      exact string_plain hquote hbackslash (Char.not_lt.mpr hcontrol) t
  | short h => exact string_backslash (escape_letter h t).1
  | unit h => exact string_backslash (escape_unit h t)
  | @pair _ u v _ _ hu hv hleading htrailing hc =>
      have happend : '\\' :: 'u' :: (u ++ '\\' :: 'u' :: v) ++ t
          = '\\' :: 'u' :: (u ++ '\\' :: 'u' :: (v ++ t)) := by simp
      rw [happend]
      exact string_backslash (escape_pair hu hv hleading htrailing hc t)

/-- A string is read as the text that it says. -/
theorem string_literal {s t : Text} (h : Literal s t) :
    ∃ tail, t = '"' :: tail ∧ ∀ rest, string (tail ++ rest) = .ok (s, rest) := by
  obtain ⟨pieces, hpieces, rfl⟩ := h
  refine ⟨_, rfl, fun rest => ?_⟩
  induction hpieces with
  | nil => exact string_quote rest
  | @cons c u s pieces hc _ ih =>
      have happend : (u :: pieces).flatten ++ ['"'] ++ rest
          = u ++ (pieces.flatten ++ ['"'] ++ rest) := by simp
      rw [happend, string_spelling hc, ih]
      rfl

/-- What is written for a character is one of its spellings. -/
theorem spelling_escaped (c : Char) : Spelling c (escaped c) := by
  unfold escaped
  cases h : shortEscape? c with
  | some letter =>
      refine .short ?_
      unfold shortEscape? at h
      split at h <;> cases h <;> decide
  | none =>
      obtain ⟨hquote, hbackslash⟩ := ne_of_shortEscape? h
      by_cases hcontrol : c < ' '
      · have hsmall : c.toNat < 32 := hcontrol
        have hdigit : ∀ n < 16, HexDigit (hexDigit n) n := by
          unfold HexDigit
          decide
        have hdigits := HexDigits.four (hdigit 0 (by decide)) (hdigit 0 (by decide))
          (hdigit (c.toNat / 16) (by omega)) (hdigit (c.toNat % 16) (by omega))
        have hvalue : 0 * 4096 + 0 * 256 + c.toNat / 16 * 16 + c.toNat % 16 = c.toNat := by omega
        rw [hvalue] at hdigits
        simp only [hcontrol, if_true]
        exact .unit hdigits
      · simp only [hcontrol, if_false]
        exact .plain (Char.not_lt.mp hcontrol) hquote hbackslash

/-- What is written for a text is a string that says it. -/
theorem literal_quoted (s : Text) : Literal s (quoted s) := by
  refine ⟨s.map escaped, ?_, ?_⟩
  · induction s with
    | nil => exact .nil
    | cons c s ih => exact .cons (spelling_escaped c) ih
  · rw [quoted, List.flatMap_def]
    rfl

theorem skipString_quote (t : Text) : skipString ('"' :: t) = .ok t := by
  rw [skipString]
  exact if_pos rfl

theorem skipString_backslash {t rest : Text} (h : skipEscape t = .ok rest) :
    skipString ('\\' :: t) = skipString rest := by
  rw [skipString, if_neg (by decide), if_pos rfl]
  grind

/-- One step of skipping takes one piece. -/
theorem skipString_piece {u : Text} (h : Piece u) (t : Text) :
    skipString (u ++ t) = skipString t := by
  cases h with
  | @plain c hcontrol hquote hbackslash =>
      show skipString (c :: t) = skipString t
      rw [skipString, if_neg hquote, if_neg hbackslash, if_neg (Char.not_lt.mpr hcontrol)]
  | short h => exact skipString_backslash (escape_letter h t).2
  | @unit u n h =>
      refine skipString_backslash ?_
      show (hexUnit (u ++ t)).map Prod.snd = .ok t
      rw [hexUnit_hexDigits h]
      rfl

/-- A string is skipped up to behind its closing quote, whatever follows. -/
theorem skipString_strung {t : Text} (h : Strung t) :
    ∃ tail, t = '"' :: tail ∧ ∀ rest, skipString (tail ++ rest) = .ok rest := by
  obtain ⟨pieces, hpieces, rfl⟩ := h
  refine ⟨_, rfl, fun rest => ?_⟩
  induction pieces with
  | nil => exact skipString_quote rest
  | cons u pieces ih =>
      obtain ⟨hu, hpieces⟩ := List.forall_mem_cons.mp hpieces
      have happend : (u :: pieces).flatten ++ ['"'] ++ rest
          = u ++ (pieces.flatten ++ ['"'] ++ rest) := by simp
      rw [happend, skipString_piece hu, ih hpieces]

-- ======================================================= numbers, read

/-- Digits are dropped up to what is no digit. -/
theorem dropWhile_digits {ds rest : Text} (hds : ∀ c ∈ ds, isDigit c = true)
    (hrest : ∀ c ∈ rest.head?, isDigit c = false) : (ds ++ rest).dropWhile isDigit = rest := by
  rw [List.dropWhile_append_of_pos hds, (span_digits_eq hrest).2]

theorem startsWithDigit_digits {ds : Text} (hds : Digits ds) (rest : Text) :
    startsWithDigit (ds ++ rest) = true := by
  obtain ⟨c, ds, rfl⟩ := List.exists_cons_of_ne_nil hds.1
  exact hds.2 c List.mem_cons_self

/-- The sign of an exponent is taken off its digits, if there is one. -/
theorem exponentSign_digits {sign ds : Text} (hsign : sign ∈ [[], ['+'], ['-']])
    (hds : Digits ds) (rest : Text) : (exponentSign (sign ++ (ds ++ rest))).2 = ds ++ rest := by
  simp only [List.mem_cons, List.not_mem_nil, or_false] at hsign
  rcases hsign with rfl | rfl | rfl
  · obtain ⟨c, ds, rfl⟩ := List.exists_cons_of_ne_nil hds.1
    have hc := hds.2 c List.mem_cons_self
    show (exponentSign (c :: (ds ++ rest))).2 = _
    unfold exponentSign
    split
    · next h =>
        cases h
        cases hc
    · next h =>
        cases h
        cases hc
    · rfl
  · rfl
  · rfl

/-- An exponent is skipped with all of its digits. -/
theorem skipExponent_digits {sign ds rest : Text} (hsign : sign ∈ [[], ['+'], ['-']])
    (hds : Digits ds) (hrest : ∀ c ∈ rest.head?, isDigit c = false) :
    skipExponent (sign ++ (ds ++ rest)) = .ok rest := by
  unfold skipExponent
  dsimp only
  rw [exponentSign_digits hsign hds, if_pos (startsWithDigit_digits hds rest),
    dropWhile_digits hds.2 hrest]

/-- An exponent is skipped behind its mark. -/
theorem skipExponent_exponent {exponent : Text} (h : Exponent exponent) :
    exponent = [] ∨ ∃ t, (exponent = 'e' :: t ∨ exponent = 'E' :: t)
      ∧ ∀ rest, EndsNumber rest → skipExponent (t ++ rest) = .ok rest := by
  rcases h with rfl | ⟨mark, sign, ds, hmark, hsign, hds, rfl⟩
  · exact Or.inl rfl
  · refine Or.inr ⟨sign ++ ds, ?_, fun rest hrest => ?_⟩
    · simpa using hmark
    · rw [List.append_assoc]
      exact skipExponent_digits hsign hds fun c hc => (hrest c hc).1

/-- What follows the digits before an exponent is no digit. -/
theorem not_isDigit_exponent {exponent rest : Text} (h : Exponent exponent)
    (hrest : EndsNumber rest) : ∀ c ∈ (exponent ++ rest).head?, isDigit c = false := by
  intro c hc
  rcases skipExponent_exponent h with rfl | ⟨t, rfl | rfl, -⟩
  · exact (hrest c hc).1
  · cases hc
    rfl
  · cases hc
    rfl

/-- What follows a whole number is no digit. -/
theorem not_isDigit_fraction {fraction t : Text} (h : Fraction fraction)
    (ht : ∀ c ∈ t.head?, isDigit c = false) : ∀ c ∈ (fraction ++ t).head?, isDigit c = false := by
  intro c hc
  rcases h with rfl | ⟨ds, -, rfl⟩
  · exact ht c hc
  · cases hc
    rfl

/-- A number is skipped unless what follows would make it longer. -/
theorem skipNumber_parts {whole fraction exponent rest : Text} (hwhole : Whole whole)
    (hfraction : Fraction fraction) (hexponent : Exponent exponent) (hrest : EndsNumber rest) :
    skipNumber (whole ++ (fraction ++ (exponent ++ rest))) = .ok rest := by
  have hstop := not_isDigit_exponent hexponent hrest
  have hpoint := not_isDigit_fraction hfraction hstop
  obtain ⟨⟨hne, hds⟩, hzero⟩ := hwhole
  obtain ⟨c, ds, rfl⟩ := List.exists_cons_of_ne_nil hne
  obtain ⟨hc, hds⟩ := List.forall_mem_cons.mp hds
  -- a zero in front is the only digit, and none comes after it
  have hfront : ¬(c = '0' ∧ startsWithDigit (ds ++ (fraction ++ (exponent ++ rest))) = true) := by
    rintro ⟨rfl, hstarts⟩
    rw [(List.cons.inj (hzero rfl)).2, List.nil_append, startsWithDigit_eq_false hpoint] at hstarts
    cases hstarts
  rw [List.cons_append, skipNumber, if_neg (by simp [hc, hfront]), dropWhile_digits hds hpoint]
  rcases hfraction with rfl | ⟨fs, hfs, rfl⟩
  · rcases skipExponent_exponent hexponent with rfl | ⟨t, rfl | rfl, hskip⟩
    · simp only [List.nil_append]
      split
      · exact absurd rfl (hrest '.' rfl).2.1
      · exact absurd rfl (hrest 'e' rfl).2.2.1
      · exact absurd rfl (hrest 'E' rfl).2.2.2
      · rfl
    · exact hskip rest hrest
    · exact hskip rest hrest
  · simp only [List.cons_append, startsWithDigit_digits hfs, if_true,
      dropWhile_digits hfs.2 hstop]
    rcases skipExponent_exponent hexponent with rfl | ⟨t, rfl | rfl, hskip⟩
    · simp only [List.nil_append]
      split
      · exact absurd rfl (hrest 'e' rfl).2.2.1
      · exact absurd rfl (hrest 'E' rfl).2.2.2
      · rfl
    · exact hskip rest hrest
    · exact hskip rest hrest

-- ======================================================== values, read

theorem text_blank {b : Text} (hb : Blank b) (wanted : Wanted) (t : Text) :
    text wanted (b ++ t) = text wanted t := by
  unfold text
  rw [trim_blank hb]

theorem texts_blank {b : Text} (hb : Blank b) (t : Text) : texts (b ++ t) = texts t := by
  unfold texts
  rw [trim_blank hb]

theorem width_blank {b : Text} (hb : Blank b) (t : Text) : width (b ++ t) = width t := by
  unfold width
  rw [trim_blank hb]

/-- A string is read as the text that it stands for, however it is spelled. -/
theorem text_literal {s t : Text} (h : Literal s t) (wanted : Wanted) (rest : Text) :
    text wanted (t ++ rest) = .ok (s, rest) := by
  obtain ⟨tail, rfl, hread⟩ := string_literal h
  rw [List.cons_append, text_string (trim_cons rfl _), hread]

/-- A string begins with a quote. -/
theorem exists_trim_literal {s item : Text} (h : Padded (Literal s) item) :
    ∃ tail, ∀ rest, trim (item ++ rest) = '"' :: (tail ++ rest) := by
  obtain ⟨b, _, b', hb, ⟨pieces, -, rfl⟩, -, rfl⟩ := h
  refine ⟨pieces.flatten ++ ['"'] ++ b', fun rest => ?_⟩
  rw [List.append_assoc, List.cons_append, List.cons_append, trim_blank_cons hb rfl]

/-- Strings with commas between them, and blanks around them, are read up to the bracket that
ends them. -/
theorem elements_literals {ss items : List Text}
    (h : List.Forall₂ (fun s => Padded (Literal s)) ss items) {s item : Text}
    (hitem : Padded (Literal s) item) (rest : Text) :
    elements (Text.join [','] (item :: items) ++ ']' :: rest) = .ok (s :: ss, rest) := by
  induction h generalizing s item with
  | nil =>
      obtain ⟨b, u, b', hb, hu, hb', rfl⟩ := hitem
      have happend : b ++ (u ++ b') ++ ']' :: rest = b ++ (u ++ (b' ++ ']' :: rest)) := by simp
      rw [Text.join, happend]
      refine elements_close ?_ (trim_blank_cons hb' rfl rest)
      rw [text_blank hb, text_literal hu]
  | @cons s' item' ss items hnext _ ih =>
      obtain ⟨b, u, b', hb, hu, hb', rfl⟩ := hitem
      have hread : text .text (b ++ (u ++ b') ++ ',' :: (Text.join [','] (item' :: items)
          ++ ']' :: rest)) = .ok (s, b' ++ ',' :: (Text.join [','] (item' :: items)
            ++ ']' :: rest)) := by
        rw [List.append_assoc, List.append_assoc, text_blank hb, text_literal hu]
      rw [Text.join_append, elements_comma hread (trim_blank_cons hb' rfl _), ih hnext]
      rfl

/-- A list with nothing but blanks in it is empty. -/
theorem texts_empty {t r rest : Text} (ht : trim t = '[' :: r) (hr : trim r = ']' :: rest) :
    texts t = .ok ([], rest) := by
  simp only [texts, ht, hr]

/-- An array of strings is read as the texts that they say. -/
theorem texts_literals {ss : List Text} {t : Text} (h : Literals ss t) (rest : Text) :
    texts (t ++ rest) = .ok (ss, rest) := by
  obtain ⟨items, ht, hitems⟩ := h
  rcases ht.append_cases rest with ⟨rfl, b, hb, happend⟩ | ⟨item, later, rfl, happend⟩
  · cases hitems
    rw [happend]
    exact texts_empty (trim_cons rfl _) (trim_blank_cons hb rfl rest)
  · cases hitems with
    | cons hitem hitems =>
        have hread := elements_literals hitems hitem rest
        obtain ⟨tail, htrim⟩ := exists_trim_literal hitem
        rw [happend]
        exact (texts_elements (trim_cons rfl _) (trim_join htrim later _) (by decide)).trans hread

end Json

end CryptolEdit
