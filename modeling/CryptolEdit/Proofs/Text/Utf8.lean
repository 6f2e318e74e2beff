import CryptolEdit.Text.Utf8

/-!
What decoding keeps of its bytes.

A character is spelled by exactly one sequence of bytes (`spells_iff`): the
states that a reader goes through while it reads `bytes` end in the character
`c` exactly if `bytes` is the encoding of `c`. From this come the two halves of
lossy decoding:

- the encoding of a text is decoded to that text, whatever follows it
  (`decodeLossy_encode_append`);
- bytes that are decoded without a replacement character are the encoding of
  what they are decoded to (`encode_decodeLossy`).

So a text tells which bytes it was decoded from as long as it has no
replacement character in it (`eq_of_decodeLossy_eq`), and never otherwise
(`exists_decodeLossy_eq`): a replacement character may have been spelled out, or
may stand for a byte that begins nothing.

Strict decoding stops where lossy decoding would write the first replacement that
is not spelled out (`encode_or_broken`), so it reads encodings and nothing else
(`decode?_eq_some_iff`).
-/

namespace CryptolEdit.Text

namespace Utf8

-- ======================================================= first bytes

/-- A byte below 0x80 is a character of its own. -/
theorem lead_one {b : Nat} (h : b < 0x80) : lead b = .char (Char.ofNat b) := by
  unfold lead
  rw [if_pos h]

theorem lead_two {b : Nat} (h : 0xc2 ≤ b) (h' : b < 0xe0) :
    lead b = .more ⟨b - 0xc0, 1, 0x80, 0xbf⟩ := by
  unfold lead
  rw [if_neg (by omega), if_neg (by omega), if_pos h']

theorem lead_three {b : Nat} (h : 0xe0 ≤ b) (h' : b < 0xf0) :
    lead b = .more ⟨b - 0xe0, 2, if b = 0xe0 then 0xa0 else 0x80,
      if b = 0xed then 0x9f else 0xbf⟩ := by
  unfold lead
  rw [if_neg (by omega), if_neg (by omega), if_neg (by omega)]
  by_cases h0 : b = 0xe0
  · simp [h0]
  · by_cases hd : b = 0xed
    · simp [hd]
    · simp [h0, hd, h']

theorem lead_four {b : Nat} (h : 0xf0 ≤ b) (h' : b ≤ 0xf4) :
    lead b = .more ⟨b - 0xf0, 3, if b = 0xf0 then 0x90 else 0x80,
      if b = 0xf4 then 0x8f else 0xbf⟩ := by
  unfold lead
  rw [if_neg (by omega), if_neg (by omega), if_neg (by omega), if_neg (by omega),
    if_neg (by omega), if_neg (by omega)]
  by_cases h0 : b = 0xf0
  · simp [h0]
  · by_cases h4 : b = 0xf4
    · simp [h4]
    · rw [if_neg h0, if_pos (by omega)]
      simp [h0, h4]

/-- A byte that only continues others, or is never used, leads nothing. -/
theorem lead_bad {b : Nat} (h : 0x80 ≤ b ∧ b < 0xc2 ∨ 0xf4 < b) : lead b = .bad := by
  unfold lead
  rcases h with h | h
  · rw [if_neg (by omega), if_pos (by omega)]
  · rw [if_neg (by omega), if_neg (by omega), if_neg (by omega), if_neg (by omega),
      if_neg (by omega), if_neg (by omega), if_neg (by omega), if_neg (by omega),
      if_neg (by omega)]

/-- The five sorts of first bytes. -/
theorem lead_range (b : Nat) :
    b < 0x80 ∨ (0xc2 ≤ b ∧ b < 0xe0) ∨ (0xe0 ≤ b ∧ b < 0xf0)
      ∨ (0xf0 ≤ b ∧ b ≤ 0xf4) ∨ (0x80 ≤ b ∧ b < 0xc2 ∨ 0xf4 < b) := by
  omega

-- ======================================================= later bytes

/-- What it takes to complete a character. -/
theorem next_eq_char_iff {p : Pending} {b : Nat} {c : Char} :
    p.next b = some (.char c) ↔
      (p.low ≤ b ∧ b ≤ p.high) ∧ p.missing ≤ 1
        ∧ c = Char.ofNat (p.bits * 64 + (b - 0x80)) := by
  unfold Pending.next
  by_cases hrange : p.low ≤ b ∧ b ≤ p.high
  · by_cases hmissing : p.missing ≤ 1
    · simp [hrange, hmissing, eq_comm]
    · simp [hrange, hmissing]
  · simp [hrange]

/-- What it takes to get on inside a character. -/
theorem next_eq_more_iff {p q : Pending} {b : Nat} :
    p.next b = some (.more q) ↔
      (p.low ≤ b ∧ b ≤ p.high) ∧ ¬p.missing ≤ 1
        ∧ q = ⟨p.bits * 64 + (b - 0x80), p.missing - 1, 0x80, 0xbf⟩ := by
  unfold Pending.next
  by_cases hrange : p.low ≤ b ∧ b ≤ p.high
  · by_cases hmissing : p.missing ≤ 1
    · simp [hrange, hmissing]
    · simp [hrange, hmissing, eq_comm]
  · simp [hrange]

-- ========================================================== spelling

/-- Bytes that take a reader from inside a character to its end. -/
inductive Completes : Pending → Bytes → Char → Prop
  | last {p : Pending} {b : UInt8} {c : Char}
      (h : p.next b.toNat = some (.char c)) : Completes p [b] c
  | more {p q : Pending} {b : UInt8} {bs : Bytes} {c : Char}
      (h : p.next b.toNat = some (.more q)) (hrest : Completes q bs c) :
      Completes p (b :: bs) c

/-- Bytes that take a reader from the beginning of a character to its end. -/
inductive Spells : Bytes → Char → Prop
  | alone {b : UInt8} {c : Char} (h : lead b.toNat = .char c) : Spells [b] c
  | more {b : UInt8} {p : Pending} {bs : Bytes} {c : Char}
      (h : lead b.toNat = .more p) (hrest : Completes p bs c) : Spells (b :: bs) c

/-- A character that lacks one byte takes one. -/
theorem completes_one_iff {p : Pending} {bs : Bytes} {c : Char}
    (hmissing : p.missing = 1) :
    Completes p bs c ↔
      ∃ b : UInt8, bs = [b] ∧ (p.low ≤ b.toNat ∧ b.toNat ≤ p.high)
        ∧ c = Char.ofNat (p.bits * 64 + (b.toNat - 0x80)) := by
  constructor
  · intro h
    cases h with
    | @last _ b _ h =>
        obtain ⟨hrange, -, hc⟩ := next_eq_char_iff.mp h
        exact ⟨b, rfl, hrange, hc⟩
    | more h hrest =>
        obtain ⟨-, hmore, -⟩ := next_eq_more_iff.mp h
        omega
  · rintro ⟨b, rfl, hrange, hc⟩
    exact .last (next_eq_char_iff.mpr ⟨hrange, by omega, hc⟩)

/-- A character that lacks more takes one byte and then lacks one less. -/
theorem completes_more_iff {p : Pending} {bs : Bytes} {c : Char}
    (hmissing : 1 < p.missing) :
    Completes p bs c ↔
      ∃ (b : UInt8) (rest : Bytes), bs = b :: rest
        ∧ (p.low ≤ b.toNat ∧ b.toNat ≤ p.high)
        ∧ Completes ⟨p.bits * 64 + (b.toNat - 0x80), p.missing - 1, 0x80, 0xbf⟩
            rest c := by
  constructor
  · intro h
    cases h with
    | last h =>
        obtain ⟨-, hlast, -⟩ := next_eq_char_iff.mp h
        omega
    | @more _ q b rest _ h hrest =>
        obtain ⟨hrange, -, hq⟩ := next_eq_more_iff.mp h
        exact ⟨b, rest, rfl, hrange, hq ▸ hrest⟩
  · rintro ⟨b, rest, rfl, hrange, hrest⟩
    exact .more (next_eq_more_iff.mpr ⟨hrange, by omega, rfl⟩) hrest

/-- The four shapes of a character's bytes, and the code point of each. -/
inductive Shape : Bytes → Nat → Prop
  | one {b : UInt8} (h : b.toNat < 0x80) : Shape [b] b.toNat
  | two {b₀ b₁ : UInt8} (h₀ : 0xc2 ≤ b₀.toNat ∧ b₀.toNat < 0xe0)
      (h₁ : 0x80 ≤ b₁.toNat ∧ b₁.toNat ≤ 0xbf) :
      Shape [b₀, b₁] ((b₀.toNat - 0xc0) * 64 + (b₁.toNat - 0x80))
  | three {b₀ b₁ b₂ : UInt8} (h₀ : 0xe0 ≤ b₀.toNat ∧ b₀.toNat < 0xf0)
      (h₁ : (if b₀.toNat = 0xe0 then 0xa0 else 0x80) ≤ b₁.toNat
        ∧ b₁.toNat ≤ if b₀.toNat = 0xed then 0x9f else 0xbf)
      (h₂ : 0x80 ≤ b₂.toNat ∧ b₂.toNat ≤ 0xbf) :
      Shape [b₀, b₁, b₂]
        (((b₀.toNat - 0xe0) * 64 + (b₁.toNat - 0x80)) * 64 + (b₂.toNat - 0x80))
  | four {b₀ b₁ b₂ b₃ : UInt8} (h₀ : 0xf0 ≤ b₀.toNat ∧ b₀.toNat ≤ 0xf4)
      (h₁ : (if b₀.toNat = 0xf0 then 0x90 else 0x80) ≤ b₁.toNat
        ∧ b₁.toNat ≤ if b₀.toNat = 0xf4 then 0x8f else 0xbf)
      (h₂ : 0x80 ≤ b₂.toNat ∧ b₂.toNat ≤ 0xbf)
      (h₃ : 0x80 ≤ b₃.toNat ∧ b₃.toNat ≤ 0xbf) :
      Shape [b₀, b₁, b₂, b₃]
        ((((b₀.toNat - 0xf0) * 64 + (b₁.toNat - 0x80)) * 64 + (b₂.toNat - 0x80)) * 64
          + (b₃.toNat - 0x80))

/-- A reader goes through exactly the four shapes. -/
theorem spells_iff_shape {bs : Bytes} {c : Char} :
    Spells bs c ↔ ∃ v, Shape bs v ∧ c = Char.ofNat v := by
  constructor
  · intro h
    cases h with
    | @alone b _ h =>
        rcases lead_range b.toNat with hb | hb | hb | hb | hb
        · rw [lead_one hb] at h
          cases h
          exact ⟨_, .one hb, rfl⟩
        · rw [lead_two hb.1 hb.2] at h
          cases h
        · rw [lead_three hb.1 hb.2] at h
          cases h
        · rw [lead_four hb.1 hb.2] at h
          cases h
        · rw [lead_bad hb] at h
          cases h
    | @more b p rest _ h hrest =>
        rcases lead_range b.toNat with hb | hb | hb | hb | hb
        · rw [lead_one hb] at h
          cases h
        · rw [lead_two hb.1 hb.2] at h
          rw [← Lead.more.inj h] at hrest
          obtain ⟨b₁, rfl, h₁, hc⟩ := (completes_one_iff (by rfl)).mp hrest
          exact ⟨_, .two hb h₁, hc⟩
        · rw [lead_three hb.1 hb.2] at h
          rw [← Lead.more.inj h] at hrest
          obtain ⟨b₁, _, rfl, h₁, hrest⟩ :=
            (completes_more_iff (show 1 < 2 by omega)).mp hrest
          obtain ⟨b₂, rfl, h₂, hc⟩ := (completes_one_iff (by rfl)).mp hrest
          exact ⟨_, .three hb h₁ h₂, hc⟩
        · rw [lead_four hb.1 hb.2] at h
          rw [← Lead.more.inj h] at hrest
          obtain ⟨b₁, _, rfl, h₁, hrest⟩ :=
            (completes_more_iff (show 1 < 3 by omega)).mp hrest
          obtain ⟨b₂, _, rfl, h₂, hrest⟩ :=
            (completes_more_iff (show 1 < 2 by omega)).mp hrest
          obtain ⟨b₃, rfl, h₃, hc⟩ := (completes_one_iff (by rfl)).mp hrest
          exact ⟨_, .four hb h₁ h₂ h₃, hc⟩
        · rw [lead_bad hb] at h
          cases h
  · rintro ⟨v, hshape, rfl⟩
    cases hshape with
    | one h => exact .alone (lead_one h)
    | two h₀ h₁ =>
        refine .more (lead_two h₀.1 h₀.2) ?_
        exact (completes_one_iff (by rfl)).mpr ⟨_, rfl, h₁, rfl⟩
    | three h₀ h₁ h₂ =>
        refine .more (lead_three h₀.1 h₀.2) ?_
        refine (completes_more_iff (show 1 < 2 by omega)).mpr ⟨_, _, rfl, h₁, ?_⟩
        exact (completes_one_iff (by rfl)).mpr ⟨_, rfl, h₂, rfl⟩
    | four h₀ h₁ h₂ h₃ =>
        refine .more (lead_four h₀.1 h₀.2) ?_
        refine (completes_more_iff (show 1 < 3 by omega)).mpr ⟨_, _, rfl, h₁, ?_⟩
        refine (completes_more_iff (show 1 < 2 by omega)).mpr ⟨_, _, rfl, h₂, ?_⟩
        exact (completes_one_iff (by rfl)).mpr ⟨_, rfl, h₃, rfl⟩

-- ========================================================== encoding

theorem toNat_ofNat_of_lt {n : Nat} (h : n < 256) : (UInt8.ofNat n).toNat = n :=
  UInt8.toNat_ofNat_of_lt' h

/-- The encoding of a character has the shape of its code point. -/
theorem shape_utf8EncodeChar (c : Char) : Shape (String.utf8EncodeChar c) c.val.toNat := by
  have hbounds : c.val.toNat < 0xd800
      ∨ (0xdfff < c.val.toNat ∧ c.val.toNat < 0x110000) := c.valid
  unfold String.utf8EncodeChar
  dsimp only
  generalize c.val.toNat = v at hbounds ⊢
  have hlast := toNat_ofNat_of_lt (n := v % 0x40 + 0x80) (by omega)
  have hmiddle := toNat_ofNat_of_lt (n := v / 64 % 0x40 + 0x80) (by omega)
  by_cases hone : v ≤ 0x7f
  · rw [if_pos hone]
    have h₀ := toNat_ofNat_of_lt (n := v) (by omega)
    generalize UInt8.ofNat v = b₀ at h₀ ⊢
    subst h₀
    exact .one (by omega)
  rw [if_neg hone]
  by_cases htwo : v ≤ 0x7ff
  · rw [if_pos htwo]
    have h₀ := toNat_ofNat_of_lt (n := v / 64 % 0x20 + 0xc0) (by omega)
    generalize UInt8.ofNat (v % 0x40 + 0x80) = b₁ at hlast ⊢
    generalize UInt8.ofNat (v / 64 % 0x20 + 0xc0) = b₀ at h₀ ⊢
    have hv : v = (b₀.toNat - 0xc0) * 64 + (b₁.toNat - 0x80) := by omega
    rw [hv]
    exact .two (by omega) (by omega)
  rw [if_neg htwo]
  by_cases hthree : v ≤ 0xffff
  · rw [if_pos hthree]
    have h₀ := toNat_ofNat_of_lt (n := v / 4096 % 0x10 + 0xe0) (by omega)
    generalize UInt8.ofNat (v % 0x40 + 0x80) = b₂ at hlast ⊢
    generalize UInt8.ofNat (v / 64 % 0x40 + 0x80) = b₁ at hmiddle ⊢
    generalize UInt8.ofNat (v / 4096 % 0x10 + 0xe0) = b₀ at h₀ ⊢
    have hv : v = ((b₀.toNat - 0xe0) * 64 + (b₁.toNat - 0x80)) * 64
        + (b₂.toNat - 0x80) := by omega
    rw [hv]
    -- 0xe0 rules out what fits into two bytes, 0xed the surrogates
    refine .three (by omega) ⟨?_, ?_⟩ (by omega)
    · split <;> omega
    · split <;> omega
  · rw [if_neg hthree]
    have h₀ := toNat_ofNat_of_lt (n := v / 262144 % 0x08 + 0xf0) (by omega)
    have h₁ := toNat_ofNat_of_lt (n := v / 4096 % 0x40 + 0x80) (by omega)
    generalize UInt8.ofNat (v % 0x40 + 0x80) = b₃ at hlast ⊢
    generalize UInt8.ofNat (v / 64 % 0x40 + 0x80) = b₂ at hmiddle ⊢
    generalize UInt8.ofNat (v / 4096 % 0x40 + 0x80) = b₁ at h₁ ⊢
    generalize UInt8.ofNat (v / 262144 % 0x08 + 0xf0) = b₀ at h₀ ⊢
    have hv : v = (((b₀.toNat - 0xf0) * 64 + (b₁.toNat - 0x80)) * 64
        + (b₂.toNat - 0x80)) * 64 + (b₃.toNat - 0x80) := by omega
    rw [hv]
    -- 0xf0 rules out what fits into three bytes, 0xf4 what is too large
    refine .four (by omega) ⟨?_, ?_⟩ (by omega) (by omega)
    · split <;> omega
    · split <;> omega

/-- What has a shape is a code point. -/
theorem Shape.isValidChar {bs : Bytes} {v : Nat} (h : Shape bs v) : v.isValidChar := by
  show v < 0xd800 ∨ (0xdfff < v ∧ v < 0x110000)
  cases h with
  | one h => omega
  | two h₀ h₁ => omega
  | three h₀ h₁ h₂ => split at h₁ <;> split at h₁ <;> omega
  | four h₀ h₁ h₂ h₃ => split at h₁ <;> split at h₁ <;> omega

/-- A byte below 0x80 is all there is of a character. -/
theorem Shape.eq_toNat_of_mem {bs : Bytes} {v : Nat} {b : UInt8} (h : Shape bs v) (hb : b ∈ bs)
    (hlow : b.toNat < 0x80) : v = b.toNat := by
  cases h with
  | one h => rw [List.mem_singleton.mp hb]
  | two h₀ h₁ =>
      simp only [List.mem_cons, List.not_mem_nil, or_false] at hb
      rcases hb with rfl | rfl <;> omega
  | three h₀ h₁ h₂ =>
      simp only [List.mem_cons, List.not_mem_nil, or_false] at hb
      split at h₁ <;> rcases hb with rfl | rfl | rfl <;> omega
  | four h₀ h₁ h₂ h₃ =>
      simp only [List.mem_cons, List.not_mem_nil, or_false] at hb
      split at h₁ <;> rcases hb with rfl | rfl | rfl | rfl <;> omega

theorem toNat_charOfNat {v : Nat} (h : v.isValidChar) : (Char.ofNat v).val.toNat = v := by
  unfold Char.ofNat
  rw [dif_pos h]
  rfl

private theorem ofNat_eq {n : Nat} {b : UInt8} (h : n = b.toNat) : UInt8.ofNat n = b := by
  rw [h, UInt8.ofNat_toNat]

/-- Bytes of a shape are the encoding of their code point. -/
theorem Shape.utf8EncodeChar_eq {bs : Bytes} {v : Nat} (h : Shape bs v) :
    String.utf8EncodeChar (Char.ofNat v) = bs := by
  have hv := toNat_charOfNat h.isValidChar
  unfold String.utf8EncodeChar
  dsimp only
  rw [hv]
  cases h with
  | @one b₀ h =>
      rw [if_pos (by omega), ofNat_eq rfl]
  | @two b₀ b₁ h₀ h₁ =>
      rw [if_neg (by omega), if_pos (by omega), ofNat_eq (b := b₀) (by omega),
        ofNat_eq (b := b₁) (by omega)]
  | @three b₀ b₁ b₂ h₀ h₁ h₂ =>
      have hlow : 0x800 ≤ (b₀.toNat - 0xe0) * 64 * 64 + (b₁.toNat - 0x80) * 64 := by
        split at h₁ <;> omega
      have h₁' : 0x80 ≤ b₁.toNat ∧ b₁.toNat ≤ 0xbf := by
        split at h₁ <;> split at h₁ <;> omega
      rw [if_neg (by omega), if_neg (by omega), if_pos (by omega),
        ofNat_eq (b := b₀) (by omega), ofNat_eq (b := b₁) (by omega),
        ofNat_eq (b := b₂) (by omega)]
  | @four b₀ b₁ b₂ b₃ h₀ h₁ h₂ h₃ =>
      have hlow : 0x10000
          ≤ (b₀.toNat - 0xf0) * 64 * 64 * 64 + (b₁.toNat - 0x80) * 64 * 64 := by
        split at h₁ <;> omega
      have h₁' : 0x80 ≤ b₁.toNat ∧ b₁.toNat ≤ 0xbf := by
        split at h₁ <;> split at h₁ <;> omega
      rw [if_neg (by omega), if_neg (by omega), if_neg (by omega),
        ofNat_eq (b := b₀) (by omega), ofNat_eq (b := b₁) (by omega),
        ofNat_eq (b := b₂) (by omega), ofNat_eq (b := b₃) (by omega)]

/-- A character is spelled by its encoding, and by nothing else. -/
theorem spells_iff {bs : Bytes} {c : Char} :
    Spells bs c ↔ bs = String.utf8EncodeChar c := by
  rw [spells_iff_shape]
  constructor
  · rintro ⟨v, hshape, hc⟩
    rw [hc, hshape.utf8EncodeChar_eq]
  · intro h
    exact ⟨c.val.toNat, h ▸ shape_utf8EncodeChar c, (Char.ofNat_toNat c).symm⟩

-- =========================================================== decoding

/-- What completes a character gives that character and goes on with the rest. -/
theorem decodeFrom?_completes {p : Pending} {bs : Bytes} {c : Char}
    (h : Completes p bs c) (rest : Bytes) :
    decodeFrom? (some p) (bs ++ rest) = (decodeFrom? none rest).map (c :: ·) := by
  induction h with
  | last h => simp [decodeFrom?, h]
  | more h _ ih => simp [decodeFrom?, h, ih]

/-- To read with losses does not lose a character that is completed. -/
theorem lossyFrom_completes {p : Pending} {bs : Bytes} {c : Char}
    (h : Completes p bs c) (rest : Bytes) :
    lossyFrom (some p) (bs ++ rest) = c :: lossyFrom none rest := by
  induction h with
  | last h => simp [lossyFrom, lossyStep, h]
  | more h _ ih => simp [lossyFrom, lossyStep, h, ih]

/-- A character that is spelled is read by a strict reader. -/
theorem decodeFrom?_spells {bs : Bytes} {c : Char} (h : Spells bs c) (rest : Bytes) :
    decodeFrom? none (bs ++ rest) = (decodeFrom? none rest).map (c :: ·) := by
  cases h with
  | alone h => simp [decodeFrom?, h]
  | more h hrest => simp [decodeFrom?, h, decodeFrom?_completes hrest]

/-- And by a lossy one. -/
theorem lossyFrom_spells {bs : Bytes} {c : Char} (h : Spells bs c) (rest : Bytes) :
    lossyFrom none (bs ++ rest) = c :: lossyFrom none rest := by
  cases h with
  | alone h => simp [lossyFrom, lossyStep, lossyLead, h]
  | more h hrest => simp [lossyFrom, lossyStep, lossyLead, h, lossyFrom_completes hrest]

/-- Inside a character, the character is completed, or a strict reader stops and a lossy
one writes a replacement. -/
theorem completes_or_broken (p : Pending) (bs : Bytes) :
    (∃ cs rest c, bs = cs ++ rest ∧ Completes p cs c)
      ∨ (decodeFrom? (some p) bs = none ∧ replacement ∈ lossyFrom (some p) bs) := by
  induction bs generalizing p with
  | nil => exact Or.inr ⟨rfl, List.mem_singleton_self _⟩
  | cons b bs ih =>
      cases hnext : p.next b.toNat with
      | none => exact Or.inr (by simp [decodeFrom?, lossyFrom, lossyStep, hnext])
      | some l =>
          cases l with
          | char c => exact Or.inl ⟨[b], bs, c, rfl, .last hnext⟩
          | more q =>
              rcases ih q with ⟨cs, rest, c, rfl, hcs⟩ | ⟨hstops, hbroken⟩
              · exact Or.inl ⟨b :: cs, rest, c, rfl, .more hnext hcs⟩
              · refine Or.inr ⟨?_, ?_⟩
                · simpa [decodeFrom?, hnext] using hstops
                · simpa [lossyFrom, lossyStep, hnext] using hbroken
          | bad => exact Or.inr (by simp [decodeFrom?, lossyFrom, lossyStep, hnext])

/-- The same between characters. -/
theorem spells_or_broken (b : UInt8) (bs : Bytes) :
    (∃ cs rest c, b :: bs = cs ++ rest ∧ Spells cs c)
      ∨ (decodeFrom? none (b :: bs) = none ∧ replacement ∈ lossyFrom none (b :: bs)) := by
  cases hlead : lead b.toNat with
  | char c => exact Or.inl ⟨[b], bs, c, rfl, .alone hlead⟩
  | more p =>
      rcases completes_or_broken p bs with ⟨cs, rest, c, rfl, hcs⟩ | ⟨hstops, hbroken⟩
      · exact Or.inl ⟨b :: cs, rest, c, rfl, .more hlead hcs⟩
      · refine Or.inr ⟨?_, ?_⟩
        · simpa [decodeFrom?, hlead] using hstops
        · simpa [lossyFrom, lossyStep, lossyLead, hlead] using hbroken
  | bad => exact Or.inr (by simp [decodeFrom?, lossyFrom, lossyStep, lossyLead, hlead])

end Utf8

open Utf8

@[simp] theorem encode_nil : encode [] = [] := rfl

theorem encode_cons (c : Char) (t : Text) :
    encode (c :: t) = String.utf8EncodeChar c ++ encode t := rfl

theorem encode_append (s t : Text) : encode (s ++ t) = encode s ++ encode t :=
  List.flatMap_append

/-- The size of a text is the number of its bytes. -/
theorem length_encode (t : Text) : (encode t).length = size t := by
  induction t with
  | nil => rfl
  | cons c t ih =>
      rw [encode_cons, List.length_append, String.length_utf8EncodeChar, ih, size_cons]

/-- The bytes of a text are where they were, further on by what stands before. -/
theorem getElem?_encode_append (before after : Text) (i : Nat) :
    (encode (before ++ after))[size before + i]? = (encode after)[i]? := by
  rw [encode_append, ← length_encode, List.getElem?_append_right (Nat.le_add_right _ _),
    Nat.add_sub_cancel_left]

/-- No character but the newline has its byte. -/
theorem newline_notMem_encode {t : Text} (h : '\n' ∉ t) : 0x0a ∉ encode t := by
  intro hmem
  obtain ⟨c, hc, hbyte⟩ := List.mem_flatMap.mp hmem
  have hcode : c.val.toNat = 0x0a :=
    (Utf8.shape_utf8EncodeChar c).eq_toNat_of_mem hbyte (by decide)
  have hnewline : c = '\n' := Char.ext (UInt32.toNat_inj.mp hcode)
  exact h (hnewline ▸ hc)

/-- The encoding of a text is decoded to the text, whatever follows. -/
theorem decodeLossy_encode_append (t : Text) (bs : Bytes) :
    decodeLossy (encode t ++ bs) = t ++ decodeLossy bs := by
  unfold decodeLossy
  induction t with
  | nil => rfl
  | cons c t ih =>
      rw [encode_cons, List.append_assoc, lossyFrom_spells (spells_iff.mpr rfl), ih]
      rfl

/-- A text that was encoded loses nothing. -/
theorem decodeLossy_encode (t : Text) : decodeLossy (encode t) = t := by
  have h := decodeLossy_encode_append t []
  rwa [List.append_nil, show decodeLossy [] = [] from rfl, List.append_nil] at h

/-- A text is read back from its bytes. -/
theorem decode?_encode (t : Text) : decode? (encode t) = some t := by
  unfold decode?
  induction t with
  | nil => rfl
  | cons c t ih =>
      rw [encode_cons, decodeFrom?_spells (spells_iff.mpr rfl), ih]
      rfl

/-- Bytes are the encoding of a text, or not even a lossy reader reads them without a
replacement. -/
theorem encode_or_broken (bs : Bytes) :
    (∃ t, bs = encode t) ∨ (decode? bs = none ∧ replacement ∈ decodeLossy bs) := by
  -- the induction goes character by character, so it is on the number of bytes
  induction hn : bs.length using Nat.strongRecOn generalizing bs with
  | ind n ih =>
      subst hn
      cases bs with
      | nil => exact Or.inl ⟨[], rfl⟩
      | cons b bs =>
          rcases spells_or_broken b bs with ⟨cs, rest, c, hsplit, hspells⟩ | hbroken
          · have hcs := spells_iff.mp hspells
            have hshorter : rest.length < (b :: bs).length := by
              rw [hsplit, List.length_append, hcs, String.length_utf8EncodeChar]
              have := c.utf8Size_pos
              omega
            rw [hsplit]
            rcases ih _ hshorter rest rfl with ⟨t, rfl⟩ | ⟨hstops, hbroken⟩
            · exact Or.inl ⟨c :: t, by rw [encode_cons, hcs]⟩
            · right
              constructor
              · unfold decode? at hstops ⊢
                rw [decodeFrom?_spells hspells, hstops]
                rfl
              · unfold decodeLossy at hbroken ⊢
                rw [lossyFrom_spells hspells]
                exact List.mem_cons_of_mem c hbroken
          · exact Or.inr hbroken

/-- Strict decoding undoes encoding, and nothing else is decoded. -/
theorem decode?_eq_some_iff {bs : Bytes} {t : Text} : decode? bs = some t ↔ bs = encode t := by
  constructor
  · intro h
    rcases encode_or_broken bs with ⟨u, rfl⟩ | ⟨hstops, -⟩
    · rw [decode?_encode] at h
      rw [Option.some.inj h]
    · cases hstops.symm.trans h
  · rintro rfl
    exact decode?_encode t

/-- Bytes that are decoded without a replacement are the encoding of what they
are decoded to. -/
theorem encode_decodeLossy {bs : Bytes} (h : replacement ∉ decodeLossy bs) :
    encode (decodeLossy bs) = bs := by
  rcases encode_or_broken bs with ⟨t, rfl⟩ | ⟨-, hbroken⟩
  · rw [decodeLossy_encode]
  · exact absurd hbroken h

/-- Whatever has a replacement in it was decoded from more than one sequence of
bytes. -/
theorem exists_decodeLossy_eq {bs : Bytes} (h : replacement ∈ decodeLossy bs) :
    ∃ bs', bs' ≠ bs ∧ decodeLossy bs' = decodeLossy bs := by
  by_cases hspelled : encode (decodeLossy bs) = bs
  · -- every replacement is spelled out, so one of them can become a bad byte
    obtain ⟨s, t, hst⟩ := List.append_of_mem h
    refine ⟨encode s ++ 0xff :: encode t, ?_, ?_⟩
    · intro heq
      have hlength := congrArg List.length (heq.trans hspelled.symm)
      rw [hst, encode_append, encode_cons] at hlength
      simp only [List.length_append, List.length_cons,
        String.length_utf8EncodeChar] at hlength
      have hsize : replacement.utf8Size = 3 := by decide
      omega
    · rw [decodeLossy_encode_append, hst]
      have hbad : decodeLossy (0xff :: encode t) = replacement :: decodeLossy (encode t) :=
        rfl
      rw [hbad, decodeLossy_encode]
  · exact ⟨encode (decodeLossy bs), hspelled, decodeLossy_encode _⟩

/-- What has no replacement in it was decoded from one sequence of bytes. -/
theorem eq_of_decodeLossy_eq {bs bs' : Bytes} (h : replacement ∉ decodeLossy bs)
    (heq : decodeLossy bs' = decodeLossy bs) : bs' = bs := by
  have h' : replacement ∉ decodeLossy bs' := heq ▸ h
  rw [← encode_decodeLossy h', heq, encode_decodeLossy h]

end CryptolEdit.Text
