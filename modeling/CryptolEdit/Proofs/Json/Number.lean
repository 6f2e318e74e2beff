import CryptolEdit.Json.Number

/-!
Whole numbers are read as they were written.

A number is written as its decimal digits, which make the number again when they are
appended one by one (`foldl_digits`) and have no zero in front (`eq_zero_of_digits`).
Reading appends digits as long as 64 bits hold the result; a number of 64 bits never
comes to that limit, since no beginning of its digits is greater than the number
(`takeDigits_append`). It is read back unless what follows would make it longer
(`number_digits`).
-/

namespace CryptolEdit

-- ============================================================== digits

namespace Decimal

/-- Appends a digit to a number. -/
def append (n : Nat) (c : Char) : Nat := n * 10 + valueOf c

theorem le_foldl_append (n : Nat) (ds : Text) : n ≤ ds.foldl append n := by
  induction ds generalizing n with
  | nil => exact Nat.le_refl n
  | cons c ds ih =>
      have hstep : n ≤ append n c := by
        unfold append
        omega
      exact Nat.le_trans hstep (ih _)

theorem digit_of_lt : ∀ k < 10, isDigit (Char.ofNat (48 + k)) = true
    ∧ valueOf (Char.ofNat (48 + k)) = k := by
  decide

theorem isDigit_digit (n : Nat) : isDigit (digit n) = true :=
  (digit_of_lt (n % 10) (Nat.mod_lt n (by decide))).1

/-- The digit that ends a number is worth the remainder by ten. -/
theorem valueOf_digit (n : Nat) : valueOf (digit n) = n % 10 :=
  (digit_of_lt (n % 10) (Nat.mod_lt n (by decide))).2

theorem isDigit_of_mem_digits {n : Nat} {c : Char} (h : c ∈ digits n) : isDigit c = true := by
  fun_induction digits n with
  | case1 n hlt =>
      rw [List.mem_singleton.mp h]
      exact isDigit_digit n
  | case2 n hge ih =>
      rcases List.mem_append.mp h with h | h
      · exact ih h
      · rw [List.mem_singleton.mp h]
        exact isDigit_digit n

/-- The digits of a number make the number. -/
theorem foldl_digits (n : Nat) : (digits n).foldl append 0 = n := by
  fun_induction digits n with
  | case1 n hlt =>
      show 0 * 10 + valueOf (digit n) = n
      rw [valueOf_digit]
      omega
  | case2 n hge ih =>
      rw [List.foldl_append, ih]
      show n / 10 * 10 + valueOf (digit n) = n
      rw [valueOf_digit]
      omega

theorem digits_zero : digits 0 = ['0'] := by
  rw [digits]
  rfl

theorem digits_ne_nil (n : Nat) : digits n ≠ [] := by
  rw [digits]
  split
  · exact List.cons_ne_nil _ _
  · exact List.append_ne_nil_of_right_ne_nil _ (List.cons_ne_nil _ _)

/-- Only zero is written with a zero in front. -/
theorem eq_zero_of_digits {n : Nat} {ds : Text} (h : digits n = '0' :: ds) : n = 0 := by
  fun_induction digits n generalizing ds with
  | case1 n hlt =>
      have hvalue := valueOf_digit n
      rw [(List.cons.inj h).1] at hvalue
      have hzero : valueOf '0' = 0 := rfl
      omega
  | case2 n hge ih =>
      obtain ⟨c, front, hfront⟩ := List.exists_cons_of_ne_nil (digits_ne_nil (n / 10))
      rw [hfront, List.cons_append] at h
      rw [(List.cons.inj h).1] at hfront
      have hten := ih hfront
      omega

end Decimal

-- ============================================================= reading

namespace Json

open Decimal

/-- Appending digits goes on to the end of them if 64 bits hold what they make. -/
theorem takeDigits_append {ds rest : Text} (hds : ∀ c ∈ ds, isDigit c = true)
    (hrest : ∀ c ∈ rest.head?, isDigit c = false) {n : Nat} (count : Nat)
    (hfits : ds.foldl append n < wordLimit) :
    takeDigits n count (ds ++ rest) = (ds.foldl append n, count + ds.length, rest) := by
  induction ds generalizing n count with
  | nil =>
      cases rest with
      | nil => rfl
      | cons c rest =>
          rw [List.nil_append, takeDigits, if_neg (by simp [hrest c rfl])]
          rfl
  | cons c ds ih =>
      obtain ⟨hc, hds⟩ := List.forall_mem_cons.mp hds
      have hstep : n * 10 + valueOf c < wordLimit :=
        Nat.lt_of_le_of_lt (le_foldl_append (append n c) ds) hfits
      have hlength : count + (c :: ds).length = count + 1 + ds.length := by
        rw [List.length_cons]
        omega
      rw [List.cons_append, takeDigits, if_pos ⟨hc, hstep⟩, hlength]
      exact ih hds (count + 1) hfits

/-- The digits of a number below the limit are read back as that number. -/
theorem takeDigits_digits {n : Nat} (hn : n < wordLimit) {rest : Text}
    (hrest : ∀ c ∈ rest.head?, isDigit c = false) :
    takeDigits 0 0 (digits n ++ rest) = (n, (digits n).length, rest) := by
  have hfits : (digits n).foldl append 0 < wordLimit := by
    rw [foldl_digits]
    exact hn
  rw [takeDigits_append (fun c hc => isDigit_of_mem_digits hc) hrest 0 hfits, foldl_digits,
    Nat.zero_add]

/-- What follows does not make a number longer, or take it for a fraction. -/
def EndsNumber (rest : Text) : Prop :=
  ∀ c ∈ rest.head?, isDigit c = false ∧ c ≠ '.' ∧ c ≠ 'e' ∧ c ≠ 'E'

/-- A number ends where neither a digit nor a part of a fraction or an exponent
follows. -/
theorem endsNumber_cons {c : Char} (h : isDigit c = false ∧ c ≠ '.' ∧ c ≠ 'e' ∧ c ≠ 'E')
    (t : Text) : EndsNumber (c :: t) := by
  intro d hd
  cases hd
  exact h

theorem startsWithDigit_eq_false {rest : Text} (h : ∀ c ∈ rest.head?, isDigit c = false) :
    startsWithDigit rest = false := by
  cases rest with
  | nil => rfl
  | cons c rest => exact h c rfl

theorem span_digits_eq {rest : Text} (h : ∀ c ∈ rest.head?, isDigit c = false) :
    rest.takeWhile isDigit = [] ∧ rest.dropWhile isDigit = rest := by
  cases rest with
  | nil => exact ⟨rfl, rfl⟩
  | cons c rest => simp [h c rfl]

/-- A number of 64 bits is read back from its digits. -/
theorem number_digits {n : Nat} (hn : n < wordLimit) {rest : Text} (hrest : EndsNumber rest) :
    number false (digits n ++ rest) = .ok (.natural n, rest) := by
  have hstop : ∀ c ∈ rest.head?, isDigit c = false := fun c hc => (hrest c hc).1
  have htake := takeDigits_digits hn hstop
  obtain ⟨c, ds, hdigits⟩ := List.exists_cons_of_ne_nil (digits_ne_nil n)
  have hc : isDigit c = true :=
    isDigit_of_mem_digits (n := n) (by rw [hdigits]; exact List.mem_cons_self)
  have hzero : ¬(c = '0' ∧ startsWithDigit (ds ++ rest) = true) := by
    rintro ⟨rfl, hstarts⟩
    rw [eq_zero_of_digits hdigits, digits_zero] at hdigits
    rw [← (List.cons.inj hdigits).2, List.nil_append, startsWithDigit_eq_false hstop] at hstarts
    cases hstarts
  obtain ⟨hnone, hall⟩ := span_digits_eq hstop
  rw [hdigits, List.cons_append] at htake ⊢
  rw [number, if_neg (by simp [hc, hzero]), htake]
  dsimp only
  rw [hnone, hall]
  -- what follows the digits is none of the signs of a number that is not whole
  split
  · exact absurd rfl (hrest '.' rfl).2.1
  · exact absurd rfl (hrest 'e' rfl).2.2.1
  · exact absurd rfl (hrest 'E' rfl).2.2.2
  · rfl

end Json

end CryptolEdit
