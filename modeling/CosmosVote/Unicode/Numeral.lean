import Mathlib.Data.List.Basic
import Mathlib.Tactic.Ring

/-!
# Decimal numerals

The decimal numeral of a number is `Nat.toDigits 10`. Its last `d` digits are those of a numeral of fixed width
(`fixedDigits`), and what comes before them is the numeral of the quotient by `10 ^ d`, if the numeral is
padded with zeros to have more than `d` digits.

* `padStart_toDigits`: a padded numeral, cut before its last digits;
* `take_fixedDigits`: the first digits of a numeral of fixed width.
-/

namespace Unicode

/-- The text with `c` in front of it, as often as it takes to have the length. -/
def padStart (length : ℕ) (c : Char) (s : List Char) : List Char := List.replicate (length - s.length) c ++ s

/-- The text with `c` behind it, as often as it takes to have the length. -/
def padEnd (length : ℕ) (c : Char) (s : List Char) : List Char := s ++ List.replicate (length - s.length) c

/-- The last `d` digits of a number. -/
def fixedDigits : ℕ → ℕ → List Char
  | 0, _ => []
  | d + 1, n => fixedDigits d (n / 10) ++ [Nat.digitChar (n % 10)]

@[simp]
theorem length_fixedDigits (d n : ℕ) : (fixedDigits d n).length = d := by
  induction d generalizing n with
  | zero => rfl
  | succ d ih => rw [fixedDigits, List.length_append, ih, List.length_singleton]

theorem padStart_concat (length : ℕ) (c x : Char) (s : List Char) :
    padStart (length + 1) c (s ++ [x]) = padStart length c s ++ [x] := by
  rw [padStart, padStart, List.length_append, List.length_singleton, Nat.add_sub_add_right, List.append_assoc]

/-- A numeral with more than `d` digits is the numeral of the quotient, and the last `d` digits. -/
theorem padStart_toDigits (d n : ℕ) :
    padStart (d + 1) '0' (Nat.toDigits 10 n) = Nat.toDigits 10 (n / 10 ^ d) ++ fixedDigits d n := by
  induction d generalizing n with
  | zero =>
    have hpos : 0 < (Nat.toDigits 10 n).length := Nat.length_toDigits_pos
    rw [padStart, Nat.sub_eq_zero_of_le (by omega), pow_zero, Nat.div_one, fixedDigits, List.append_nil,
      List.replicate_zero, List.nil_append]
  | succ d ih =>
    have hquotient : n / 10 ^ (d + 1) = n / 10 / 10 ^ d := by rw [Nat.div_div_eq_div_mul, pow_succ']
    rw [hquotient, fixedDigits, ← List.append_assoc, ← ih]
    rcases Nat.lt_or_ge n 10 with hlt | hge
    · -- A single digit: the quotient is `0`, whose numeral is one of the zeros.
      rw [Nat.toDigits_of_lt_base hlt, Nat.div_eq_of_lt hlt, Nat.mod_eq_of_lt hlt, Nat.toDigits_zero]
      simp only [padStart, List.length_singleton, Nat.add_sub_cancel, List.append_cancel_right_eq]
      exact List.replicate_succ'
    · rw [Nat.toDigits_of_base_le (by decide) hge, padStart_concat]

/-- The first digits of a numeral of fixed width. -/
theorem take_fixedDigits (k m n : ℕ) : (fixedDigits (k + m) n).take k = fixedDigits k (n / 10 ^ m) := by
  induction m generalizing n with
  | zero => rw [pow_zero, Nat.div_one, Nat.add_zero, List.take_of_length_le (length_fixedDigits k n).le]
  | succ m ih =>
    rw [← Nat.add_assoc, fixedDigits, List.take_append_of_le_length (by rw [length_fixedDigits]; omega), ih,
      Nat.div_div_eq_div_mul, pow_succ']

theorem isDigit_of_mem_fixedDigits {d n : ℕ} {c : Char} (h : c ∈ fixedDigits d n) : c.isDigit = true := by
  induction d generalizing n with
  | zero => exact absurd h List.not_mem_nil
  | succ d ih =>
    rcases List.mem_append.1 h with h | h
    · exact ih h
    · rw [List.mem_singleton.1 h, Nat.isDigit_digitChar]
      exact decide_eq_true (Nat.mod_lt n (by decide))

theorem isDigit_of_mem_toDigits {n : ℕ} {c : Char} (h : c ∈ Nat.toDigits 10 n) : c.isDigit = true :=
  Nat.isDigit_of_mem_toDigits (by decide) (by decide) h

/-- What a numeral of fixed width stands for. -/
theorem ofDigitChars_fixedDigits (d n : ℕ) : Nat.ofDigitChars 10 (fixedDigits d n) 0 = n % 10 ^ d := by
  induction d generalizing n with
  | zero => rw [pow_zero, Nat.mod_one]; rfl
  | succ d ih =>
    rw [fixedDigits, Nat.ofDigitChars_append, ih, Nat.ofDigitChars_cons_digitChar_of_lt_ten (Nat.mod_lt n (by decide)),
      Nat.ofDigitChars_nil, pow_succ', Nat.mod_mul]
    ring

end Unicode
