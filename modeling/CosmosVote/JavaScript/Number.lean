import Mathlib.Algebra.Order.Floor.Ring
import Mathlib.Data.List.DropRight
import Mathlib.Data.Rat.Floor
import Mathlib.Tactic.Linarith

/-!
# Numbers of JavaScript

The numbers of JavaScript (`Number`), taken to be exact: a finite one is a rational number, so that nothing is
rounded and there is a single zero. `Number.ofString` reads the texts that `Number(s)` reads; `trim` is the one
of strings.

* `positive_iff`, `within_iff`, and the same for integers: what is neither `NaN` nor outside of the bounds;
* `round_mem`: rounding to an integer does not leave an interval between integers.
-/

namespace JavaScript

/-! ## White space -/

/-- The white space and the line terminators of the language. -/
def isWhiteSpace (c : Char) : Bool :=
  c.toNat ∈ [9, 10, 11, 12, 13, 32, 160, 5760, 8232, 8233, 8239, 8287, 12288, 65279] ||
    8192 ≤ c.toNat && c.toNat ≤ 8202

/-- `s.trim()` -/
def trim (s : List Char) : List Char := (s.dropWhile isWhiteSpace).rdropWhile isWhiteSpace

@[simp]
theorem trim_nil : trim [] = [] := rfl

theorem mem_of_mem_trim {s : List Char} {c : Char} (h : c ∈ trim s) : c ∈ s :=
  (List.dropWhile_suffix _).mem ((List.rdropWhile_prefix _ _).mem h)

/-- What has been trimmed has no white space at its ends. -/
theorem trim_trim (s : List Char) : trim (trim s) = trim s := by
  have hstart : (trim s).dropWhile isWhiteSpace = trim s := by
    obtain ⟨rest, hrest⟩ := List.rdropWhile_prefix isWhiteSpace (s.dropWhile isWhiteSpace)
    change trim s ++ rest = _ at hrest
    cases htrim : trim s with
    | nil => rfl
    | cons c t =>
      -- Its first character is the one that the white space before it ends at.
      have hhead := List.head?_dropWhile_not isWhiteSpace s
      rw [← hrest, htrim, List.cons_append, List.head?_cons] at hhead
      exact List.dropWhile_cons_of_neg (ne_true_of_eq_false hhead)
  rw [trim, hstart, trim, List.rdropWhile_idempotent]

/-! ## Numbers -/

inductive Number
  | nan
  | infinity (negative : Bool)
  | finite (value : ℚ)
  deriving DecidableEq

namespace Number

/-- `isNaN(n)` -/
def isNaN (n : Number) : Bool := n = nan

/-- `Number.isInteger(n)` -/
def isInteger : Number → Bool
  | finite q => q.den = 1
  | _ => false

/-- `m < n` -/
def lt : Number → Number → Bool
  | nan, _ | _, nan => false
  | infinity s, infinity t => s && !t
  | infinity s, finite _ => s
  | finite _, infinity t => !t
  | finite p, finite q => p < q

/-- `m <= n` -/
def le (m n : Number) : Bool := !m.isNaN && !n.isNaN && !n.lt m

def neg : Number → Number
  | nan => nan
  | infinity s => infinity !s
  | finite q => finite (-q)

/-- `Math.round(n)`: the nearest integer, and of two the greater one. -/
def round : Number → Number
  | finite q => finite ⌊q + 1 / 2⌋
  | n => n

/-- `BigInt(n)`, which throws if `n` is not an integer. -/
def toBigInt : Number → Option ℤ
  | finite q => if q.den = 1 then some q.num else none
  | _ => none

/-! ## Texts -/

/-- The digit in a base up to sixteen. -/
def digitValue (c : Char) : Option ℕ :=
  if '0' ≤ c ∧ c ≤ '9' then some (c.toNat - 48)
  else if 'a' ≤ c ∧ c ≤ 'f' then some (c.toNat - 87)
  else if 'A' ≤ c ∧ c ≤ 'F' then some (c.toNat - 55)
  else none

/-- The number that at least one digit of the base stands for. -/
def readDigits (base : ℕ) (s : List Char) : Option ℕ :=
  if s = [] then none
  else s.foldlM (fun n c => ((digitValue c).filter (· < base)).map (base * n + ·)) 0

/-- Digits with a sign or without one. -/
def readInteger : List Char → Option ℤ
  | '+' :: s => (readDigits 10 s).map Int.ofNat
  | '-' :: s => (readDigits 10 s).map fun n => -Int.ofNat n
  | s => (readDigits 10 s).map Int.ofNat

/-- Digits with a point before, between or behind them or without one, and then an exponent or none. -/
def readDecimal (s : List Char) : Option ℚ :=
  let mantissa := s.takeWhile fun c => c != 'e' && c != 'E'
  let whole := mantissa.takeWhile (· != '.')
  let fraction := (mantissa.dropWhile (· != '.')).drop 1
  let exponent :=
    match s.dropWhile fun c => c != 'e' && c != 'E' with
    | [] => some 0
    | _ :: s => readInteger s
  (readDigits 10 (whole ++ fraction)).bind fun n => exponent.map fun e : ℤ =>
    (n : ℚ) * 10 ^ (e - fraction.length)

/-- A decimal literal without a sign. -/
def readUnsigned (s : List Char) : Option Number :=
  if s = "Infinity".toList then some (infinity false) else (readDecimal s).map finite

/-- The base of a literal, if it begins by naming one. -/
def base (s : List Char) : Option ℕ :=
  if s.take 2 = ['0', 'x'] ∨ s.take 2 = ['0', 'X'] then some 16
  else if s.take 2 = ['0', 'o'] ∨ s.take 2 = ['0', 'O'] then some 8
  else if s.take 2 = ['0', 'b'] ∨ s.take 2 = ['0', 'B'] then some 2
  else none

/-- A literal. Only a decimal one has a sign. -/
def readLiteral (s : List Char) : Option Number :=
  match s.head? with
  | some '+' => readUnsigned s.tail
  | some '-' => (readUnsigned s.tail).map neg
  | _ =>
    match base s with
    | some b => (readDigits b (s.drop 2)).map fun n => finite n
    | none => readUnsigned s

/-- `Number(s)` -/
def ofString (s : List Char) : Number :=
  if trim s = [] then finite 0 else (readLiteral (trim s)).getD nan

@[simp]
theorem ofString_nil : ofString [] = finite 0 := rfl

example : ofString " -12.5e1\n".toList = finite (-125) := by decide +kernel

example : ofString "0x1F".toList = finite 31 ∧ ofString "1,000".toList = nan := by decide +kernel

/-! ## Bounds -/

variable {n : Number} {p q : ℚ} {a b : ℤ}

@[simp]
theorem isNaN_finite : (finite q).isNaN = false := rfl

@[simp]
theorem isInteger_intCast : (finite a).isInteger = true := rfl

@[simp]
theorem finite_lt : (finite p).lt (finite q) = decide (p < q) := rfl

@[simp]
theorem finite_le : (finite p).le (finite q) = decide (p ≤ q) := by
  rw [le, isNaN_finite, isNaN_finite, finite_lt, ← decide_not]
  simp only [not_lt, Bool.not_false, Bool.true_and]

theorem isInteger_iff : n.isInteger = true ↔ ∃ z : ℤ, n = finite z := by
  constructor
  · intro h
    cases n with
    | finite q => exact ⟨q.num, by rw [Rat.coe_int_num_of_den_eq_one (of_decide_eq_true h)]⟩
    | _ => cases h
  · rintro ⟨z, rfl⟩
    exact isInteger_intCast

theorem positive_iff :
    ¬(n.isNaN = true ∨ n.le (finite 0) = true) ↔ n = infinity false ∨ ∃ q, n = finite q ∧ 0 < q := by
  cases n with
  | nan => simp [isNaN]
  | infinity s => cases s <;> simp [isNaN, le, lt]
  | finite q => simp

theorem within_iff :
    ¬(n.isNaN = true ∨ n.lt (finite p) = true ∨ (finite q).lt n = true) ↔
      ∃ r, n = finite r ∧ p ≤ r ∧ r ≤ q := by
  cases n with
  | nan => simp [isNaN]
  | infinity s => cases s <;> simp [isNaN, lt]
  | finite r => simp

theorem positive_integer_iff :
    ¬(n.isNaN = true ∨ ¬n.isInteger = true ∨ n.le (finite 0) = true) ↔ ∃ z : ℤ, n = finite z ∧ 0 < z := by
  constructor
  · intro h
    obtain ⟨z, rfl⟩ := isInteger_iff.1 (by_contra fun hn => h (.inr (.inl hn)))
    exact ⟨z, rfl, by simpa using h⟩
  · rintro ⟨z, rfl, hz⟩
    simpa using hz

theorem within_integer_iff :
    ¬(n.isNaN = true ∨ ¬n.isInteger = true ∨ n.lt (finite a) = true ∨ (finite b).lt n = true) ↔
      ∃ z : ℤ, n = finite z ∧ a ≤ z ∧ z ≤ b := by
  constructor
  · intro h
    obtain ⟨z, rfl⟩ := isInteger_iff.1 (by_contra fun hn => h (.inr (.inl hn)))
    exact ⟨z, rfl, by simpa using h⟩
  · rintro ⟨z, rfl, hz⟩
    simpa using hz

@[simp]
theorem toBigInt_round_finite : (finite q).round.toBigInt = some ⌊q + 1 / 2⌋ := rfl

theorem round_pos_iff : 0 < ⌊q + 1 / 2⌋ ↔ 1 / 2 ≤ q := by
  rw [Int.floor_pos]
  constructor <;> intro h <;> linarith

theorem round_mem (ha : (a : ℚ) ≤ q) (hb : q ≤ b) : a ≤ ⌊q + 1 / 2⌋ ∧ ⌊q + 1 / 2⌋ ≤ b := by
  refine ⟨Int.le_floor.2 (by linarith), Int.lt_add_one_iff.1 (Int.floor_lt.2 ?_)⟩
  push_cast
  linarith

end Number

end JavaScript
