import Mathlib.Data.Int.Order.Basic
import Mathlib.Data.List.FinRange
import Mathlib.Data.List.Sort
import Mathlib.Tactic.Linarith

/-!
# Machine integers

The values of a fixed-width integer type are the integers between two bounds,
carried as fields (`IntRange`), so that a value out of range cannot be built.
`I128`, `U64` and `U32` are the three the contracts use.

An operation is the one of `ℤ`, followed by `IntRange.fit`, which fails exactly
when its result does not fit the type (`fit_eq_some`, `fit_eq_none`). What a
failure means is up to the caller: `None` for the checked operations, a trap for
the operators of a build with overflow checks.
-/

namespace Soroban

/-- The values of a machine integer type: the integers between `lo` and `hi`. -/
@[ext]
structure IntRange (lo hi : ℤ) where
  /-- The value, as an integer. -/
  val : ℤ
  lo_le : lo ≤ val
  le_hi : val ≤ hi
  deriving DecidableEq

/-- The type `i128`. -/
abbrev I128 :=
  IntRange (-170141183460469231731687303715884105728) 170141183460469231731687303715884105727

/-- The type `u64`. -/
abbrev U64 := IntRange 0 18446744073709551615

/-- The type `u32`. -/
abbrev U32 := IntRange 0 4294967295

namespace IntRange

variable {lo hi : ℤ}

instance : CoeOut (IntRange lo hi) ℤ := ⟨val⟩

/-- The test that `z` is in range. -/
def contains (lo hi z : ℤ) : Bool := decide (lo ≤ z ∧ z ≤ hi)

/-- A literal of the type. The test is made where it is written. -/
abbrev lit (z : ℤ) (h : contains lo hi z = true := by exact Eq.refl true) : IntRange lo hi :=
  ⟨z, (of_decide_eq_true h).1, (of_decide_eq_true h).2⟩

@[simp]
theorem val_inj {a b : IntRange lo hi} : a.val = b.val ↔ a = b := IntRange.ext_iff.symm

/-- The integer `z` as a value of the type, if it fits. -/
def fit (z : ℤ) : Option (IntRange lo hi) :=
  if h : lo ≤ z ∧ z ≤ hi then some ⟨z, h.1, h.2⟩ else none

@[simp]
theorem fit_eq_some {z : ℤ} {a : IntRange lo hi} : fit z = some a ↔ z = a.val := by
  rw [fit]
  split
  · rw [Option.some.injEq, IntRange.ext_iff]
  · rename_i h
    simp only [reduceCtorEq, false_iff]
    rintro rfl
    exact h ⟨a.lo_le, a.le_hi⟩

@[simp]
theorem fit_eq_none {z : ℤ} : (fit z : Option (IntRange lo hi)) = none ↔ z < lo ∨ hi < z := by
  rw [fit]
  split
  · rename_i h
    simp only [reduceCtorEq, false_iff]
    omega
  · rename_i h
    simp only [true_iff]
    omega

/-- An integer within the bounds fits. -/
theorem exists_fit {z : ℤ} (hlo : lo ≤ z) (hhi : z ≤ hi) :
    ∃ a : IntRange lo hi, fit z = some a ∧ a.val = z :=
  ⟨⟨z, hlo, hhi⟩, fit_eq_some.2 rfl, rfl⟩

/-! ## Operations -/

/-- `a.checked_add(b)`. -/
def checkedAdd (a b : IntRange lo hi) : Option (IntRange lo hi) := fit (a.val + b.val)

/-- `a.checked_sub(b)`. -/
def checkedSub (a b : IntRange lo hi) : Option (IntRange lo hi) := fit (a.val - b.val)

/-- `a.checked_mul(b)`. -/
def checkedMul (a b : IntRange lo hi) : Option (IntRange lo hi) := fit (a.val * b.val)

/-- `a.checked_div(b)`: the quotient is truncated towards zero. -/
def checkedDiv (a b : IntRange lo hi) : Option (IntRange lo hi) :=
  if b.val = 0 then none else fit (a.val.tdiv b.val)

/-- `a.saturating_sub(b)`: the difference, moved to the nearest bound if it does not fit. -/
def saturatingSub (a b : IntRange lo hi) : IntRange lo hi where
  val := max lo (min hi (a.val - b.val))
  lo_le := le_max_left _ _
  le_hi := max_le (a.lo_le.trans a.le_hi) (min_le_left _ _)

/-- `a.saturating_add(b)`: the sum, moved to the nearest bound if it does not fit. -/
def saturatingAdd (a b : IntRange lo hi) : IntRange lo hi where
  val := max lo (min hi (a.val + b.val))
  lo_le := le_max_left _ _
  le_hi := max_le (a.lo_le.trans a.le_hi) (min_le_left _ _)

@[simp]
theorem checkedAdd_eq_some {a b c : IntRange lo hi} :
    a.checkedAdd b = some c ↔ a.val + b.val = c.val := fit_eq_some

@[simp]
theorem checkedSub_eq_some {a b c : IntRange lo hi} :
    a.checkedSub b = some c ↔ a.val - b.val = c.val := fit_eq_some

@[simp]
theorem checkedMul_eq_some {a b c : IntRange lo hi} :
    a.checkedMul b = some c ↔ a.val * b.val = c.val := fit_eq_some

@[simp]
theorem checkedDiv_eq_some {a b c : IntRange lo hi} :
    a.checkedDiv b = some c ↔ b.val ≠ 0 ∧ a.val.tdiv b.val = c.val := by
  rw [checkedDiv]
  split
  · rename_i h
    simp [h]
  · rename_i h
    rw [fit_eq_some, and_iff_right h]

/-- The quotient of what is not negative fits. -/
theorem exists_checkedDiv {a b : IntRange lo hi} (hlo : lo ≤ 0) (ha : 0 ≤ a.val) (hb : 0 < b.val) :
    ∃ c, a.checkedDiv b = some c ∧ c.val = a.val / b.val := by
  have hle : a.val / b.val ≤ hi := (Int.ediv_le_self _ ha).trans a.le_hi
  obtain ⟨c, hfit, hc⟩ := exists_fit (hlo.trans (Int.ediv_nonneg ha hb.le)) hle
  refine ⟨c, ?_, hc⟩
  rw [checkedDiv, if_neg hb.ne', Int.tdiv_eq_ediv_of_nonneg ha, hfit]

/-- The conversion `as` to a type with wider bounds. -/
def widen {lo' hi' : ℤ} (a : IntRange lo hi) (hlo : lo' ≤ lo) (hhi : hi ≤ hi') : IntRange lo' hi' :=
  ⟨a.val, hlo.trans a.lo_le, a.le_hi.trans hhi⟩

@[simp]
theorem val_widen {lo' hi' : ℤ} (a : IntRange lo hi) (hlo : lo' ≤ lo) (hhi : hi ≤ hi') :
    (a.widen hlo hhi : IntRange lo' hi').val = a.val := rfl

/-- The values of `a..b`, in ascending order. -/
def range (a b : IntRange lo hi) : List (IntRange lo hi) :=
  (List.finRange (b.val - a.val).toNat).map fun k : Fin _ =>
    ⟨a.val + k.val, by have := a.lo_le; omega, by have := k.isLt; have := b.le_hi; omega⟩

theorem range_of_le {a b : IntRange lo hi} (h : b.val ≤ a.val) : a.range b = [] := by
  rw [range, List.map_eq_nil_iff, List.finRange_eq_nil_iff]
  omega

/-- A range that is not empty begins with its lower end. -/
theorem range_eq_cons {a b c : IntRange lo hi} (h : a.val < b.val) (hc : a.val + 1 = c.val) :
    a.range b = a :: c.range b := by
  refine List.ext_getElem ?_ fun n h₁ h₂ => ?_
  · simp only [range, List.length_map, List.length_finRange, List.length_cons]
    omega
  · rw [← val_inj]
    cases n with
    | zero => simp [range]
    | succ n =>
      simp only [range, List.getElem_map, List.getElem_finRange, List.getElem_cons_succ, Fin.val_cast]
      omega

theorem mem_range {a b c : IntRange lo hi} : c ∈ a.range b ↔ a.val ≤ c.val ∧ c.val < b.val := by
  rw [range, List.mem_map]
  constructor
  · rintro ⟨k, _, rfl⟩
    have := k.isLt
    dsimp only
    omega
  · rintro ⟨hle, hlt⟩
    refine ⟨⟨(c.val - a.val).toNat, by omega⟩, List.mem_finRange _, ?_⟩
    rw [← val_inj]
    dsimp only
    omega

theorem pairwise_range (a b : IntRange lo hi) : (a.range b).Pairwise fun c d => c.val < d.val := by
  rw [range, List.pairwise_map]
  refine (List.pairwise_lt_finRange _).imp fun h => ?_
  dsimp only
  have := Fin.lt_def.1 h
  omega

/-- A range is cut in two at each of its values. -/
theorem range_append {a b c : IntRange lo hi} (hab : a.val ≤ b.val) (hbc : b.val ≤ c.val) :
    a.range b ++ b.range c = a.range c := by
  have : Std.Irrefl fun d e : IntRange lo hi => d.val < e.val := ⟨fun d => lt_irrefl _⟩
  have : Std.Asymm fun d e : IntRange lo hi => d.val < e.val := ⟨fun d e h => h.not_gt⟩
  have hcross : ∀ d ∈ a.range b, ∀ e ∈ b.range c, d.val < e.val := fun d hd e he =>
    (mem_range.1 hd).2.trans_le (mem_range.1 he).1
  refine (List.pairwise_append.2 ⟨pairwise_range a b, pairwise_range b c, hcross⟩).eq_of_mem_iff
    (pairwise_range a c) fun d => ?_
  rw [List.mem_append, mem_range, mem_range, mem_range]
  omega

end IntRange

/-- `n as u64`. -/
def U32.toU64 (n : U32) : U64 := n.widen (by decide) (by decide)

/-- `n as i128`. -/
def U32.toI128 (n : U32) : I128 := n.widen (by decide) (by decide)

end Soroban
