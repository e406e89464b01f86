import Mathlib.Data.List.Basic
import Mathlib.Tactic.Common

/-!
# The lengths of a text

A text is a list of Unicode characters. It is as long as its encoding: `byteLength` in UTF-8 (`encode`), and
`unitLength` in the code units of UTF-16.

* `splitAtByte_eq_some`: a text can be split at the ends of its characters only;
* `unitLength_le_byteLength`: there are never more code units than bytes.
-/

namespace Unicode

/-- The number of bytes in UTF-8. -/
def byteLength : List Char → ℕ
  | [] => 0
  | c :: s => c.utf8Size + byteLength s

/-- The encoding in UTF-8. -/
def encode (s : List Char) : List UInt8 := s.flatMap String.utf8EncodeChar

/-- The number of code units in UTF-16. -/
def unitLength : List Char → ℕ
  | [] => 0
  | c :: s => (if c.toNat < 65536 then 1 else 2) + unitLength s

variable {s t a b a' b' : List Char} {n : ℕ}

@[simp]
theorem byteLength_nil : byteLength [] = 0 := rfl

@[simp]
theorem byteLength_cons (c : Char) (s : List Char) : byteLength (c :: s) = c.utf8Size + byteLength s := rfl

@[simp]
theorem byteLength_append (s t : List Char) : byteLength (s ++ t) = byteLength s + byteLength t := by
  induction s with
  | nil => exact (Nat.zero_add _).symm
  | cons c s ih => rw [List.cons_append, byteLength_cons, byteLength_cons, ih, Nat.add_assoc]

@[simp]
theorem unitLength_cons (c : Char) (s : List Char) :
    unitLength (c :: s) = (if c.toNat < 65536 then 1 else 2) + unitLength s := rfl

@[simp]
theorem unitLength_append (s t : List Char) : unitLength (s ++ t) = unitLength s + unitLength t := by
  induction s with
  | nil => exact (Nat.zero_add _).symm
  | cons c s ih => rw [List.cons_append, unitLength_cons, unitLength_cons, ih, Nat.add_assoc]

theorem encode_append (s t : List Char) : encode (s ++ t) = encode s ++ encode t := List.flatMap_append

@[simp]
theorem length_encode (s : List Char) : (encode s).length = byteLength s := by
  induction s with
  | nil => rfl
  | cons c s ih =>
    rw [encode, List.flatMap_cons, List.length_append, String.length_utf8EncodeChar, byteLength_cons, ← encode, ih]

theorem byteLength_eq_zero : byteLength s = 0 ↔ s = [] := by
  cases s with
  | nil => exact iff_of_true rfl rfl
  | cons c s =>
    have := c.utf8Size_pos
    refine iff_of_false ?_ (List.cons_ne_nil c s)
    rw [byteLength_cons]
    omega

theorem unitLength_le_byteLength (s : List Char) : unitLength s ≤ byteLength s := by
  induction s with
  | nil => exact Nat.le_refl 0
  | cons c s ih =>
    have hunits : (if c.toNat < 65536 then 1 else 2) ≤ c.utf8Size := by
      split
      · exact c.utf8Size_pos
      · -- Only characters of four bytes take two code units.
        rename_i h
        change ¬c.val.toNat < 65536 at h
        simp only [Char.utf8Size, UInt32.le_iff_toNat_le, UInt32.toNat_ofNatLT]
        rw [if_neg (by omega)]
        split
        · exact Nat.le_refl 2
        · split <;> decide
    rw [unitLength_cons, byteLength_cons]
    exact Nat.add_le_add hunits ih

/-! ## Slices -/

/-- The text before a byte and the text from it on, if a character begins there or the text ends. -/
def splitAtByte : ℕ → List Char → Option (List Char × List Char)
  | 0, s => some ([], s)
  | _ + 1, [] => none
  | n + 1, c :: s =>
    if c.utf8Size ≤ n + 1 then (splitAtByte (n + 1 - c.utf8Size) s).map fun p => (c :: p.1, p.2) else none

/-- A character begins at the byte, or the text ends there. -/
def IsBoundary (n : ℕ) (s : List Char) : Prop := ∃ a b, s = a ++ b ∧ byteLength a = n

theorem splitAtByte_append (a b : List Char) : splitAtByte (byteLength a) (a ++ b) = some (a, b) := by
  induction a with
  | nil => cases b <;> rfl
  | cons c a ih =>
    have hpos := c.utf8Size_pos
    obtain ⟨n, hn⟩ : ∃ n, byteLength (c :: a) = n + 1 := ⟨byteLength (c :: a) - 1, by rw [byteLength_cons]; omega⟩
    have hle : c.utf8Size ≤ n + 1 := by rw [← hn, byteLength_cons]; omega
    have hrest : n + 1 - c.utf8Size = byteLength a := by rw [← hn, byteLength_cons]; omega
    rw [hn, List.cons_append, splitAtByte, if_pos hle, hrest, ih, Option.map_some]

theorem splitAtByte_eq_some : splitAtByte n s = some (a, b) ↔ s = a ++ b ∧ byteLength a = n := by
  constructor
  · intro h
    induction s generalizing n a with
    | nil =>
      cases n with
      | zero =>
        obtain ⟨rfl, rfl⟩ := Prod.mk.inj (Option.some_inj.1 h)
        exact ⟨rfl, rfl⟩
      | succ n => cases h
    | cons c s ih =>
      cases n with
      | zero =>
        obtain ⟨rfl, rfl⟩ := Prod.mk.inj (Option.some_inj.1 h)
        exact ⟨rfl, rfl⟩
      | succ n =>
        rw [splitAtByte] at h
        split at h
        · rename_i hle
          obtain ⟨⟨a', b'⟩, hsplit, heq⟩ := Option.map_eq_some_iff.1 h
          obtain ⟨rfl, rfl⟩ := Prod.mk.inj heq
          obtain ⟨rfl, hlength⟩ := ih hsplit
          refine ⟨rfl, ?_⟩
          dsimp only at hlength ⊢
          rw [byteLength_cons]
          omega
        · cases h
  · rintro ⟨rfl, rfl⟩
    exact splitAtByte_append a b

/-- A text cannot be split in two ways at one byte. -/
theorem append_inj_of_byteLength (h : a ++ b = a' ++ b') (hlength : byteLength a = byteLength a') :
    a = a' ∧ b = b' := by
  have hsplit := splitAtByte_append a b
  rw [h, hlength, splitAtByte_append] at hsplit
  obtain ⟨rfl, rfl⟩ := Prod.mk.inj (Option.some_inj.1 hsplit)
  exact ⟨rfl, rfl⟩

/-- What comes between two places where a text is split. -/
theorem exists_between (h : a ++ b = a' ++ b') (hle : byteLength a ≤ byteLength a') :
    ∃ t, a' = a ++ t ∧ b = t ++ b' := by
  rcases List.append_eq_append_iff.1 h with ⟨t, ha, hb⟩ | ⟨t, rfl, rfl⟩
  · exact ⟨t, ha, hb⟩
  · -- The second place is not before the first one.
    rw [byteLength_append] at hle
    obtain rfl := byteLength_eq_zero.1 (show byteLength t = 0 by omega)
    exact ⟨[], by simp, rfl⟩

end Unicode
