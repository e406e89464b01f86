import Mathlib.Data.Finmap
import Mathlib.Algebra.BigOperators.Group.Finset.Basic
import Mathlib.Algebra.BigOperators.Ring.Finset
import Mathlib.Algebra.Order.BigOperators.Group.Finset
import Mathlib.Tactic.Abel

/-!
# Entries

The entries a contract stores under one kind of key form a finite map, Mathlib's
`Finmap`. `Finmap.sum` adds up a quantity over all of them; it is what relates an
accumulator kept by the code to the entries it accumulates.

* `sum_insert`, `sum_erase`: what a write does to a sum;
* `sum_nonneg`, `le_sum`: sums of nonnegative quantities;
* `sum_termAt_le`, `sum_groups_le`: what some of the entries add, or some disjoint groups of them, is at
  most the sum;
* `card_keysWith`: the number of entries with a property is a sum.
-/

namespace Soroban

/-- The entries stored under the keys `K`, with values in `V`. -/
abbrev Entries (K V : Type*) := Finmap fun _ : K => V

end Soroban

namespace Finmap

open Soroban

variable {K V : Type*} [DecidableEq K]

@[grind =]
theorem lookup_insert_eq_ite (m : Entries K V) (k k' : K) (v : V) :
    (m.insert k v).lookup k' = if k' = k then some v else m.lookup k' := by
  split
  · rename_i h; rw [h, lookup_insert]
  · rename_i h; exact lookup_insert_of_ne m h

@[grind =]
theorem lookup_erase_eq_ite (m : Entries K V) (k k' : K) :
    (m.erase k).lookup k' = if k' = k then none else m.lookup k' := by
  split
  · rename_i h; rw [h, lookup_erase]
  · rename_i h; exact lookup_erase_ne h

theorem mem_keys_iff (m : Entries K V) (k : K) : k ∈ m.keys ↔ (m.lookup k).isSome := by
  rw [mem_keys, lookup_isSome]

theorem keys_insert (m : Entries K V) (k : K) (v : V) : (m.insert k v).keys = {k} ∪ m.keys := by
  ext k'
  rw [Finset.mem_union, Finset.mem_singleton, mem_keys, mem_keys, mem_insert]

section Sum

variable {M : Type*} [AddCommGroup M]

/-- What the entry at `k`, if any, adds to the sum of `f`. -/
def termAt (m : Entries K V) (f : K → V → M) (k : K) : M := (m.lookup k).elim 0 (f k)

/-- The sum of `f` over all entries. -/
def sum (m : Entries K V) (f : K → V → M) : M := ∑ k ∈ m.keys, m.termAt f k

theorem termAt_of_lookup {m : Entries K V} {k : K} {v : V} (h : m.lookup k = some v)
    (f : K → V → M) : m.termAt f k = f k v := by
  rw [termAt, h, Option.elim_some]

theorem termAt_of_lookup_none {m : Entries K V} {k : K} (h : m.lookup k = none) (f : K → V → M) :
    m.termAt f k = 0 := by
  rw [termAt, h, Option.elim_none]

@[simp]
theorem sum_empty (f : K → V → M) : sum (∅ : Entries K V) f = 0 := by
  rw [sum, keys_empty, Finset.sum_empty]

/-- The sum may be taken over any set of keys that contains all entries. -/
theorem sum_eq_of_subset {m : Entries K V} {s : Finset K} (h : m.keys ⊆ s) (f : K → V → M) :
    m.sum f = ∑ k ∈ s, m.termAt f k := by
  refine Finset.sum_subset h fun k _ hk => termAt_of_lookup_none ?_ f
  rw [mem_keys_iff] at hk
  simpa using hk

/-- Writing an entry replaces what the entry at its key added to the sum. -/
theorem sum_insert (m : Entries K V) (k : K) (v : V) (f : K → V → M) :
    (m.insert k v).sum f = m.sum f - m.termAt f k + f k v := by
  have hk : k ∈ {k} ∪ m.keys := Finset.mem_union_left _ (Finset.mem_singleton_self k)
  have hrest : ∀ k' ∈ ({k} ∪ m.keys).erase k, (m.insert k v).termAt f k' = m.termAt f k' :=
    fun k' hk' => by rw [termAt, termAt, lookup_insert_of_ne m (Finset.ne_of_mem_erase hk')]
  -- Both sums are taken over the keys of the new map, and differ in the term at `k`.
  have hnew : (m.insert k v).sum f = f k v + ∑ k' ∈ ({k} ∪ m.keys).erase k, m.termAt f k' := by
    rw [sum, keys_insert, ← Finset.add_sum_erase _ _ hk, Finset.sum_congr rfl hrest,
      termAt_of_lookup (lookup_insert m)]
  have hold : m.sum f = m.termAt f k + ∑ k' ∈ ({k} ∪ m.keys).erase k, m.termAt f k' := by
    rw [sum_eq_of_subset (show m.keys ⊆ {k} ∪ m.keys from Finset.subset_union_right), Finset.add_sum_erase _ _ hk]
  rw [hnew, hold]
  abel

/-- Removing an entry takes off what it added to the sum. -/
theorem sum_erase (m : Entries K V) (k : K) (f : K → V → M) :
    (m.erase k).sum f = m.sum f - m.termAt f k := by
  have htermAt : ∀ k' ∈ m.keys.erase k, (m.erase k).termAt f k' = m.termAt f k' := fun k' hk' => by
    rw [termAt, termAt, lookup_erase_ne (Finset.ne_of_mem_erase hk')]
  have hsum : (m.erase k).sum f = ∑ k' ∈ m.keys.erase k, m.termAt f k' := by
    rw [sum, keys_erase, Finset.sum_congr rfl htermAt]
  by_cases hk : k ∈ m.keys
  · rw [hsum, sum, ← Finset.add_sum_erase _ _ hk, add_sub_cancel_left]
  · have h0 : m.termAt f k = 0 := termAt_of_lookup_none (by rw [mem_keys_iff] at hk; simpa using hk) f
    rw [hsum, Finset.erase_eq_of_notMem hk, h0, sub_zero, sum]

/-- Two maps that differ at one key have sums that differ by what they add there. -/
theorem sum_eq_of_eq_off {m m' : Entries K V} {k : K}
    (h : ∀ k', k' ≠ k → m'.lookup k' = m.lookup k') (f : K → V → M) :
    m'.sum f = m.sum f - m.termAt f k + m'.termAt f k := by
  -- The second map is the first after a write or a removal at `k`.
  cases hk : m'.lookup k with
  | none =>
    have hm' : m' = m.erase k := ext_lookup fun k' => by
      rw [lookup_erase_eq_ite]
      split
      · rename_i e; rw [e, hk]
      · rename_i e; exact h k' e
    rw [termAt_of_lookup_none hk, add_zero, hm', sum_erase]
  | some v =>
    have hm' : m' = m.insert k v := ext_lookup fun k' => by
      rw [lookup_insert_eq_ite]
      split
      · rename_i e; rw [e, hk]
      · rename_i e; exact h k' e
    rw [termAt_of_lookup hk, hm', sum_insert]

@[simp]
theorem sum_zero (m : Entries K V) : (m.sum fun _ _ => (0 : M)) = 0 :=
  Finset.sum_eq_zero fun k _ => by
    rw [termAt]
    cases m.lookup k <;> rfl

theorem sum_congr {m : Entries K V} {f g : K → V → M}
    (h : ∀ k v, m.lookup k = some v → f k v = g k v) : m.sum f = m.sum g := by
  refine Finset.sum_congr rfl fun k _ => ?_
  rw [termAt, termAt]
  cases hk : m.lookup k with
  | none => rfl
  | some v => exact h k v hk

variable [PartialOrder M]

theorem termAt_nonneg {m : Entries K V} {f : K → V → M}
    (h : ∀ k v, m.lookup k = some v → 0 ≤ f k v) (k : K) : 0 ≤ m.termAt f k := by
  rw [termAt]
  cases hk : m.lookup k with
  | none => exact le_rfl
  | some v => exact h k v hk

variable [IsOrderedAddMonoid M]

theorem sum_nonneg {m : Entries K V} {f : K → V → M}
    (h : ∀ k v, m.lookup k = some v → 0 ≤ f k v) : 0 ≤ m.sum f :=
  Finset.sum_nonneg fun k _ => termAt_nonneg h k

/-- One entry is at most the sum. -/
theorem le_sum {m : Entries K V} {f : K → V → M}
    (h : ∀ k v, m.lookup k = some v → 0 ≤ f k v) (k : K) : m.termAt f k ≤ m.sum f := by
  by_cases hk : k ∈ m.keys
  · exact Finset.single_le_sum (fun k' _ => termAt_nonneg h k') hk
  · rw [termAt_of_lookup_none (by rw [mem_keys_iff] at hk; simpa using hk)]
    exact sum_nonneg h

/-- Two different entries are together at most the sum. -/
theorem add_le_sum {m : Entries K V} {f : K → V → M}
    (h : ∀ k v, m.lookup k = some v → 0 ≤ f k v) {k k' : K} (hne : k ≠ k') :
    m.termAt f k + m.termAt f k' ≤ m.sum f := by
  have hpair : ({k, k'} : Finset K) ⊆ {k, k'} ∪ m.keys := Finset.subset_union_left
  rw [sum_eq_of_subset (show m.keys ⊆ {k, k'} ∪ m.keys from Finset.subset_union_right), ← Finset.sum_pair hne]
  exact Finset.sum_le_sum_of_subset_of_nonneg hpair fun x _ _ => termAt_nonneg h x

/-- What some entries add is at most the sum. -/
theorem sum_termAt_le {m : Entries K V} {f : K → V → M}
    (h : ∀ k v, m.lookup k = some v → 0 ≤ f k v) (s : Finset K) :
    ∑ k ∈ s, m.termAt f k ≤ m.sum f := by
  rw [sum_eq_of_subset (show m.keys ⊆ s ∪ m.keys from Finset.subset_union_right)]
  exact Finset.sum_le_sum_of_subset_of_nonneg Finset.subset_union_left fun k _ _ => termAt_nonneg h k

/-- What disjoint groups of entries add is at most the sum. -/
theorem sum_groups_le {ι : Type*} {m : Entries K V} {f : K → V → M}
    (h : ∀ k v, m.lookup k = some v → 0 ≤ f k v) {S : Finset ι} {groups : ι → Finset K}
    (hdisjoint : (S : Set ι).PairwiseDisjoint groups) :
    ∑ i ∈ S, ∑ k ∈ groups i, m.termAt f k ≤ m.sum f := by
  rw [← Finset.sum_biUnion hdisjoint]
  exact sum_termAt_le h _

end Sum

section Count

/-- The keys whose entries meet `P`. -/
def keysWith (m : Entries K V) (P : V → Prop) [DecidablePred P] : Finset K :=
  m.keys.filter fun k => (m.lookup k).any fun v => P v

variable (m : Entries K V) (P : V → Prop) [DecidablePred P]

theorem mem_keysWith {k : K} : k ∈ m.keysWith P ↔ ∃ v, m.lookup k = some v ∧ P v := by
  rw [keysWith, Finset.mem_filter, mem_keys_iff]
  cases m.lookup k <;> simp

/-- Counting entries is adding up ones. -/
theorem card_keysWith : ((m.keysWith P).card : ℤ) = m.sum fun _ v => if P v then 1 else 0 := by
  rw [keysWith, Finset.natCast_card_filter, sum]
  refine Finset.sum_congr rfl fun k _ => ?_
  rw [termAt]
  cases m.lookup k with
  | none => rfl
  | some v => simp

end Count

end Finmap
