import Mathlib.Data.List.MinMax
import Mathlib.Order.Bounds.Basic

/-!
# The first maximum

A scan that keeps an element with its value, and replaces it when one with a greater value comes (`keep`).

* `foldl_keep`: the scan ends with the first maximum (`List.argmax`) of what it has seen;
* `isLeast_leading`: for the numbers below a bound, this is the least of those with a maximal value (`leading`).
-/

namespace Selection

variable {α β κ : Type*} [LinearOrder κ]

/-- One step of the scan: of two elements with the same value, the one that is there stays. -/
def keep (value : α → β) (key : β → κ) (best : α × β) (a : α) : α × β :=
  if key best.2 < key (value a) then (a, value a) else best

/-- The scan ends with the first maximum, and its value. -/
theorem foldl_keep (value : α → β) (key : β → κ) (a : α) (l : List α) :
    ∃ m ∈ List.argmax (fun b => key (value b)) (a :: l), l.foldl (keep value key) (a, value a) = (m, value m) := by
  induction l using List.reverseRecOn with
  | nil => exact ⟨a, rfl, rfl⟩
  | append_singleton l b ih =>
    obtain ⟨m, hm, hscan⟩ := ih
    rw [Option.mem_def] at hm
    rw [← List.cons_append, List.argmax_concat, hm, List.foldl_append, hscan, List.foldl_cons, List.foldl_nil, keep]
    dsimp only
    split
    · exact ⟨b, rfl, rfl⟩
    · exact ⟨m, rfl, rfl⟩

/-! ## Numbers -/

variable {f : ℕ → κ} {n m : ℕ}

/-- The numbers below `n` with a maximal value. -/
def leading (f : ℕ → κ) (n : ℕ) : Set ℕ := {i | i < n ∧ ∀ j < n, f j ≤ f i}

theorem idxOf_range (h : m < n) : (List.range n).idxOf m = m := by
  have hidx := List.nodup_range.idxOf_getElem m (by rwa [List.length_range])
  rwa [List.getElem_range] at hidx

theorem isLeast_leading (h : m ∈ List.argmax f (List.range n)) : IsLeast (leading f n) m := by
  rw [List.mem_argmax_iff] at h
  obtain ⟨hmem, hmax, hfirst⟩ := h
  rw [List.mem_range] at hmem
  refine ⟨⟨hmem, fun j hj => hmax j (List.mem_range.2 hj)⟩, fun i hi => ?_⟩
  have hle := hfirst i (List.mem_range.2 hi.1) (hi.2 m hmem)
  rwa [idxOf_range hmem, idxOf_range hi.1] at hle

end Selection
