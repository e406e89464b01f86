import Mathlib.Data.List.Infix
import Mathlib.Tactic.Common

/-!
# Lists with a part left out

A list is shown with a mark in place of a part of it.

* `hides_iff`: something is hidden exactly if the part is neither empty nor the mark itself;
* `infix_gap_iff`: what is shown contains the whole list exactly if the part is the mark itself, or if the part is
  empty, and all before it or all behind it are marks.
-/

namespace Redaction

variable {α : Type*} {mark x : α} {l s start hidden stop : List α}

/-- Something of the list is hidden: what is shown has the mark in its place, and is not the list itself. -/
def Hides (mark : α) (out s : List α) : Prop :=
  out ≠ s ∧ ∃ start hidden stop, s = start ++ hidden ++ stop ∧ hidden ≠ [] ∧ out = start ++ mark :: stop

/-- What is shown is the list itself exactly if the part is the mark. -/
theorem gap_eq_iff : start ++ mark :: stop = start ++ hidden ++ stop ↔ hidden = [mark] := by
  rw [List.append_assoc, List.append_cancel_left_eq, ← List.singleton_append, List.append_cancel_right_eq, eq_comm]

theorem hides_iff (hs : s = start ++ hidden ++ stop) :
    Hides mark (start ++ mark :: stop) s ↔ hidden ≠ [] ∧ hidden ≠ [mark] := by
  rw [Hides, hs, ne_eq, gap_eq_iff]
  constructor
  · rintro ⟨hmark, start', hidden', stop', hs', hne, hout⟩
    refine ⟨?_, hmark⟩
    -- Wherever the mark stands, what is left out is as long.
    have hlength := congrArg List.length hs'
    have hlengthOut := congrArg List.length hout
    have hpos := List.length_pos_iff.2 hne
    simp only [List.length_append, List.length_cons] at hlength hlengthOut
    exact List.length_pos_iff.1 (by omega)
  · rintro ⟨hne, hmark⟩
    exact ⟨hmark, start, hidden, stop, rfl, hne, rfl⟩

theorem eq_of_cons_eq_concat (h : mark :: l = l ++ [x]) : ∀ y ∈ l, y = mark := by
  induction l with
  | nil => exact fun y hy => absurd hy List.not_mem_nil
  | cons z l ih =>
    obtain ⟨rfl, htail⟩ := List.cons_eq_cons.1 h
    intro y hy
    rcases List.mem_cons.1 hy with rfl | hy
    · rfl
    · exact ih htail y hy

theorem cons_eq_concat_of_eq (h : ∀ y ∈ l, y = mark) : mark :: l = l ++ [mark] := by
  rw [List.eq_replicate_of_mem h, ← List.replicate_succ, List.replicate_succ']

/-- With a mark put into it, a list is still contained if all before the mark or all behind it are marks. -/
theorem infix_mark_iff :
    start ++ stop <:+: start ++ mark :: stop ↔ (∀ y ∈ start, y = mark) ∨ ∀ y ∈ stop, y = mark := by
  constructor
  · rintro ⟨l, r, h⟩
    have hlength := congrArg List.length h
    simp only [List.length_append, List.length_cons] at hlength
    rcases Nat.eq_zero_or_pos l.length with hl | hl
    · -- What is shown begins with the list: all behind the mark are the same.
      obtain rfl := List.length_eq_zero_iff.1 hl
      obtain ⟨x, rfl⟩ := List.length_eq_one_iff.1 (show r.length = 1 by omega)
      rw [List.nil_append, List.append_assoc] at h
      exact .inr (eq_of_cons_eq_concat (List.append_cancel_left h).symm)
    · -- It ends with the list: all before the mark are.
      obtain ⟨x, rfl⟩ := List.length_eq_one_iff.1 (show l.length = 1 by omega)
      obtain rfl := List.length_eq_zero_iff.1 (show r.length = 0 by omega)
      rw [List.append_nil, ← List.append_assoc, List.append_cons] at h
      have hstart := congrArg List.reverse (List.append_cancel_right h)
      simp only [List.singleton_append, List.reverse_cons, List.reverse_append, List.reverse_nil, List.nil_append]
        at hstart
      exact .inl fun y hy => eq_of_cons_eq_concat hstart.symm y (List.mem_reverse.2 hy)
  · rintro (hstart | hstop)
    · refine ⟨[mark], [], ?_⟩
      rw [List.append_nil, List.singleton_append, ← List.cons_append, cons_eq_concat_of_eq hstart, List.append_assoc,
        List.singleton_append]
    · refine ⟨[], [mark], ?_⟩
      rw [List.nil_append, List.append_assoc, ← cons_eq_concat_of_eq hstop]

theorem infix_gap_iff :
    start ++ hidden ++ stop <:+: start ++ mark :: stop ↔
      hidden = [mark] ∨ hidden = [] ∧ ((∀ y ∈ start, y = mark) ∨ ∀ y ∈ stop, y = mark) := by
  rcases eq_or_ne hidden [] with rfl | hne
  · rw [List.append_nil, infix_mark_iff, and_iff_right rfl, or_iff_right (List.cons_ne_nil mark []).symm]
  · rw [or_iff_left fun h => hne h.1]
    constructor
    · intro h
      -- The list is not shorter than what is shown, so that it is the same.
      have hpos := List.length_pos_iff.2 hne
      have hlength : (start ++ hidden ++ stop).length = (start ++ mark :: stop).length := by
        refine le_antisymm h.length_le ?_
        simp only [List.length_append, List.length_cons]
        omega
      exact gap_eq_iff.1 (h.eq_of_length hlength).symm
    · intro hmark
      rw [gap_eq_iff.2 hmark]

end Redaction
