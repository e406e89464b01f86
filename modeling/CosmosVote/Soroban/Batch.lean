import Mathlib.Data.List.Nodup
import CosmosVote.Soroban.Run

/-!
# Batches

A script makes one call after the other, and stops at the first one that fails (`batch`).

* `batch_eq_run`: what it leaves is a run, of the calls up to that one;
* `Once`: calls that each use up something of their own, so that whether one succeeds does not depend on
  the others;
* `Once.batch_iff`: a batch of such calls gets to its end exactly if all of them could be made at first, and
  none comes twice; the calls that it makes are the longest such part of it (`Once.batch_prefix`).
-/

namespace Soroban

variable {σ κ ι : Type*} (step : σ → κ → σ) (ok : σ → κ → Prop)

section Batch

variable [∀ s c, Decidable (ok s c)]

/-- Make the calls `cs`, up to the first one that fails. The flag says whether there is none. -/
def batch (s : σ) : List κ → σ × Bool
  | [] => (s, true)
  | c :: cs => if ok s c then batch (step s c) cs else (s, false)

/-- A batch makes the calls up to the first one that fails. -/
theorem batch_eq_run (s : σ) (cs : List κ) :
    ∃ xs ys, cs = xs ++ ys ∧ Along step ok s xs ∧ batch step ok s cs = (run step s xs, ys.isEmpty) ∧
      ∀ d ∈ ys.head?, ¬ok (run step s xs) d := by
  induction cs generalizing s with
  | nil => exact ⟨[], [], rfl, along_nil, rfl, fun d hd => absurd hd (Option.not_mem_none d)⟩
  | cons c cs ih =>
    by_cases hc : ok s c
    · obtain ⟨xs, ys, rfl, halong, hbatch, hstop⟩ := ih (step s c)
      exact ⟨c :: xs, ys, rfl, .cons hc halong, by rw [batch, if_pos hc, hbatch, run_cons], hstop⟩
    · refine ⟨[], c :: cs, rfl, along_nil, by rw [batch, if_neg hc]; rfl, fun d hd => ?_⟩
      rwa [← Option.some_inj.1 hd]

end Batch

/-- A call that can be made uses up what it needs of `key c`, and leaves the rest to the others. -/
structure Once (key : κ → ι) (I : σ → Prop) : Prop where
  keep : ∀ s c, I s → I (step s c)
  used : ∀ s c d, I s → ok s c → key d = key c → ¬ok (step s c) d
  other : ∀ s c d, I s → ok s c → key d ≠ key c → (ok (step s c) d ↔ ok s d)

variable {step ok}

section Once

variable {key : κ → ι} {I : σ → Prop} {s : σ} {c : κ} {cs : List κ}

/-- After calls that can be made, another one can be made exactly if it could be at first, and none of them has
    used it up. -/
theorem Once.ok_run_iff (h : Once step ok key I) (hs : I s) (halong : Along step ok s cs) (d : κ) :
    ok (run step s cs) d ↔ ok s d ∧ key d ∉ cs.map key := by
  induction cs generalizing s with
  | nil => exact (and_iff_left List.not_mem_nil).symm
  | cons c cs ih =>
    rw [run_cons, ih (h.keep s c hs) halong.tail, List.map_cons, List.mem_cons, not_or]
    by_cases hkey : key d = key c
    · exact iff_of_false (fun hd => h.used s c d hs halong.head hkey hd.1) fun hd => hd.2.1 hkey
    · rw [h.other s c d hs halong.head hkey]
      exact and_congr_right fun _ => (and_iff_right hkey).symm

/-- The calls can be made one after the other exactly if each of them can be made at first, and they are for
    different keys. -/
theorem Once.along_iff (h : Once step ok key I) (hs : I s) :
    Along step ok s cs ↔ (cs.map key).Nodup ∧ ∀ c ∈ cs, ok s c := by
  induction cs using List.reverseRecOn with
  | nil => exact iff_of_true along_nil ⟨List.nodup_nil, List.forall_mem_nil _⟩
  | append_singleton cs d ih =>
    rw [List.map_append, List.map_singleton, List.nodup_append_comm, List.singleton_append, List.nodup_cons]
    constructor
    · intro halong
      obtain ⟨hnodup, hall⟩ := ih.1 halong.left
      obtain ⟨hd, hnew⟩ := (h.ok_run_iff hs halong.left d).1 halong.right.head
      refine ⟨⟨hnew, hnodup⟩, fun c hc => ?_⟩
      rcases List.mem_append.1 hc with hc | hc
      · exact hall c hc
      · rwa [List.mem_singleton.1 hc]
    · rintro ⟨⟨hnew, hnodup⟩, hall⟩
      have halong := ih.2 ⟨hnodup, fun c hc => hall c (List.mem_append_left _ hc)⟩
      refine halong.append (.cons ((h.ok_run_iff hs halong d).2 ⟨hall d ?_, hnew⟩) along_nil)
      exact List.mem_append_right _ (List.mem_singleton_self d)

variable [∀ s c, Decidable (ok s c)]

/-- A batch makes the longest part of its calls, from the first on, that can all be made at first and are for
    different keys. -/
theorem Once.batch_prefix (h : Once step ok key I) (hs : I s) (cs : List κ) :
    ∃ xs ys, cs = xs ++ ys ∧ batch step ok s cs = (run step s xs, ys.isEmpty) ∧ (xs.map key).Nodup ∧
      (∀ c ∈ xs, ok s c) ∧ ∀ d ∈ ys.head?, ok s d → key d ∈ xs.map key := by
  obtain ⟨xs, ys, hcs, halong, hbatch, hstop⟩ := batch_eq_run step ok s cs
  obtain ⟨hnodup, hall⟩ := (h.along_iff hs).1 halong
  refine ⟨xs, ys, hcs, hbatch, hnodup, hall, fun d hd hok => ?_⟩
  by_contra hnew
  exact hstop d hd ((h.ok_run_iff hs halong d).2 ⟨hok, hnew⟩)

/-- A batch gets to its end exactly if all its calls could be made at first, and are for different keys. -/
theorem Once.batch_iff (h : Once step ok key I) (hs : I s) (cs : List κ) :
    (batch step ok s cs).2 = true ↔ (cs.map key).Nodup ∧ ∀ c ∈ cs, ok s c := by
  obtain ⟨xs, ys, rfl, halong, hbatch, hstop⟩ := batch_eq_run step ok s cs
  rw [hbatch, List.isEmpty_iff, ← h.along_iff hs]
  constructor
  · rintro rfl
    rwa [List.append_nil]
  · intro hall
    cases ys with
    | nil => rfl
    | cons d ys => exact absurd hall.right.head (hstop d rfl)

end Once

end Soroban
