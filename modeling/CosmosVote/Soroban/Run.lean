import Mathlib.Algebra.Group.Basic
import Mathlib.Data.List.Induction
import Mathlib.Order.Basic
import Mathlib.Tactic.Common

/-!
# Runs

A system is a function `step`, from a state and an input to the next state; its
nondeterminism is in the inputs. A run is the list of its inputs (`run`), so that
the states along it are those of its prefixes, and a run is cut in two by cutting
the list (`run_append`).

* `run_invariant`: what holds at first and is kept by every step holds along every
  run; `run_invariant_of` is the same for the runs whose steps all meet a condition,
  which may depend on the state the step starts from.
* `states_iff_along`: a property that a step keeps exactly if it meets a condition holds along the runs whose
  steps all meet it, and along no others.
* `run_eq_iff`: a quantity that goes up with some of the steps, and never down, stays the same along the
  runs without such a step only.
* `run_total`: a quantity that every step lowers by what the step adds to a total ends lower by the total.
* `along_not_or_exists_last`: the last step of a run that meets a condition, if there is one.
* `exists_first_step`, `exists_last_step`: a property that holds at the end of a run,
  but not at its start, is established by one of its steps, and by a last one.
* `run_simulates`: a system whose steps are runs of another one follows it.
-/

namespace Soroban

variable {σ κ : Type*} (step : σ → κ → σ)

/-- The state after the inputs `cs`. -/
def run (s : σ) (cs : List κ) : σ := cs.foldl step s

@[simp]
theorem run_nil (s : σ) : run step s [] = s := rfl

@[simp]
theorem run_cons (s : σ) (c : κ) (cs : List κ) : run step s (c :: cs) = run step (step s c) cs := rfl

theorem run_append (s : σ) (xs ys : List κ) :
    run step s (xs ++ ys) = run step (run step s xs) ys := List.foldl_append

theorem run_concat (s : σ) (xs : List κ) (c : κ) :
    run step s (xs ++ [c]) = step (run step s xs) c := by
  rw [run_append, run_cons, run_nil]

/-- Every step `c` of the run `cs` from `s` meets the condition `P`, on the state it starts
    from. -/
def Along (P : σ → κ → Prop) (s : σ) (cs : List κ) : Prop :=
  ∀ xs c ys, cs = xs ++ c :: ys → P (run step s xs) c

variable {step}

theorem Along.head {P : σ → κ → Prop} {s : σ} {c : κ} {cs : List κ}
    (h : Along step P s (c :: cs)) : P s c := h [] c cs rfl

theorem Along.tail {P : σ → κ → Prop} {s : σ} {c : κ} {cs : List κ}
    (h : Along step P s (c :: cs)) : Along step P (step s c) cs :=
  fun xs d ys e => h (c :: xs) d ys (by rw [e, List.cons_append])

theorem along_nil {P : σ → κ → Prop} {s : σ} : Along step P s [] :=
  fun _ _ _ e => absurd e.symm (List.append_ne_nil_of_right_ne_nil _ (List.cons_ne_nil _ _))

theorem Along.cons {P : σ → κ → Prop} {s : σ} {c : κ} {cs : List κ} (hc : P s c)
    (h : Along step P (step s c) cs) : Along step P s (c :: cs) := fun xs d ys e => by
  cases xs with
  | nil =>
    obtain ⟨rfl, _⟩ := List.cons_eq_cons.1 e
    exact hc
  | cons x xs =>
    obtain ⟨rfl, htail⟩ := List.cons_eq_cons.1 e
    exact h xs d ys htail

theorem Along.left {P : σ → κ → Prop} {s : σ} {cs ds : List κ} (h : Along step P s (cs ++ ds)) :
    Along step P s cs :=
  fun xs c ys e => h xs c (ys ++ ds) (by rw [e, List.append_assoc, List.cons_append])

theorem Along.right {P : σ → κ → Prop} {s : σ} {cs ds : List κ} (h : Along step P s (cs ++ ds)) :
    Along step P (run step s cs) ds := fun xs c ys e => by
  rw [← run_append]
  exact h (cs ++ xs) c ys (by rw [e, List.append_assoc])

theorem Along.append {P : σ → κ → Prop} {s : σ} {cs ds : List κ} (h : Along step P s cs)
    (h' : Along step P (run step s cs) ds) : Along step P s (cs ++ ds) := by
  induction cs generalizing s with
  | nil => exact h'
  | cons c cs ih => exact .cons h.head (ih h.tail h')

theorem Along.imp {P Q : σ → κ → Prop} {s : σ} {cs : List κ} (h : Along step P s cs)
    (himp : ∀ t c, P t c → Q t c) : Along step Q s cs :=
  fun xs c ys e => himp _ c (h xs c ys e)

theorem Along.and {P Q : σ → κ → Prop} {s : σ} {cs : List κ} (h : Along step P s cs)
    (h' : Along step Q s cs) : Along step (fun t c => P t c ∧ Q t c) s cs :=
  fun xs c ys e => ⟨h xs c ys e, h' xs c ys e⟩

/-- What holds in every state of a run is a condition that its steps meet. -/
theorem Along.of_states {P : σ → Prop} {s : σ} {cs : List κ}
    (h : ∀ zs, zs <+: cs → P (run step s zs)) : Along step (fun t _ => P t) s cs := by
  rintro xs c ys rfl
  exact h xs (List.prefix_append xs (c :: ys))

/-- An invariant kept by the steps that meet a condition holds along the runs whose steps all
    meet it. -/
theorem run_invariant_of {P : σ → κ → Prop} {I : σ → Prop}
    (hstep : ∀ s c, P s c → I s → I (step s c)) {s : σ} {cs : List κ} (h : Along step P s cs)
    (hs : I s) : I (run step s cs) := by
  induction cs generalizing s with
  | nil => exact hs
  | cons c cs ih => exact ih h.tail (hstep s c h.head hs)

/-- An invariant kept by every step holds along every run. -/
theorem run_invariant {I : σ → Prop} (hstep : ∀ s c, I s → I (step s c)) {s : σ} (hs : I s)
    (cs : List κ) : I (run step s cs) :=
  run_invariant_of (P := fun _ _ => True) (fun s c _ => hstep s c) (fun _ _ _ _ => trivial) hs

/-- A property that a step keeps exactly if it meets a condition holds in every state of a run exactly if
    every step meets the condition. -/
theorem states_iff_along {P I : σ → Prop} {Q : σ → κ → Prop} (hI : ∀ s c, I s → I (step s c))
    (hstep : ∀ s c, I s → P s → (P (step s c) ↔ Q s c)) {s : σ} (hs : I s) (hP : P s) {cs : List κ} :
    (∀ zs, zs <+: cs → P (run step s zs)) ↔ Along step Q s cs := by
  constructor
  · rintro hall xs c ys rfl
    have hxs := hall xs (List.prefix_append ..)
    have hxsc := hall (xs ++ [c]) ⟨ys, by rw [List.append_assoc, List.singleton_append]⟩
    rw [run_concat] at hxsc
    exact (hstep _ c (run_invariant hI hs xs) hxs).1 hxsc
  · rintro hall zs ⟨ws, rfl⟩
    refine (run_invariant_of (P := Q) (I := fun t => I t ∧ P t) ?_ hall.left ⟨hs, hP⟩).2
    intro t c hc ⟨ht, hPt⟩
    exact ⟨hI t c ht, (hstep t c ht hPt).2 hc⟩

/-- A quantity that goes up with the steps that meet a condition, and stays the same with all others, is
    what it was at first exactly if no step meets the condition. -/
theorem run_eq_iff {α : Type*} [PartialOrder α] {P Q : σ → κ → Prop} {I : σ → Prop} {f : σ → α} {s : σ}
    {cs : List κ} (h : Along step Q s cs) (hs : I s) (hI : ∀ s c, Q s c → I s → I (step s c))
    (hstep : ∀ s c, Q s c → I s → P s c ∧ f s < f (step s c) ∨ ¬P s c ∧ f (step s c) = f s) :
    f s ≤ f (run step s cs) ∧
      (f (run step s cs) = f s ↔ Along step (fun s c => ¬P s c) s cs) := by
  induction cs generalizing s with
  | nil => exact ⟨le_rfl, iff_of_true rfl along_nil⟩
  | cons c cs ih =>
    obtain ⟨hle, hiff⟩ := ih h.tail (hI s c h.head hs)
    rw [run_cons]
    rcases hstep s c h.head hs with ⟨hc, hlt⟩ | ⟨hc, heq⟩
    · -- It does not come down again.
      exact ⟨hlt.le.trans hle, iff_of_false (hlt.trans_le hle).ne' fun hall => hall.head hc⟩
    · rw [heq] at hle hiff
      exact ⟨hle, hiff.trans ⟨fun hall => Along.cons hc hall, fun hall => hall.tail⟩⟩

section Total

variable {M : Type*} [AddCommMonoid M]

variable (step) in
/-- The sum of what `f` says each step of a run adds, in the state it starts from. -/
def total (f : σ → κ → M) (s : σ) : List κ → M
  | [] => 0
  | c :: cs => f s c + total f (step s c) cs

@[simp]
theorem total_nil (f : σ → κ → M) (s : σ) : total step f s [] = 0 := rfl

@[simp]
theorem total_cons (f : σ → κ → M) (s : σ) (c : κ) (cs : List κ) :
    total step f s (c :: cs) = f s c + total step f (step s c) cs := rfl

/-- If every step lowers a quantity by what it adds to a total, so does every run. -/
theorem run_total {P : σ → κ → Prop} {I : σ → Prop} {f : σ → κ → M} {g : σ → M}
    (hstep : ∀ s c, P s c → I s → I (step s c) ∧ g (step s c) + f s c = g s) {s : σ} {cs : List κ}
    (h : Along step P s cs) (hs : I s) : g (run step s cs) + total step f s cs = g s := by
  induction cs generalizing s with
  | nil => exact add_zero _
  | cons c cs ih =>
    obtain ⟨hI, hg⟩ := hstep s c h.head hs
    rw [run_cons, total_cons, ← hg, ← ih h.tail hI, add_assoc, add_comm (f s c)]

end Total

/-- The step of a run that establishes what holds at its end but not at its start, and that no
    later state loses. -/
theorem exists_first_step {P : σ → Prop} {s : σ} {cs : List κ} (hs : ¬P s)
    (h : P (run step s cs)) :
    ∃ xs c ys, cs = xs ++ c :: ys ∧ ¬P (run step s xs) ∧ P (step (run step s xs) c) := by
  induction cs generalizing s with
  | nil => exact absurd h hs
  | cons c cs ih =>
    -- Either the first step establishes it, or it is one of the others.
    by_cases hc : P (step s c)
    · exact ⟨[], c, cs, rfl, hs, hc⟩
    · obtain ⟨xs, d, ys, rfl, h₁, h₂⟩ := ih hc h
      exact ⟨c :: xs, d, ys, rfl, h₁, h₂⟩

/-- The last step of a run that establishes what holds at its end but not at its start: from then
    on, it holds in every state. -/
theorem exists_last_step {P : σ → Prop} {s : σ} {cs : List κ} (hs : ¬P s) (h : P (run step s cs)) :
    ∃ xs c ys, cs = xs ++ c :: ys ∧ ¬P (run step s xs) ∧
      ∀ zs, zs <+: ys → P (run step s (xs ++ c :: zs)) := by
  induction cs using List.reverseRecOn with
  | nil => exact absurd h hs
  | append_singleton cs d ih =>
    -- Either the last of all steps establishes it, or it held before.
    by_cases hbefore : P (run step s cs)
    · obtain ⟨xs, c, ys, rfl, hxs, hys⟩ := ih hbefore
      refine ⟨xs, c, ys ++ [d], by rw [List.append_assoc, List.cons_append], hxs, ?_⟩
      intro zs hzs
      rcases List.prefix_concat_iff.1 hzs with rfl | hzs
      · rwa [List.append_assoc, List.cons_append] at h
      · exact hys zs hzs
    · refine ⟨cs, d, [], rfl, hbefore, ?_⟩
      intro zs hzs
      rwa [List.prefix_nil.1 hzs]

variable (step) in
/-- Either no step of a run meets a condition, or there is a last one that does. -/
theorem along_not_or_exists_last (P : σ → κ → Prop) (s : σ) (cs : List κ) :
    Along step (fun s c => ¬P s c) s cs ∨
      ∃ xs c ys, cs = xs ++ c :: ys ∧ P (run step s xs) c ∧
        Along step (fun s c => ¬P s c) (run step s (xs ++ [c])) ys := by
  induction cs using List.reverseRecOn with
  | nil => exact .inl along_nil
  | append_singleton cs d ih =>
    by_cases hd : P (run step s cs) d
    · exact .inr ⟨cs, d, [], rfl, hd, along_nil⟩
    · -- Then it is the last one of the steps before, if there is one.
      rcases ih with hnone | ⟨xs, c, ys, rfl, hc, hnone⟩
      · exact .inl (hnone.append (.cons hd along_nil))
      · refine .inr ⟨xs, c, ys ++ [d], by rw [List.append_assoc, List.cons_append], hc,
          hnone.append (.cons ?_ along_nil)⟩
        rwa [← run_append, List.append_assoc]

/-- If every step of a system is a run of another one, so is every run. -/
theorem run_simulates {τ ι : Type*} {step' : τ → ι → τ} (π : σ → τ)
    (hstep : ∀ s c, ∃ is, π (step s c) = run step' (π s) is) (s : σ) (cs : List κ) :
    ∃ is, π (run step s cs) = run step' (π s) is := by
  induction cs generalizing s with
  | nil => exact ⟨[], rfl⟩
  | cons c cs ih =>
    -- The run that the first step is, and then the run that the others are.
    obtain ⟨is, his⟩ := hstep s c
    obtain ⟨js, hjs⟩ := ih (step s c)
    exact ⟨is ++ js, by rw [run_cons, hjs, his, run_append]⟩

end Soroban
