import Mathlib.Algebra.BigOperators.Group.List.Basic
import CosmosVote.Soroban.Run

/-!
# Interleavings

Several parties act on a system, each in an order of its own (`own`), and the actions of
different parties may come in any order.

* `perm_of_own`: what the parties do is the same, up to the order, if each of them does the same;
* `run_view`: a part of the state that only one party writes is, at the end of a run, what the actions of
  that party make of it;
* `run_added`: a number to which every action adds a fixed amount does not depend on their order either;
* `run_parts`: if each action changes only the part of the state that its owner has, by what there is in that
  part, two runs in which every owner does the same end with the same parts.
-/

namespace Soroban

variable {α ι : Type*} [DecidableEq ι]

/-- What the party `v` does, in its order. -/
def own (owner : α → ι) (v : ι) (as : List α) : List α := as.filter fun a => owner a = v

theorem own_cons (owner : α → ι) (v : ι) (a : α) (as : List α) :
    own owner v (a :: as) = if owner a = v then a :: own owner v as else own owner v as := by
  simp only [own, List.filter_cons, decide_eq_true_eq]

/-- If every party does the same, what is done only differs in the order. -/
theorem perm_of_own [DecidableEq α] {owner : α → ι} {as bs : List α}
    (h : ∀ v, own owner v as = own owner v bs) : as.Perm bs := by
  rw [List.perm_iff_count]
  intro a
  have hcount (cs : List α) : cs.count a = (own owner (owner a) cs).count a := by
    rw [own, List.count_filter (by simp)]
  rw [hcount as, h, ← hcount bs]

section Run

variable {σ κ β : Type*} {step : σ → κ → σ} {P : σ → κ → Prop} {I : σ → Prop} (action : κ → α)
  {owner : α → ι}

/-- A part of the state that changes with the actions of the party `v` only, and by what they are and what
    it was, is what these actions make of it. -/
theorem run_view {g : σ → β} {f : β → α → β} {v : ι}
    (hstep : ∀ s c, P s c → I s → I (step s c) ∧
      g (step s c) = if owner (action c) = v then f (g s) (action c) else g s)
    {s : σ} {cs : List κ} (h : Along step P s cs) (hs : I s) :
    g (run step s cs) = (own owner v (cs.map action)).foldl f (g s) := by
  induction cs generalizing s with
  | nil => rfl
  | cons c cs ih =>
    obtain ⟨hI, hg⟩ := hstep s c h.head hs
    rw [run_cons, ih h.tail hI, hg, List.map_cons, own_cons]
    split <;> rfl

/-- A number to which every action adds has gone up by the sum of what they add. -/
theorem run_added {M : Type*} [AddCommMonoid M] {g : σ → M} {amount : α → M}
    (hstep : ∀ s c, P s c → I s → I (step s c) ∧ g (step s c) = g s + amount (action c))
    {s : σ} {cs : List κ} (h : Along step P s cs) (hs : I s) :
    g (run step s cs) = g s + ((cs.map action).map amount).sum := by
  induction cs generalizing s with
  | nil => exact (add_zero _).symm
  | cons c cs ih =>
    obtain ⟨hI, hg⟩ := hstep s c h.head hs
    rw [run_cons, ih h.tail hI, hg, List.map_cons, List.map_cons, List.sum_cons, add_assoc]

end Run

section Parts

variable {σ κ : Type*} {step : σ → κ → σ} {owner : κ → ι} {Q : κ → Prop} {R : σ → σ → Prop} {v : ι}

/-- If what `v` has of a state is only changed by the actions of `v`, and by what it was, it is at the end of
    a run what these actions alone make of it. -/
theorem run_own (hown : ∀ s t c, Q c → owner c = v → R s t → R (step s c) (step t c))
    (hother : ∀ s t c, Q c → owner c ≠ v → R s t → R (step s c) t) {s t : σ} {cs : List κ}
    (hQ : ∀ c ∈ cs, Q c) (h : R s t) : R (run step s cs) (run step t (own owner v cs)) := by
  induction cs generalizing s t with
  | nil => exact h
  | cons c cs ih =>
    rw [List.forall_mem_cons] at hQ
    rw [run_cons, own_cons]
    split
    · rename_i hc
      exact ih hQ.2 (hown s t c hQ.1 hc h)
    · rename_i hc
      exact ih hQ.2 (hother s t c hQ.1 hc h)

/-- So what `v` has does not depend on what the others do, nor on when. -/
theorem run_parts (heq : Equivalence R)
    (hown : ∀ s t c, Q c → owner c = v → R s t → R (step s c) (step t c))
    (hother : ∀ s t c, Q c → owner c ≠ v → R s t → R (step s c) t) {s : σ} {cs ds : List κ}
    (hcs : ∀ c ∈ cs, Q c) (hds : ∀ c ∈ ds, Q c) (hsame : own owner v cs = own owner v ds) :
    R (run step s cs) (run step s ds) := by
  refine heq.trans (run_own hown hother hcs (heq.refl s)) ?_
  rw [hsame]
  exact heq.symm (run_own hown hother hds (heq.refl s))

end Parts

end Soroban
