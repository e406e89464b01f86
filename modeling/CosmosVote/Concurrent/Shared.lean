import CosmosVote.Soroban.Run

/-!
# A shared value

Several processes work on one value, such as a file. Each operation loads it, and saves what it makes
of it later: these are two steps, and between them others may load and save. An operation may also
find that there is nothing to do, and end when it has loaded.

* `Current`: a save that writes what its operation would make of the present value;
* `current_of_loads`: so does one before which nobody else has saved since the operation loaded;
* `value_eq_run`: if all saves are current, the value is what the completed operations make of it one
  after another, in the order of their saves.
-/

namespace Concurrent

open Soroban

variable {σ ο : Type*}

/-- A value, the operations that have loaded it, each with what it is going to save, and the operations
    that have saved it. -/
structure Shared (σ ο : Type*) where
  value : σ
  pending : List (ο × σ)
  completed : List ο

/-- What a process does. -/
inductive Access (ο : Type*)
  | load (o : ο)
  | save (k : ℕ)

/-- Before the first access. -/
def Shared.init (v : σ) : Shared σ ο := ⟨v, [], []⟩

variable (edit : ο → σ → Option σ)

/-- An operation that is not interrupted. -/
def perform (v : σ) (o : ο) : σ := (edit o v).getD v

/-- The `k`-th of the pending operations saves, if there is one. -/
def Shared.step (s : Shared σ ο) : Access ο → Shared σ ο
  | .load o =>
    match edit o s.value with
    | some v => { s with pending := s.pending ++ [(o, v)] }
    | none => s
  | .save k =>
    match s.pending[k]? with
    | some (o, v) => ⟨v, s.pending.eraseIdx k, s.completed ++ [o]⟩
    | none => s

/-- If it is a save, it writes what the operation would make of the present value. -/
def Current (s : Shared σ ο) : Access ο → Prop
  | .load _ => True
  | .save k => ∀ o v, s.pending[k]? = some (o, v) → v = perform edit s.value o

variable (s : Shared σ ο)

/-- An access either begins an operation, or ends one, or does nothing. -/
theorem step_cases (a : Access ο) :
    s.step edit a = s ∨
    (∃ o v, a = .load o ∧ edit o s.value = some v ∧
      s.step edit a = ⟨s.value, s.pending ++ [(o, v)], s.completed⟩) ∨
    ∃ k o v, a = .save k ∧ s.pending[k]? = some (o, v) ∧
      s.step edit a = ⟨v, s.pending.eraseIdx k, s.completed ++ [o]⟩ := by
  cases a with
  | load o =>
    rw [Shared.step]
    cases h : edit o s.value with
    | none => exact .inl rfl
    | some v => exact .inr (.inl ⟨o, v, rfl, h, rfl⟩)
  | save k =>
    rw [Shared.step]
    cases h : s.pending[k]? with
    | none => exact .inl rfl
    | some c => exact .inr (.inr ⟨k, c.1, c.2, rfl, h, rfl⟩)

variable {edit}

/-- Loading changes neither the value nor what has been loaded before. -/
theorem run_loads {as : List (Access ο)} (hloads : ∀ a ∈ as, ∃ o, a = .load o) :
    ∃ loaded, run (Shared.step edit) s as = ⟨s.value, s.pending ++ loaded, s.completed⟩ := by
  induction as generalizing s with
  | nil => exact ⟨[], by rw [List.append_nil]; rfl⟩
  | cons a as ih =>
    obtain ⟨hhead, htail⟩ := List.forall_mem_cons.1 hloads
    obtain ⟨o, rfl⟩ := hhead
    obtain ⟨loaded, hrun⟩ := ih (s.step edit (.load o)) htail
    rw [run_cons, hrun]
    rcases step_cases edit s (.load o) with hsame | ⟨o', v, _, _, hstep⟩ | ⟨_, _, _, hsave, _⟩
    · exact ⟨loaded, by rw [hsame]⟩
    · exact ⟨(o', v) :: loaded, by rw [hstep, List.append_assoc, List.singleton_append]⟩
    · cases hsave

/-- An operation that saves when nobody else has saved since it loaded writes what it makes of the present
    value. -/
theorem current_of_loads {o : ο} {v : σ} (hload : edit o s.value = some v) {as : List (Access ο)}
    (hloads : ∀ a ∈ as, ∃ o', a = .load o') :
    Current edit (run (Shared.step edit) s (.load o :: as)) (.save s.pending.length) := by
  have hstep : s.step edit (.load o) = ⟨s.value, s.pending ++ [(o, v)], s.completed⟩ := by
    rw [Shared.step, hload]
  obtain ⟨loaded, hrun⟩ : ∃ loaded, run (Shared.step edit) (s.step edit (.load o)) as = _ :=
    run_loads _ hloads
  rw [run_cons, hrun, hstep]
  intro o' v' hpending
  -- It is still at its place among the pending ones.
  rw [List.append_assoc, List.getElem?_append_right (Nat.le_refl _), Nat.sub_self] at hpending
  obtain ⟨rfl, rfl⟩ := Prod.ext_iff.1 (Option.some_inj.1 hpending)
  rw [perform, hload, Option.getD_some]

/-- If every save is current, the operations that have been completed might as well have been performed one
    after another. -/
theorem value_eq_run {v : σ} {as : List (Access ο)}
    (h : Along (Shared.step edit) (Current edit) (.init v) as) :
    (run (Shared.step edit) (.init v) as).value =
      run (perform edit) v (run (Shared.step edit) (.init v) as).completed := by
  refine run_invariant_of (I := fun s : Shared σ ο => s.value = run (perform edit) v s.completed) ?_ h rfl
  intro s a ha hs
  rcases step_cases edit s a with hsame | ⟨o, w, _, _, hstep⟩ | ⟨k, o, w, rfl, hk, hstep⟩
  · rwa [hsame]
  · rwa [hstep]
  · rw [hstep, ha o w hk, hs, run_concat]

end Concurrent
