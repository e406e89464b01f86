import CosmosVote.Soroban.Run

/-!
# Reading while others write

A store is written by some, and an observer looks at it at some moments and keeps what it wants of what it
sees. Its turns and the writes come in any order.

* `run_store`: the observer writes nothing, so that the store is that after the writes alone;
* `storeAt_append`: what the store was at a moment is not changed by later turns.
-/

namespace Soroban

variable {σ ι γ κ : Type*}

/-- A store, and what an observer of it has. -/
structure Observed (σ γ : Type*) where
  store : σ
  observer : γ

/-- Either there is a write, or the observer looks at the store. -/
inductive Turn (ι κ : Type*)
  | write (i : ι)
  | look (a : κ)

/-- The writes among the turns. -/
def Turn.writes (ts : List (Turn ι κ)) : List ι :=
  ts.filterMap fun
    | .write i => some i
    | .look _ => none

namespace Observed

/-- The store after the first `k` turns. -/
def storeAt {τ : Type*} (step : Observed σ γ → τ → Observed σ γ) (w : Observed σ γ) (ts : List τ) (k : ℕ) : σ :=
  (run step w (ts.take k)).store

theorem storeAt_append {τ : Type*} {step : Observed σ γ → τ → Observed σ γ} {w : Observed σ γ} {ts : List τ} {k : ℕ}
    (hk : k ≤ ts.length) (us : List τ) : storeAt step w (ts ++ us) k = storeAt step w ts k := by
  rw [storeAt, List.take_append_of_le_length hk, storeAt]

theorem storeAt_length {τ : Type*} {step : Observed σ γ → τ → Observed σ γ} {w : Observed σ γ} {ts : List τ} :
    storeAt step w ts ts.length = (run step w ts).store := by
  rw [storeAt, List.take_length]

def step (write : σ → ι → σ) (look : γ → σ → κ → γ) (w : Observed σ γ) : Turn ι κ → Observed σ γ
  | .write i => { w with store := write w.store i }
  | .look a => { w with observer := look w.observer w.store a }

variable {write : σ → ι → σ} {look : γ → σ → κ → γ} {w : Observed σ γ} {ts : List (Turn ι κ)}

theorem run_store : (run (step write look) w ts).store = run write w.store (Turn.writes ts) := by
  induction ts generalizing w with
  | nil => rfl
  | cons t ts ih =>
    rw [run_cons, ih]
    cases t <;> rfl

/-- An invariant of the writes is one of the store. -/
theorem run_store_invariant {I : σ → Prop} (hstep : ∀ s i, I s → I (write s i)) (hw : I w.store)
    (ts : List (Turn ι κ)) : I (run (step write look) w ts).store := by
  rw [run_store]
  exact run_invariant hstep hw _

/-- The store at a moment is that after the writes before it. -/
theorem storeAt_eq (k : ℕ) : storeAt (step write look) w ts k = run write w.store (Turn.writes (ts.take k)) :=
  run_store

/-- The store now is what it was at a moment, after the writes since. -/
theorem store_since (k : ℕ) : (run (step write look) w ts).store =
    run write (storeAt (step write look) w ts k) (Turn.writes (ts.drop k)) := by
  rw [storeAt, ← run_store, ← run_append, List.take_append_drop]

end Observed

end Soroban
