import CosmosVote.Soroban.Run

/-!
# Replay of a log

A system that publishes what it does in a log can be followed by a replica, which has nothing
but the log: it applies the events in order, one after the other (`replay`). The replica has a
copy of what the system shows (`view`) if the events that a step adds do to the copy what the
step does to the system (`Replays`).

* `replay_run`: if every step does so, the replay of the log of a run is what the system shows at
  its end.
-/

namespace Soroban

variable {σ κ τ ε : Type*}

/-- The state of a replica, after the events of a log. -/
def replay (apply : τ → ε → τ) (t : τ) (log : List ε) : τ := log.foldl apply t

@[simp]
theorem replay_nil (apply : τ → ε → τ) (t : τ) : replay apply t [] = t := rfl

theorem replay_append (apply : τ → ε → τ) (t : τ) (log log' : List ε) :
    replay apply t (log ++ log') = replay apply (replay apply t log) log' := List.foldl_append

/-- From `s` to `s'`, the log has grown by events that do to a copy of the view what has been done to the
    view. -/
def Replays (log : σ → List ε) (view : σ → τ) (apply : τ → ε → τ) (s s' : σ) : Prop :=
  ∃ es, log s' = log s ++ es ∧ view s' = replay apply (view s) es

section Replays

variable {log : σ → List ε} {view : σ → τ} {apply : τ → ε → τ} {s s' t : σ}

/-- Nothing is published, and nothing is done. -/
theorem Replays.silent (hlog : log s' = log s) (hview : view s' = view s) :
    Replays log view apply s s' :=
  ⟨[], by rw [hlog, List.append_nil], hview⟩

/-- One event is published. -/
theorem Replays.event {e : ε} (hlog : log s' = log s ++ [e]) (hview : view s' = apply (view s) e) :
    Replays log view apply s s' :=
  ⟨[e], hlog, hview⟩

theorem Replays.trans (h : Replays log view apply s s') (h' : Replays log view apply s' t) :
    Replays log view apply s t := by
  obtain ⟨es, hlog, hview⟩ := h
  obtain ⟨es', hlog', hview'⟩ := h'
  refine ⟨es ++ es', ?_, ?_⟩
  · rw [hlog', hlog, List.append_assoc]
  · rw [hview', hview, replay_append]

variable {step : σ → κ → σ}

theorem replays_run (hstep : ∀ s c, Replays log view apply s (step s c)) (s : σ) (cs : List κ) :
    Replays log view apply s (run step s cs) := by
  induction cs generalizing s with
  | nil => exact .silent rfl rfl
  | cons c cs ih => exact (hstep s c).trans (ih (step s c))

/-- A replica that starts with a copy of an empty system has a copy of it at the end of every run. -/
theorem replay_run (hstep : ∀ s c, Replays log view apply s (step s c)) (hs : log s = []) (cs : List κ) :
    replay apply (view s) (log (run step s cs)) = view (run step s cs) := by
  obtain ⟨es, hlog, hview⟩ := replays_run hstep s cs
  rw [hlog, hs, List.nil_append, hview]

end Replays

end Soroban
