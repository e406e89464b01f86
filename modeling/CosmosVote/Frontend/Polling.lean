import CosmosVote.Soroban.Run

/-!
# The polling hook

`usePolling` calls a function at once and then again and again, with a timer between the end of one call and
the next one. A run of its effect begins when the hook is enabled or its interval changes; the cleanup of
the run clears the timer that was armed last. A call that is in flight at that moment arms another one
when it ends, whose run is over (`Polling`).

* `polling_clean`: if no call is in flight at any cleanup, no call belongs to a run that is over, there is one
  loop at a time, and the delays are those of the backoff; and otherwise all this can still fail.
-/

namespace CosmosVote.Frontend

open Soroban

/-- A call of the function: the run of the effect it belongs to, with the interval of that run, and whether
    it is the one the run begins with. -/
structure PollCall where
  effectRun : ℕ
  interval : ℕ
  first : Bool
  deriving DecidableEq

/-- A timer that is armed. -/
structure PollTimer where
  id : ℕ
  effectRun : ℕ
  interval : ℕ
  deriving DecidableEq

/-- A delay before the next call, and how the call before it has ended. -/
structure Delay where
  interval : ℕ
  delay : ℕ
  succeeded : Bool
  deriving DecidableEq

/-- The hook as it runs: its refs, the run of the effect whose cleanup is still to come, the timers that are
    armed and the calls in flight; and what has happened so far. -/
structure Polling where
  backoffRef : ℕ
  timerRef : Option ℕ
  current : Option ℕ
  armed : List PollTimer
  inFlight : List PollCall
  /-- The number of runs so far. -/
  effectRuns : ℕ
  /-- The number of timers so far. -/
  timers : ℕ
  /-- The run that each call belongs to, and whether its cleanup was still to come when the call began. -/
  calls : List (ℕ × Bool)
  delays : List Delay

/-- What can happen to the hook. -/
inductive PollingEvent
  /-- The hook is enabled, or its interval changes while it is. -/
  | restart (interval : ℕ)
  /-- The hook is disabled or unmounted. -/
  | stop
  | expire (timer : ℕ)
  /-- The call at a place among those in flight ends. -/
  | settle (k : ℕ) (succeeds : Bool)
  deriving DecidableEq

namespace Polling

/-- The hook before its effect runs. -/
def idle : Polling := ⟨1, none, none, [], [], 0, 0, [], []⟩

variable (p : Polling)

/-- The function is called. -/
def call (c : PollCall) : Polling :=
  { p with
    inFlight := p.inFlight ++ [c]
    calls := p.calls ++ [(c.effectRun, decide (p.current = some c.effectRun))] }

/-- The backoff after a call. -/
def backoff (c : PollCall) (succeeds : Bool) : ℕ :=
  if c.first then if succeeds then p.backoffRef else 2
  else if succeeds then 1 else min (p.backoffRef * 2) 4

/-- What follows a call, as it ends: the next one is scheduled, whether or not the run is over. -/
def schedule (c : PollCall) (succeeds : Bool) : Polling :=
  { p with
    backoffRef := p.backoff c succeeds
    timerRef := some p.timers
    armed := p.armed ++ [⟨p.timers, c.effectRun, c.interval⟩]
    timers := p.timers + 1
    delays := p.delays ++ [⟨c.interval, c.interval * p.backoff c succeeds, succeeds⟩] }

/-- The body of the effect. -/
def effect (interval : ℕ) : Polling :=
  { p with
    backoffRef := 1
    current := some p.effectRuns
    effectRuns := p.effectRuns + 1 }.call ⟨p.effectRuns, interval, true⟩

/-- The cleanup of the effect, if there is one to come. -/
def cleanup : Polling :=
  match p.current with
  | none => p
  | some _ => { p with current := none, armed := p.armed.filter fun t => p.timerRef ≠ some t.id }

/-- A timer expires. -/
def fire (t : PollTimer) : Polling :=
  { p with armed := p.armed.erase t }.call ⟨t.effectRun, t.interval, false⟩

def step (p : Polling) : PollingEvent → Polling
  | .restart interval => p.cleanup.effect interval
  | .stop => p.cleanup
  | .expire id =>
    match p.armed.find? fun t => t.id = id with
    | some t => p.fire t
    | none => p
  | .settle k succeeds =>
    match p.inFlight[k]? with
    | some c => { p with inFlight := p.inFlight.eraseIdx k }.schedule c succeeds
    | none => p

end Polling

/-- The delay is the interval times a factor of `1` after a success, and of `2` or `4` after a failure. -/
def Delay.BacksOff (d : Delay) : Prop :=
  ∃ factor, factor ∈ [1, 2, 4] ∧ d.delay = d.interval * factor ∧ (factor = 1 ↔ d.succeeded = true)

/-- No call so far has begun after the cleanup of its run, there is at most one loop, and the delays are those of
    the backoff. -/
structure Polling.Clean (p : Polling) : Prop where
  calls : ∀ c ∈ p.calls, c.2 = true
  one_loop : p.armed.length + p.inFlight.length ≤ 1
  delays : ∀ d ∈ p.delays, d.BacksOff

/-- The event is a cleanup, alone or before another run. -/
def PollingEvent.CleansUp : PollingEvent → Prop
  | .restart _ => True
  | .stop => True
  | .expire _ => False
  | .settle _ _ => False

/-- If a run is cleaned up, no call is in flight. -/
def Quiet (p : Polling) (e : PollingEvent) : Prop := e.CleansUp → p.current ≠ none → p.inFlight = []

namespace Polling

/-- Where a hook is whose cleanups have been quiet. -/
inductive Phase (p : Polling) : Prop
  | stopped (hcurrent : p.current = none) (harmed : p.armed = []) (hflight : p.inFlight = [])
  | waiting {t : PollTimer} (hcurrent : p.current = some t.effectRun) (harmed : p.armed = [t])
      (href : p.timerRef = some t.id) (hflight : p.inFlight = [])
  | calling {c : PollCall} (hcurrent : p.current = some c.effectRun) (harmed : p.armed = [])
      (hflight : p.inFlight = [c]) (hfirst : c.first = true → p.backoffRef = 1)

/-- What holds of a hook whose cleanups have been quiet. -/
structure Orderly (p : Polling) : Prop where
  phase : p.Phase
  backoff : p.backoffRef ∈ [1, 2, 4]
  calls : ∀ c ∈ p.calls, c.2 = true
  delays : ∀ d ∈ p.delays, d.BacksOff

variable {p : Polling}

theorem Orderly.clean (h : p.Orderly) : p.Clean := by
  refine ⟨h.calls, ?_, h.delays⟩
  cases h.phase with
  | stopped _ harmed hflight => rw [harmed, hflight]; exact Nat.zero_le 1
  | waiting _ harmed _ hflight => rw [harmed, hflight]; exact Nat.le_refl 1
  | calling _ harmed hflight _ => rw [harmed, hflight]; exact Nat.le_refl 1

theorem orderly_idle : idle.Orderly := ⟨.stopped rfl rfl rfl, by simp [idle], by simp [idle], by simp [idle]⟩

/-- A cleanup that finds no call in flight ends the loop. -/
theorem Orderly.cleanup (h : p.Orderly) (hquiet : p.current ≠ none → p.inFlight = []) :
    p.cleanup.Orderly ∧ p.cleanup.current = none ∧ p.cleanup.armed = [] ∧ p.cleanup.inFlight = [] := by
  rw [Polling.cleanup]
  cases h.phase with
  | stopped hcurrent harmed hflight =>
    rw [hcurrent]
    exact ⟨h, hcurrent, harmed, hflight⟩
  | @waiting t hcurrent harmed href hflight =>
    have hclear : (p.armed.filter fun t => p.timerRef ≠ some t.id) = [] := by
      rw [harmed, href]
      simp
    rw [hcurrent]
    exact ⟨⟨.stopped rfl hclear hflight, h.backoff, h.calls, h.delays⟩, rfl, hclear, hflight⟩
  | calling hcurrent harmed hflight _ =>
    rw [hquiet (by rw [hcurrent]; exact Option.some_ne_none _)] at hflight
    cases hflight

/-- A call of a run whose cleanup is still to come. -/
theorem calls_call (h : ∀ c ∈ p.calls, c.2 = true) {r : ℕ} (hr : p.current = some r) :
    ∀ c ∈ p.calls ++ [(r, decide (p.current = some r))], c.2 = true := by
  intro c hc
  rcases List.mem_append.1 hc with hc | hc
  · exact h c hc
  · rw [List.mem_singleton.1 hc]
    exact decide_eq_true hr

/-- A run of the effect begins the loop. -/
theorem Orderly.effect (h : p.Orderly) (harmed : p.armed = []) (hflight : p.inFlight = []) (interval : ℕ) :
    (p.effect interval).Orderly := by
  refine ⟨.calling (c := ⟨p.effectRuns, interval, true⟩) rfl harmed ?_ fun _ => rfl, by simp [Polling.effect, call],
    ?_, h.delays⟩
  · simp [Polling.effect, call, hflight]
  · exact calls_call (p := { p with backoffRef := 1, current := some p.effectRuns }) h.calls rfl

/-- A timer that expires becomes a call. -/
theorem Orderly.fire (h : p.Orderly) {t : PollTimer} (ht : t ∈ p.armed) : (p.fire t).Orderly := by
  cases h.phase with
  | stopped _ harmed _ =>
    rw [harmed] at ht
    exact absurd ht List.not_mem_nil
  | @waiting s hcurrent harmed _ hflight =>
    rw [harmed, List.mem_singleton] at ht
    subst ht
    refine ⟨.calling (c := ⟨t.effectRun, t.interval, false⟩) hcurrent ?_ ?_ Bool.noConfusion, h.backoff,
      calls_call h.calls hcurrent, h.delays⟩
    · simp [Polling.fire, call, harmed]
    · simp [Polling.fire, call, hflight]
  | calling _ harmed _ _ =>
    rw [harmed] at ht
    exact absurd ht List.not_mem_nil

/-- The factor after a call, by how it has ended. -/
theorem backoff_spec (hmem : p.backoffRef ∈ [1, 2, 4]) {c : PollCall} (hfirst : c.first = true → p.backoffRef = 1)
    (succeeds : Bool) :
    p.backoff c succeeds ∈ [1, 2, 4] ∧ (p.backoff c succeeds = 1 ↔ succeeds = true) := by
  rw [backoff]
  cases hc : c.first with
  | true => cases succeeds <;> simp [hfirst hc]
  | false =>
    cases succeeds with
    | true => simp
    | false =>
      simp only [List.mem_cons, List.not_mem_nil, or_false] at hmem
      rcases hmem with h | h | h <;> rw [h] <;> simp

/-- A call that ends becomes a timer. -/
theorem Orderly.settle (h : p.Orderly) {k : ℕ} {c : PollCall} (hc : p.inFlight[k]? = some c) (succeeds : Bool) :
    ({ p with inFlight := p.inFlight.eraseIdx k }.schedule c succeeds).Orderly := by
  cases h.phase with
  | stopped _ _ hflight =>
    rw [hflight, List.getElem?_nil] at hc
    cases hc
  | waiting _ _ _ hflight =>
    rw [hflight, List.getElem?_nil] at hc
    cases hc
  | @calling d hcurrent harmed hflight hfirst =>
    rw [hflight, List.getElem?_singleton] at hc
    split at hc
    · rename_i hk
      obtain rfl := Option.some_inj.1 hc
      obtain ⟨hmem, hone⟩ := backoff_spec h.backoff hfirst succeeds
      refine ⟨.waiting (t := ⟨p.timers, d.effectRun, d.interval⟩) hcurrent ?_ rfl ?_, hmem, h.calls, ?_⟩
      · simp [schedule, harmed]
      · simp [schedule, hflight, hk]
      · intro w hw
        rcases List.mem_append.1 hw with hw | hw
        · exact h.delays w hw
        · rw [List.mem_singleton.1 hw]
          exact ⟨_, hmem, rfl, hone⟩
    · cases hc

theorem step_orderly {e : PollingEvent} (hquiet : Quiet p e) (h : p.Orderly) : (p.step e).Orderly := by
  cases e with
  | restart interval =>
    obtain ⟨hclean, _, harmed, hflight⟩ := h.cleanup (hquiet trivial)
    exact hclean.effect harmed hflight interval
  | stop => exact (h.cleanup (hquiet trivial)).1
  | expire id =>
    rw [step]
    split
    · rename_i t ht
      exact h.fire (List.mem_of_find?_eq_some ht)
    · exact h
  | settle k succeeds =>
    rw [step]
    split
    · rename_i c hc
      exact h.settle hc succeeds
    · exact h

/-- A cleanup while a call is in flight: after a stop, the call ends and arms a timer, and that one calls the
    function again; and a restart has two loops at once. -/
theorem not_clean_of_not_quiet {e : PollingEvent} (hquiet : ¬Quiet p e) (h : p.Orderly) :
    ∃ es, ¬(run step p (e :: es)).Clean := by
  simp only [Quiet, Classical.not_imp] at hquiet
  obtain ⟨hcleans, hne, hbusy⟩ := hquiet
  cases h.phase with
  | stopped hcurrent _ _ => exact absurd hcurrent hne
  | waiting _ _ _ hflight => exact absurd hflight hbusy
  | @calling c hcurrent harmed hflight _ =>
    have hcleanup : p.cleanup = { p with current := none } := by
      rw [Polling.cleanup, hcurrent, harmed, List.filter_nil, ← harmed]
    cases e with
    | restart interval =>
      refine ⟨[], fun hclean => ?_⟩
      have hloops := hclean.one_loop
      simp [step, hcleanup, effect, call, harmed, hflight] at hloops
    | stop =>
      refine ⟨[.settle 0 true, .expire p.timers], fun hclean => ?_⟩
      have hcall : (c.effectRun, false) ∈ (run step p [.stop, .settle 0 true, .expire p.timers]).calls := by
        simp [step, hcleanup, schedule, fire, call, harmed, hflight]
      exact absurd (hclean.calls _ hcall) Bool.false_ne_true
    | expire id => exact absurd hcleans not_false
    | settle k succeeds => exact absurd hcleans not_false

end Polling

/-- As long as no call is in flight when a run of the effect is cleaned up, the hook restarts cleanly, whatever the
    order of restarts, stops, timers and ends of calls. And whenever a run is cleaned up while a call is in
    flight, it may not. -/
theorem polling_clean (es : List PollingEvent) :
    (Along Polling.step Quiet .idle es → ∀ zs, zs <+: es → (run Polling.step .idle zs).Clean) ∧
    ∀ e, Along Polling.step Quiet .idle es → ¬Quiet (run Polling.step .idle es) e →
      ∃ fs, ¬(run Polling.step .idle (es ++ e :: fs)).Clean := by
  have horderly {es : List PollingEvent} (h : Along Polling.step Quiet .idle es) :
      (run Polling.step .idle es).Orderly :=
    run_invariant_of (fun _ _ hquiet hp => Polling.step_orderly hquiet hp) h Polling.orderly_idle
  constructor
  · rintro h zs ⟨ws, rfl⟩
    exact (horderly h.left).clean
  · intro e h hquiet
    obtain ⟨fs, hfs⟩ := Polling.not_clean_of_not_quiet hquiet (horderly h)
    exact ⟨fs, by rwa [run_append]⟩

/-- The interval changes while the first call is in flight: there are two loops, and as the old call fails, the
    new one waits twice its interval although it succeeds. And the hook is unmounted while its first call is
    in flight: the function is called once more. -/
theorem polling_not_clean :
    let restarted := run Polling.step .idle [.restart 15000, .restart 30000]
    let slowed := run Polling.step restarted [.settle 0 false, .settle 0 true]
    let unmounted := run Polling.step .idle [.restart 15000, .stop, .settle 0 true, .expire 0]
    restarted.inFlight.length = 2 ∧ ¬restarted.Clean ∧
      slowed.delays = [⟨15000, 30000, false⟩, ⟨30000, 60000, true⟩] ∧
      unmounted.calls = [(0, true), (0, false)] ∧ ¬unmounted.Clean := by
  intro restarted slowed unmounted
  have hcalls : unmounted.calls = [(0, true), (0, false)] := rfl
  refine ⟨rfl, fun h => absurd h.one_loop (by decide), rfl, hcalls, fun h => ?_⟩
  exact absurd (h.calls (0, false) (hcalls ▸ by simp)) Bool.false_ne_true

end CosmosVote.Frontend
