import Mathlib.Algebra.Order.Group.Nat
import Mathlib.Data.List.Nodup
import CosmosVote.Soroban.Run

/-!
# The notification service of the backend

It asks the RPC endpoint for the events of a contract, and posts each to a webhook
(`Service.runOnce`). `start` does so again and again, with a timer between the end of one round and
the next one; `stop` drops the timer that was armed last (`Loop`).

* `one_loop_iff`: `start` does not look whether there is a loop already. There is never more than one
  exactly if it is only called when no timer is armed and no round is under way; after `stop`, no
  round begins in any case;
* `posted_once_iff`: a request says nothing about the events that were answered before. Each event is
  posted at most once exactly if only the last answered request finds any.
-/

namespace CosmosVote.Backend

open Soroban

/-! ## One round -/

structure WebhookPayload where
  contractId : String
  event : String
  ledger : ℕ
  data : String
  deriving DecidableEq

/-- An event, as the endpoint answers it. Its place among the events of the chain tells it from others
    with the same payload. -/
structure ContractEvent extends WebhookPayload where
  place : ℕ
  deriving DecidableEq

/-- `MAX_POLL_FAILURES` -/
def maxPollFailures : ℕ := 3

/-- What `captureError` is called with. -/
inductive Report
  | eventPolling (contractId : String) (consecutiveFailures : ℕ) (alertThresholdReached : Bool)
  | webhookDelivery (webhookUrl event : String)
  deriving DecidableEq

structure NotificationServiceConfig where
  contractId : String
  webhookUrl : String

/-- The service between two rounds, with what it has posted and reported. -/
structure Service where
  consecutiveFailures : ℕ
  posted : List ContractEvent
  reports : List Report

/-- The service before the first round. -/
def Service.idle : Service := ⟨0, [], []⟩

namespace Service

variable (config : NotificationServiceConfig) (s : Service)

/-- The answer may have no field `events`; there is none at all if the request fails. -/
def pollEvents (answer : Option (Option (List ContractEvent))) : Service × List ContractEvent :=
  match answer with
  | some events => ({ s with consecutiveFailures := 0 }, events.getD [])
  | none =>
    let n := s.consecutiveFailures + 1
    ({ s with
        consecutiveFailures := n
        reports := s.reports ++
          [.eventPolling config.contractId n (decide (maxPollFailures ≤ n))] }, [])

/-- `delivered` says whether the webhook takes the event. -/
def deliverWebhook (delivered : ContractEvent → Bool) (e : ContractEvent) : Service :=
  { s with
    posted := s.posted ++ [e]
    reports := if delivered e then s.reports else
      s.reports ++ [.webhookDelivery config.webhookUrl e.event] }

def runOnce (answer : Option (Option (List ContractEvent))) (delivered : ContractEvent → Bool) : Service :=
  let polled := s.pollEvents config answer
  polled.2.foldl (fun s e => s.deliverWebhook config delivered e) polled.1

/-- Every event of an answer is posted, whether or not the webhook takes those before it. -/
theorem posted_runOnce (answer : Option (Option (List ContractEvent))) (delivered : ContractEvent → Bool) :
    (s.runOnce config answer delivered).posted = s.posted ++ (answer.bind id).getD [] := by
  have hfold (es : List ContractEvent) (t : Service) :
      (es.foldl (fun t e => t.deliverWebhook config delivered e) t).posted = t.posted ++ es := by
    induction es generalizing t with
    | nil => exact (List.append_nil _).symm
    | cons e es ih => rw [List.foldl_cons, ih, deliverWebhook, List.append_assoc, List.singleton_append]
  rw [runOnce, hfold]
  cases answer <;> rfl

end Service

/-! ## The loop -/

/-- The service as it runs: whether it is to go on, and the timer it knows of; and what is going on
    outside of it, the timers that are armed and the rounds under way. -/
structure Loop where
  running : Bool
  timer : Option ℕ
  armed : List ℕ
  inFlight : ℕ
  /-- The number of timers so far. -/
  timers : ℕ
  /-- The number of rounds that have begun. -/
  polls : ℕ

/-- The service before `start`. -/
def Loop.idle : Loop := ⟨false, none, [], 0, 0, 0⟩

/-- What can happen to the service: a call, a timer that expires, and the end of a round. -/
inductive LoopEvent
  | start
  | stop
  | expire (timer : ℕ)
  | complete
  deriving DecidableEq

namespace Loop

variable (l : Loop)

/-- Drop a timer, as it expires or is cleared. -/
def disarm (t : ℕ) : Loop := { l with armed := l.armed.erase t }

/-- The part of `tick` before its `await`. -/
def tick : Loop := if l.running then { l with inFlight := l.inFlight + 1, polls := l.polls + 1 } else l

def start : Loop := { l with running := true }.tick

def stop : Loop :=
  let l := { l with running := false }
  match l.timer with
  | some t => l.disarm t
  | none => l

/-- The part of `tick` after its `await`: it does not look at `running` again. -/
def rearm : Loop :=
  { l with
    inFlight := l.inFlight - 1
    timer := some l.timers
    armed := l.timers :: l.armed
    timers := l.timers + 1 }

def step (l : Loop) : LoopEvent → Loop
  | .start => l.start
  | .stop => l.stop
  | .expire t => if t ∈ l.armed then (l.disarm t).tick else l
  | .complete => if 0 < l.inFlight then l.rearm else l

/-- The number of timers that are armed and of rounds under way. -/
def loops : ℕ := l.armed.length + l.inFlight

/-- The number of polling loops: all of these go on if the service is running, and none otherwise. -/
def live : ℕ := if l.running then l.loops else 0

variable {l}

@[simp]
theorem running_stop : l.stop.running = false := by
  rw [stop]
  split <;> rfl

@[simp]
theorem polls_stop : l.stop.polls = l.polls := by
  rw [stop]
  split <;> rfl

theorem live_tick : l.tick.live = if l.running then l.loops + 1 else 0 := by
  by_cases h : l.running
  · rw [tick, if_pos h, if_pos h, live, if_pos (show l.running from h)]
    rfl
  · rw [tick, if_neg h, if_neg h, live, if_neg h]

theorem loops_disarm {t : ℕ} (ht : t ∈ l.armed) : (l.disarm t).loops + 1 = l.loops := by
  have hlength := List.length_erase_of_mem ht
  have hpos := List.length_pos_of_mem ht
  rw [loops, loops, disarm]
  dsimp only
  omega

theorem loops_rearm (h : 0 < l.inFlight) : l.rearm.loops = l.loops := by
  rw [loops, loops, rearm]
  dsimp only [List.length_cons]
  omega

/-- Only `start` begins a loop, beside those that are there. -/
theorem live_step (c : LoopEvent) (h : l.live ≤ 1) :
    (l.step c).live ≤ 1 ↔ (c = .start → l.loops = 0) := by
  cases c with
  | start =>
    have hstart : (l.step .start).live = l.loops + 1 := live_tick
    rw [hstart, imp_iff_right rfl]
    omega
  | stop =>
    have hstop : (l.step .stop).live = 0 := if_neg (by rw [step, running_stop]; exact Bool.false_ne_true)
    exact iff_of_true (hstop ▸ Nat.zero_le 1) nofun
  | expire t =>
    refine iff_of_true ?_ nofun
    rw [step]
    split
    · -- The timer becomes a round.
      rename_i ht
      rw [live_tick, loops_disarm ht]
      exact h
    · exact h
  | complete =>
    refine iff_of_true ?_ nofun
    rw [step]
    split
    · -- The round becomes a timer.
      rename_i hround
      rw [live, loops_rearm hround]
      exact h
    · exact h

/-- While the service is not to go on, and is not started, no round begins. -/
theorem stopped_step {c : LoopEvent} (hc : c ≠ .start) (h : l.running = false) :
    (l.step c).running = false ∧ (l.step c).polls = l.polls := by
  have htick (m : Loop) (hm : m.running = false) : m.tick = m := if_neg (by rw [hm]; exact Bool.false_ne_true)
  cases c with
  | start => exact absurd rfl hc
  | stop => exact ⟨running_stop, polls_stop⟩
  | expire t =>
    rw [step]
    split
    · rw [htick (l.disarm t) h]
      exact ⟨h, rfl⟩
    · exact ⟨h, rfl⟩
  | complete =>
    rw [step]
    split <;> exact ⟨h, rfl⟩

/-- After a `stop`, no round begins until the next `start`. -/
theorem run_stopped {cs : List LoopEvent} (hcs : .start ∉ cs) (h : l.running = false) :
    (run step l cs).polls = l.polls := by
  have hnone : Along step (fun _ c => c ≠ .start) l cs := by
    rintro xs c ys rfl rfl
    exact hcs (List.mem_append_right xs List.mem_cons_self)
  refine (run_invariant_of (I := fun m : Loop => m.running = false ∧ m.polls = l.polls) ?_ hnone ⟨h, rfl⟩).2
  intro m c hc ⟨hm, hpolls⟩
  obtain ⟨hrunning, hsame⟩ := stopped_step hc hm
  exact ⟨hrunning, hsame.trans hpolls⟩

end Loop

/-- There is at most one polling loop at any moment, and from a `stop` to the next `start` no round
    begins. -/
def OneLoop (cs : List LoopEvent) : Prop :=
  (∀ xs, xs <+: cs → (run Loop.step .idle xs).live ≤ 1) ∧
  ∀ xs ys zs, cs = xs ++ .stop :: ys ++ zs → .start ∉ ys →
    (run Loop.step .idle (xs ++ .stop :: ys)).polls = (run Loop.step .idle (xs ++ [.stop])).polls

/-- Whatever the order of calls, timers and ends of rounds, there is one polling loop at a time exactly if
    every `start` finds no timer armed and no round under way. -/
theorem one_loop_iff (cs : List LoopEvent) :
    OneLoop cs ↔ Along Loop.step (fun l c => c = .start → l.loops = 0) .idle cs := by
  have hlive : (∀ xs, xs <+: cs → (run Loop.step .idle xs).live ≤ 1) ↔
      Along Loop.step (fun l c => c = .start → l.loops = 0) .idle cs :=
    states_iff_along (s := Loop.idle) (P := fun l : Loop => l.live ≤ 1) (I := fun _ => True)
      (fun _ _ h => h) (fun _ c _ h => Loop.live_step c h) trivial (Nat.zero_le 1)
  refine (and_iff_left ?_).trans hlive
  rintro xs ys zs - hys
  have hstop : (run Loop.step .idle (xs ++ [.stop])).running = false := by
    rw [run_concat]
    exact Loop.running_stop
  rw [List.append_cons, run_append, Loop.run_stopped hys hstop]

/-- Two loops, after two calls of `start`. -/
theorem two_loops : (run Loop.step .idle [.start, .start]).live = 2 ∧ ¬OneLoop [.start, .start] := by
  refine ⟨rfl, fun h => ?_⟩
  exact absurd (h.1 _ (List.prefix_refl _)) (by decide)

/-! ## Round after round -/

/-- The service, and the events of the chain. -/
structure Feed where
  service : Service
  history : List ContractEvent

/-- Before the first event. -/
def Feed.empty : Feed := ⟨.idle, []⟩

inductive FeedEvent
  /-- A contract publishes an event. -/
  | occur (payload : WebhookPayload)
  /-- A call of `runOnce`: whether its request is answered, and which events the webhook takes. -/
  | runOnce (answered : Bool) (delivered : ContractEvent → Bool)

/-- The answer of the endpoint to `getEvents`: the events of the contracts that the request names. It
    names nothing else. -/
def getEvents (history : List ContractEvent) (contractIds : List String) : List ContractEvent :=
  history.filter fun e => contractIds.contains e.contractId

/-- The event is a round whose request is answered. -/
def FeedEvent.Polls : FeedEvent → Prop
  | .occur _ => False
  | .runOnce answered _ => answered = true

/-- The event is one of the contract. -/
def FeedEvent.OccursIn (contractId : String) : FeedEvent → Prop
  | .occur payload => payload.contractId = contractId
  | .runOnce _ _ => False

namespace Feed

variable (config : NotificationServiceConfig)

def step (f : Feed) : FeedEvent → Feed
  | .occur payload => { f with history := f.history ++ [⟨payload, f.history.length⟩] }
  | .runOnce answered delivered =>
    let answer := if answered then some (some (getEvents f.history [config.contractId])) else none
    { f with service := f.service.runOnce config answer delivered }

variable {config} {f : Feed}

variable (config f) in
/-- What a round whose request is answered posts. -/
theorem posted_step (c : FeedEvent) :
    (f.step config c).service.posted = f.service.posted ∧ ¬c.Polls ∨
      (f.step config c).service.posted = f.service.posted ++ getEvents f.history [config.contractId] ∧
        (f.step config c).history = f.history ∧ c.Polls := by
  cases c with
  | occur => exact .inl ⟨rfl, id⟩
  | runOnce answered delivered =>
    cases answered with
    | false =>
      refine .inl ⟨?_, Bool.false_ne_true⟩
      exact (Service.posted_runOnce ..).trans (List.append_nil _)
    | true => exact .inr ⟨Service.posted_runOnce .., rfl, rfl⟩

/-- The places of the events tell them apart, and only events of the contract have been posted. -/
structure WellFormed (config : NotificationServiceConfig) (f : Feed) : Prop where
  place : ∀ e ∈ f.history, e.place < f.history.length
  nodup : f.history.Nodup
  posted : ∀ e ∈ f.service.posted, e ∈ getEvents f.history [config.contractId]

theorem step_wellFormed (c : FeedEvent) (hf : f.WellFormed config) : (f.step config c).WellFormed config := by
  cases c with
  | occur payload =>
    refine ⟨?_, ?_, ?_⟩
    · intro e he
      rw [step, List.length_append, List.length_singleton]
      rcases List.mem_append.1 he with he | he
      · exact Nat.lt_succ_of_lt (hf.place e he)
      · rw [List.mem_singleton.1 he]
        exact Nat.lt_succ_self _
    · refine hf.nodup.append (List.nodup_singleton _) ?_
      intro e he hnew
      rw [List.mem_singleton.1 hnew] at he
      exact absurd (hf.place _ he) (Nat.lt_irrefl _)
    · intro e he
      rw [getEvents, step, List.filter_append]
      exact List.mem_append_left _ (hf.posted e he)
  | runOnce answered delivered =>
    refine ⟨hf.place, hf.nodup, ?_⟩
    intro e he
    rcases posted_step config f (.runOnce answered delivered) with ⟨h, _⟩ | ⟨h, _, _⟩
    · exact hf.posted e (h ▸ he)
    · rw [h] at he
      exact (List.mem_append.1 he).elim (hf.posted e) id

theorem run_wellFormed (cs : List FeedEvent) : (run (step config) .empty cs).WellFormed config :=
  run_invariant (fun _ c hf => step_wellFormed c hf)
    ⟨fun _ he => absurd he List.not_mem_nil, List.nodup_nil, fun _ he => absurd he List.not_mem_nil⟩ cs

/-- A round posts no event again exactly if nothing has been posted before, or its request is not
    answered. -/
theorem nodup_step (c : FeedEvent) (hf : f.WellFormed config) (h : f.service.posted.Nodup) :
    (f.step config c).service.posted.Nodup ↔ (c.Polls → f.service.posted = []) := by
  rcases posted_step config f c with ⟨hposted, hc⟩ | ⟨hposted, _, hc⟩
  · exact iff_of_true (hposted ▸ h) fun hpolls => absurd hpolls hc
  · rw [hposted, imp_iff_right hc, List.nodup_append]
    constructor
    · -- What has been posted before is posted again.
      rintro ⟨_, _, hdisjoint⟩
      refine List.eq_nil_iff_forall_not_mem.2 fun e he => ?_
      exact hdisjoint e he e (hf.posted e he) rfl
    · intro hnone
      refine ⟨h, hf.nodup.filter _, ?_⟩
      rw [hnone]
      nofun

/-- There are events of the contract if one of them has occurred. -/
theorem getEvents_run (cs : List FeedEvent) :
    getEvents (run (step config) .empty cs).history [config.contractId] = [] ↔
      ∀ c ∈ cs, ¬c.OccursIn config.contractId := by
  induction cs using List.reverseRecOn with
  | nil => exact iff_of_true rfl nofun
  | append_singleton cs c ih =>
    rw [run_concat]
    simp only [List.mem_append, List.mem_singleton, or_imp, forall_and, forall_eq, ← ih]
    cases c with
    | occur payload =>
      rw [step, getEvents, List.filter_append, List.append_eq_nil_iff]
      refine and_congr_right fun _ => ?_
      rw [List.filter_eq_nil_iff, List.forall_mem_singleton, FeedEvent.OccursIn, List.contains_iff_mem,
        List.mem_singleton]
    | runOnce answered delivered => exact (and_iff_left id).symm

/-- What has been posted stays posted. -/
theorem posted_prefix (f : Feed) (cs : List FeedEvent) :
    f.service.posted <+: (run (step config) f cs).service.posted := by
  refine run_invariant (I := fun g : Feed => f.service.posted <+: g.service.posted) ?_ (List.prefix_refl _) cs
  intro g c hg
  rcases posted_step config g c with ⟨hposted, _⟩ | ⟨hposted, _⟩
  · exact hposted ▸ hg
  · exact hposted ▸ hg.trans (List.prefix_append ..)

/-- Nothing has been posted if no answered request has found anything. -/
theorem posted_eq_nil_iff (cs : List FeedEvent) :
    (run (step config) .empty cs).service.posted = [] ↔
      Along (step config) (fun f c => ¬(c.Polls ∧ getEvents f.history [config.contractId] ≠ [])) .empty cs := by
  rw [← List.length_eq_zero_iff]
  refine (run_eq_iff (Q := fun _ _ => True) (I := fun _ : Feed => True) (f := fun f : Feed => f.service.posted.length)
    (fun _ _ _ _ => trivial) trivial (fun _ _ _ _ => trivial) ?_).2
  intro f c _ _
  rcases posted_step config f c with ⟨hposted, hc⟩ | ⟨hposted, _, hc⟩
  · exact .inr ⟨fun h => hc h.1, by rw [hposted]⟩
  · by_cases hnone : getEvents f.history [config.contractId] = []
    · exact .inr ⟨fun h => h.2 hnone, by rw [hposted, hnone, List.append_nil]⟩
    · refine .inl ⟨⟨hc, hnone⟩, ?_⟩
      rw [hposted, List.length_append]
      exact Nat.lt_add_of_pos_right (List.length_pos_iff.2 hnone)

end Feed

/-- In every run of rounds, whatever occurs in between and whichever requests are answered, each event is
    posted at most once exactly if no event of the contract has occurred before an answered request that
    is not the last one. -/
theorem posted_once_iff (config : NotificationServiceConfig) (cs : List FeedEvent) :
    (∀ e, (run (Feed.step config) .empty cs).service.posted.count e ≤ 1) ↔
      ∀ xs c ys, cs = xs ++ c :: ys → c.Polls → (∃ d ∈ ys, d.Polls) →
        ∀ o ∈ xs, ¬o.OccursIn config.contractId := by
  have hall : (∀ e, (run (Feed.step config) .empty cs).service.posted.count e ≤ 1) ↔
      ∀ zs, zs <+: cs → (run (Feed.step config) .empty zs).service.posted.Nodup := by
    rw [← List.nodup_iff_count_le_one]
    constructor
    · rintro hnodup zs ⟨ws, rfl⟩
      rw [run_append] at hnodup
      exact hnodup.sublist (Feed.posted_prefix _ ws).sublist
    · exact fun hall => hall cs (List.prefix_refl cs)
  rw [hall]
  refine (states_iff_along (s := Feed.empty) (P := fun f : Feed => f.service.posted.Nodup)
    (I := Feed.WellFormed config) (fun _ c hf => Feed.step_wellFormed c hf)
    (fun _ c hf h => Feed.nodup_step c hf h) (Feed.run_wellFormed []) List.nodup_nil).trans ?_
  constructor
  · -- The later request finds that nothing has been posted by the earlier one.
    rintro hnone xs c ys rfl hc ⟨d, hd, hpolls⟩
    obtain ⟨us, vs, rfl⟩ := List.append_of_mem hd
    have hposted := hnone (xs ++ c :: us) d vs (by rw [List.append_assoc, List.cons_append]) hpolls
    have hfound := (Feed.posted_eq_nil_iff _).1 hposted xs c us rfl
    exact (Feed.getEvents_run xs).1 (not_not.1 fun hne => hfound ⟨hc, hne⟩)
  · rintro hnone xs d ys rfl hd
    refine (Feed.posted_eq_nil_iff xs).2 ?_
    rintro as c bs rfl ⟨hc, hne⟩
    refine hne ((Feed.getEvents_run as).2 ?_)
    exact hnone as c (bs ++ d :: ys) (by rw [List.append_assoc, List.cons_append]) hc
      ⟨d, List.mem_append_right _ List.mem_cons_self, hd⟩

/-- The events of one contract are asked for, and posted to one webhook. -/
def sampleConfig : NotificationServiceConfig := ⟨"CONTRACT_ABC", "http://localhost:9000/hook"⟩

/-- The same event is posted by each of two rounds. -/
theorem posted_again :
    let vote : WebhookPayload := ⟨"CONTRACT_ABC", "vote_cast", 100, "GADDR"⟩
    let round : FeedEvent := .runOnce true fun _ => true
    let posted := (run (Feed.step sampleConfig) .empty [.occur vote, round, round]).service.posted
    posted = [⟨vote, 0⟩, ⟨vote, 0⟩] ∧ ¬∀ e, posted.count e ≤ 1 := by
  refine ⟨by decide, fun h => ?_⟩
  exact absurd (h ⟨⟨"CONTRACT_ABC", "vote_cast", 100, "GADDR"⟩, 0⟩) (by decide)

end CosmosVote.Backend
