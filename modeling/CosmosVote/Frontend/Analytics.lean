import Mathlib.Data.List.Perm.Basic
import CosmosVote.Soroban.Run

/-!
# The queue of analytics events

The module keeps the events in memory and in `localStorage`, and sends them in batches. A batch leaves both as it
is sent, and comes back to both if its fetch fails; but by then the page may have been unloaded.

* `balanced`: in any case, an event is delivered, in the queue, in flight, or in a batch that has outlived its
  page;
* `events_survive_iff`: none is lost sight of exactly if no batch is in flight whenever the page is unloaded.
-/

namespace CosmosVote.Frontend

open Soroban

structure AnalyticsEvent (π : Type) where
  name : String
  props : Option π
  sessionId : String
  ts : ℕ
  deriving DecidableEq

/-- `BATCH_SIZE` -/
def batchSize : ℕ := 10

/-- The module on a page, with `localStorage`, the fetches under way, and what has become of the events. -/
structure Analytics (π : Type) where
  sessionId : String
  queue : List (AnalyticsEvent π)
  /-- `_analytics_queue` in `localStorage`. -/
  stored : List (AnalyticsEvent π)
  inFlight : List (List (AnalyticsEvent π))
  /-- Batches in flight whose page has been unloaded. -/
  outlived : List (List (AnalyticsEvent π))
  delivered : List (AnalyticsEvent π)
  /-- The events of those of them whose fetch has failed. -/
  lost : List (AnalyticsEvent π)
  tracked : List (AnalyticsEvent π)

/-- What can happen to the module, which is enabled and has an endpoint. -/
inductive AnalyticsInput (π : Type)
  | trackEvent (name : String) (props : Option π) (now : ℕ)
  /-- The interval elapses, or the page is hidden. -/
  | flush
  /-- The fetch of a batch of the page completes or fails. -/
  | settle (k : ℕ) (completes : Bool)
  /-- The page is unloaded, and loaded again. -/
  | reload (sessionId : String)
  /-- The fetch of a batch that has outlived its page completes or fails. -/
  | settleOutlived (k : ℕ) (completes : Bool)

namespace Analytics

variable {π : Type} (s : Analytics π)

/-- The first page. -/
def empty (sessionId : String) : Analytics π := ⟨sessionId, [], [], [], [], [], [], []⟩

def persist : Analytics π := { s with stored := s.queue }

/-- The part of `flush` before its `await`. -/
def flush : Analytics π :=
  if s.queue = [] then s
  else { s with queue := [], inFlight := s.inFlight ++ [s.queue] }.persist

def trackEvent (name : String) (props : Option π) (now : ℕ) : Analytics π :=
  let event : AnalyticsEvent π := { name, props, sessionId := s.sessionId, ts := now }
  let s := { s with queue := s.queue ++ [event], tracked := s.tracked ++ [event] }.persist
  if batchSize ≤ s.queue.length then s.flush else s

/-- The part of `flush` after its `await`, which does nothing if the fetch completes. -/
def settle (batch : List (AnalyticsEvent π)) (completes : Bool) : Analytics π :=
  if completes then { s with delivered := s.delivered ++ batch }
  else { s with queue := batch ++ s.queue }.persist

/-- The page is gone, with its queue; the next one reads the queue from `localStorage`. -/
def reload (sessionId : String) : Analytics π :=
  { s with
    sessionId
    queue := s.stored
    inFlight := []
    outlived := s.outlived ++ s.inFlight }

/-- Nobody is left to put the batch back into the queue. -/
def settleOutlived (batch : List (AnalyticsEvent π)) (completes : Bool) : Analytics π :=
  if completes then { s with delivered := s.delivered ++ batch } else { s with lost := s.lost ++ batch }

def step (s : Analytics π) : AnalyticsInput π → Analytics π
  | .trackEvent name props now => s.trackEvent name props now
  | .flush => s.flush
  | .settle k completes =>
    match s.inFlight[k]? with
    | some batch => { s with inFlight := s.inFlight.eraseIdx k }.settle batch completes
    | none => s
  | .reload sessionId => s.reload sessionId
  | .settleOutlived k completes =>
    match s.outlived[k]? with
    | some batch => { s with outlived := s.outlived.eraseIdx k }.settleOutlived batch completes
    | none => s

/-- Every tracked event is delivered, in the queue, or in a batch in flight of the page, as often as it was
    tracked. -/
def Conserved : Prop := s.tracked.Perm (s.delivered ++ s.queue ++ s.inFlight.flatten)

/-- The queue is stored, no batch is empty, and every tracked event is somewhere. -/
structure Balanced : Prop where
  stored : s.stored = s.queue
  inFlight : ∀ b ∈ s.inFlight, b ≠ []
  outlived : ∀ b ∈ s.outlived, b ≠ []
  tracked : s.tracked.Perm (s.delivered ++ s.queue ++ s.inFlight.flatten ++ (s.outlived.flatten ++ s.lost))

variable {s}

theorem Balanced.empty (sessionId : String) : (Analytics.empty sessionId : Analytics π).Balanced :=
  ⟨rfl, by simp [Analytics.empty], by simp [Analytics.empty], .nil⟩

/-- Nothing is lost sight of exactly if no batch has outlived its page. -/
theorem Balanced.conserved_iff (h : s.Balanced) : s.Conserved ↔ s.outlived = [] ∧ s.lost = [] := by
  constructor
  · intro hc
    have hlength := (h.tracked.symm.trans hc).length_eq
    simp only [List.length_append] at hlength
    have hflatten := List.length_eq_zero_iff.1 (show s.outlived.flatten.length = 0 by omega)
    refine ⟨List.eq_nil_iff_forall_not_mem.2 fun b hb => h.outlived b hb ?_, List.length_eq_zero_iff.1 (by omega)⟩
    exact List.flatten_eq_nil_iff.1 hflatten b hb
  · rintro ⟨houtlived, hlost⟩
    have htracked := h.tracked
    rwa [houtlived, hlost, List.flatten_nil, List.append_nil, List.append_nil] at htracked

theorem Balanced.flush (h : s.Balanced) : s.flush.Balanced := by
  rw [Analytics.flush]
  split
  · exact h
  · rename_i hne
    refine ⟨rfl, ?_, h.outlived, ?_⟩
    · intro b hb
      rcases List.mem_append.1 hb with hb | hb
      · exact h.inFlight b hb
      · rwa [List.mem_singleton.1 hb]
    · refine h.tracked.trans (List.Perm.append_right _ ?_)
      simp only [persist, List.append_nil, List.flatten_append, List.flatten_singleton, List.append_assoc]
      exact List.Perm.append_left _ List.perm_append_comm

theorem Balanced.trackEvent (h : s.Balanced) (name : String) (props : Option π) (now : ℕ) :
    (s.trackEvent name props now).Balanced := by
  have hpush : (persist { s with
      queue := s.queue ++ [⟨name, props, s.sessionId, now⟩]
      tracked := s.tracked ++ [⟨name, props, s.sessionId, now⟩] }).Balanced := by
    classical
    refine ⟨rfl, h.inFlight, h.outlived, List.perm_iff_count.2 fun e => ?_⟩
    have htracked := h.tracked.count_eq e
    simp only [persist, List.count_append] at htracked ⊢
    omega
  rw [Analytics.trackEvent]
  split
  · exact hpush.flush
  · exact hpush

/-- A batch that is taken out of some. -/
theorem count_flatten_eraseIdx {α : Type} [DecidableEq α] {bs : List (List α)} {k : ℕ} {b : List α}
    (hb : bs[k]? = some b) (e : α) :
    bs.flatten.count e = b.count e + (bs.eraseIdx k).flatten.count e := by
  obtain ⟨hlt, rfl⟩ := List.getElem?_eq_some_iff.1 hb
  rw [← (List.getElem_cons_eraseIdx_perm hlt).flatten.count_eq e, List.flatten_cons, List.count_append]

theorem Balanced.settle (h : s.Balanced) {k : ℕ} {b : List (AnalyticsEvent π)} (hb : s.inFlight[k]? = some b)
    (completes : Bool) : ({ s with inFlight := s.inFlight.eraseIdx k }.settle b completes).Balanced := by
  classical
  have hrest : ∀ b ∈ s.inFlight.eraseIdx k, b ≠ [] := fun b hb => h.inFlight b (List.mem_of_mem_eraseIdx hb)
  rw [Analytics.settle]
  split
  · refine ⟨h.stored, hrest, h.outlived, List.perm_iff_count.2 fun e => ?_⟩
    have htracked := h.tracked.count_eq e
    have hbatch := count_flatten_eraseIdx hb e
    simp only [List.count_append] at htracked ⊢
    omega
  · refine ⟨rfl, hrest, h.outlived, List.perm_iff_count.2 fun e => ?_⟩
    have htracked := h.tracked.count_eq e
    have hbatch := count_flatten_eraseIdx hb e
    simp only [persist, List.count_append] at htracked ⊢
    omega

/-- The queue is loaded as it was; what was in flight has outlived its page. -/
theorem Balanced.reload (h : s.Balanced) (sessionId : String) : (s.reload sessionId).Balanced := by
  classical
  refine ⟨rfl, by simp [Analytics.reload], ?_, List.perm_iff_count.2 fun e => ?_⟩
  · intro b hb
    rcases List.mem_append.1 hb with hb | hb
    · exact h.outlived b hb
    · exact h.inFlight b hb
  · have htracked := h.tracked.count_eq e
    simp only [Analytics.reload, h.stored, List.count_append, List.flatten_append, List.flatten_nil,
      List.count_nil] at htracked ⊢
    omega

theorem Balanced.settleOutlived (h : s.Balanced) {k : ℕ} {b : List (AnalyticsEvent π)}
    (hb : s.outlived[k]? = some b) (completes : Bool) :
    ({ s with outlived := s.outlived.eraseIdx k }.settleOutlived b completes).Balanced := by
  classical
  have hrest : ∀ b ∈ s.outlived.eraseIdx k, b ≠ [] := fun b hb => h.outlived b (List.mem_of_mem_eraseIdx hb)
  rw [Analytics.settleOutlived]
  split
  all_goals
    refine ⟨h.stored, h.inFlight, hrest, List.perm_iff_count.2 fun e => ?_⟩
    have htracked := h.tracked.count_eq e
    have hbatch := count_flatten_eraseIdx hb e
    simp only [List.count_append] at htracked ⊢
    omega

theorem step_balanced (s : Analytics π) (c : AnalyticsInput π) (h : s.Balanced) : (s.step c).Balanced := by
  cases c with
  | trackEvent name props now => exact h.trackEvent name props now
  | flush => exact h.flush
  | settle k completes =>
    rw [step]
    split
    · rename_i b hb
      exact h.settle hb completes
    · exact h
  | reload sessionId => exact h.reload sessionId
  | settleOutlived k completes =>
    rw [step]
    split
    · rename_i b hb
      exact h.settleOutlived hb completes
    · exact h

/-- Nothing that happens on a page makes its batches outlive it. -/
theorem outlived_flush (s : Analytics π) : s.flush.outlived = s.outlived ∧ s.flush.lost = s.lost := by
  rw [flush]
  split <;> exact ⟨rfl, rfl⟩

theorem outlived_step (s : Analytics π) (c : AnalyticsInput π) (houtlived : s.outlived = []) (hlost : s.lost = []) :
    (s.step c).lost = [] ∧ ((s.step c).outlived = [] ↔ ∀ sessionId, c = .reload sessionId → s.inFlight = []) := by
  cases c with
  | trackEvent name props now =>
    have hstep : (s.trackEvent name props now).outlived = [] ∧ (s.trackEvent name props now).lost = [] := by
      rw [trackEvent]
      split
      · rw [(outlived_flush _).1, (outlived_flush _).2]
        exact ⟨houtlived, hlost⟩
      · exact ⟨houtlived, hlost⟩
    exact ⟨hstep.2, iff_of_true hstep.1 (by simp)⟩
  | flush =>
    rw [step, (outlived_flush s).1, (outlived_flush s).2]
    exact ⟨hlost, iff_of_true houtlived (by simp)⟩
  | settle k completes =>
    have hstep : (s.step (.settle k completes)).outlived = [] ∧ (s.step (.settle k completes)).lost = [] := by
      rw [step]
      split
      · rw [settle]
        split <;> exact ⟨houtlived, hlost⟩
      · exact ⟨houtlived, hlost⟩
    exact ⟨hstep.2, iff_of_true hstep.1 (by simp)⟩
  | reload sessionId =>
    refine ⟨hlost, ?_⟩
    change s.outlived ++ s.inFlight = [] ↔ _
    rw [houtlived, List.nil_append]
    exact ⟨fun h _ _ => h, fun h => h sessionId rfl⟩
  | settleOutlived k completes =>
    have hstep : s.step (.settleOutlived k completes) = s := by
      rw [step, houtlived, List.getElem?_nil]
    rw [hstep]
    exact ⟨hlost, iff_of_true houtlived (by simp)⟩

end Analytics

/-- Whatever the order of events, flushes, ends of fetches and reloads, every tracked event is delivered, in the
    queue, in flight, or in a batch that has outlived its page. -/
theorem balanced {π : Type} (sessionId : String) (cs : List (AnalyticsInput π)) :
    (run Analytics.step (.empty sessionId) cs).Balanced :=
  run_invariant Analytics.step_balanced (.empty sessionId) cs

/-- And in every state of a run, it is delivered, in the queue or in flight, exactly if no batch is in flight
    whenever the page is unloaded. -/
theorem events_survive_iff {π : Type} (sessionId : String) (cs : List (AnalyticsInput π)) :
    (∀ zs, zs <+: cs → (run Analytics.step (.empty sessionId) zs).Conserved) ↔
      Along Analytics.step (fun s c => ∀ sessionId, c = .reload sessionId → s.inFlight = []) (.empty sessionId) cs := by
  refine states_iff_along Analytics.step_balanced (fun s c hs hP => ?_) (.empty sessionId) .nil
  obtain ⟨houtlived, hlost⟩ := hs.conserved_iff.1 hP
  obtain ⟨hstep, hiff⟩ := Analytics.outlived_step s c houtlived hlost
  rw [(Analytics.step_balanced s c hs).conserved_iff, and_iff_left hstep, hiff]

/-- An event is flushed, and the page is unloaded before the fetch fails. -/
theorem event_lost :
    let cs : List (AnalyticsInput ℕ) := [.trackEvent "vote_cast" none 0, .flush, .reload "b", .settleOutlived 0 false]
    let s := run Analytics.step (.empty "a") cs
    s.tracked = [⟨"vote_cast", none, "a", 0⟩] ∧ s.delivered = [] ∧ s.queue = [] ∧ s.inFlight = [] ∧ ¬s.Conserved := by
  intro cs s
  refine ⟨rfl, rfl, rfl, rfl, fun h => ?_⟩
  exact absurd h.length_eq (by decide)

end CosmosVote.Frontend
