import CosmosVote.Governance.Independence
import CosmosVote.Governance.Voters

/-!
# The life of a proposal in the log

Of the events that governance publishes about a proposal, some are milestones: it is created, voted on,
finalised, and executed or cancelled. In the log of every run, they come in the order of such a life, and they
tell how far it has come (`trail_exact`): as many votes are cast as the proposal counts voters, and there is one
event for each change of its state, and none for anything else.
-/

namespace CosmosVote.Governance

open Soroban

variable {ω : Type}

inductive Milestone
  | created
  | voted
  | finalised
  | executed
  | cancelled
  deriving DecidableEq

def Event.milestone : Event → Option Milestone
  | .proposalCreated _ _ _ _ _ => some .created
  | .voteCast _ _ _ _ => some .voted
  | .proposalFinalized _ _ => some .finalised
  | .proposalExecuted _ _ => some .executed
  | .proposalCancelled _ _ _ => some .cancelled
  | _ => none

/-- The milestones of the proposal `id`, in their order. -/
def Store.trail (s : Store) (id : U64) : List Milestone := (s.eventsOf id).filterMap Event.milestone

/-- The milestones that come after the votes. -/
def ProposalState.ending : ProposalState → List Milestone
  | .active => []
  | .passed => [.finalised]
  | .rejected => [.finalised]
  | .executed => [.finalised, .executed]
  | .cancelled => [.cancelled]

/-- The milestones of a proposal that has come so far. -/
def Proposal.trail (p : Proposal) : List Milestone :=
  .created :: (List.replicate p.voterCount.val.toNat .voted ++ p.state.ending)

/-- The log has the milestones of every proposal, and no others. -/
def Told (s : Store) : Prop := ∀ id, s.trail id = (s.proposals.lookup id).elim [] Proposal.trail

variable {s s' : Store} {env : Env ω} {op : Op} {o o' : ω} {id : U64} {p p' : Proposal} {e : Event}

theorem Store.trail_eq (hevents : s'.events = s.events ++ [e]) (id : U64) :
    s'.trail id = s.trail id ++ if e.proposal = some id then e.milestone.toList else [] := by
  rw [Store.trail, Store.eventsOf, hevents, List.filter_append, List.filterMap_append, Store.trail, Store.eventsOf]
  by_cases hid : e.proposal = some id
  · simp only [List.filter_cons, hid, decide_true, if_true, List.filter_nil, List.filterMap_cons]
    cases e.milestone <;> rfl
  · simp only [List.filter_cons, hid, decide_false, Bool.false_eq_true, if_false, List.filter_nil, List.filterMap_nil]

/-- A call that writes no proposal tells no milestone. -/
theorem Told.config (hs : Told s) (hproposals : s'.proposals = s.proposals) (hevents : s'.events = s.events ++ [e])
    (he : e.proposal = none) : Told s' := fun id => by
  rw [Store.trail_eq hevents, he, if_neg (Option.some_ne_none id).symm, List.append_nil, hs, hproposals]

/-- A call that writes a proposal tells what has come of it. -/
theorem Told.write (hs : Told s) (hproposals : s'.proposals = s.proposals.insert id p')
    (hevents : s'.events = s.events ++ [e]) (he : e.proposal = some id)
    (htrail : p'.trail = (s.proposals.lookup id).elim [] Proposal.trail ++ e.milestone.toList) : Told s' := by
  intro id'
  rw [Store.trail_eq hevents, hs, hproposals, Finmap.lookup_insert_eq_ite, he]
  by_cases hid : id' = id
  · rw [hid, if_pos rfl, if_pos rfl, Option.elim_some, htrail]
  · rw [if_neg fun h => hid (Option.some_inj.1 h).symm, if_neg hid, List.append_nil]

/-- A proposal whose state and count of voters are kept has come no further. -/
theorem Proposal.trail_congr (hstate : p'.state = p.state) (hcount : p'.voterCount = p.voterCount) :
    p'.trail = p.trail := by
  rw [Proposal.trail, hstate, hcount, Proposal.trail]

/-- A milestone comes after the votes. -/
theorem Proposal.trail_ending {m : Milestone} (hcount : p'.voterCount = p.voterCount)
    (hstate : p'.state.ending = p.state.ending ++ [m]) : p'.trail = p.trail ++ [m] := by
  rw [Proposal.trail, hcount, hstate, Proposal.trail, List.cons_append, List.append_assoc]

/-- A vote comes after the other ones. -/
theorem Proposal.trail_voted (hactive : p.state = .active) (hstate : p'.state = p.state)
    (hcount : p.voterCount.val + 1 = p'.voterCount.val) : p'.trail = p.trail ++ [.voted] := by
  have hlo := p.voterCount.lo_le
  have hvotes : p'.voterCount.val.toNat = p.voterCount.val.toNat + 1 := by omega
  rw [Proposal.trail, hstate, hactive, hvotes, Proposal.trail, hactive, List.replicate_succ', ProposalState.ending,
    List.append_nil, List.append_nil, List.cons_append]

theorem Told.of_effect (hs : Told s) (hw : WellFormed s) (h : Effect env s o op s' o') : Told s' := by
  cases h with
  | createProposal =>
    refine hs.write rfl rfl rfl ?_
    rw [hw.next_none]
    rfl
  | amendProposal _ _ hp =>
    refine hs.write rfl rfl rfl ?_
    rw [hp]
    exact (Proposal.trail_congr rfl rfl).trans (List.append_nil _).symm
  | castVote _ _ hp hstate _ _ _ _ _ _ _ _ _ _ hcount =>
    refine hs.write rfl rfl rfl ?_
    rw [hp]
    exact Proposal.trail_voted hstate (Proposal.setTally_state _ _ _) hcount
  | retractVote _ _ hp =>
    refine hs.write rfl rfl rfl ?_
    rw [hp]
    refine (Proposal.trail_congr (Proposal.setTally_state _ _ _) ?_).trans (List.append_nil _).symm
    exact Proposal.setTally_voterCount _ _ _
  | changeVote _ _ hp =>
    refine hs.write rfl rfl rfl ?_
    rw [hp]
    refine (Proposal.trail_congr ?_ ?_).trans (List.append_nil _).symm
    · rw [Proposal.setTally_state, Proposal.setTally_state]
    · rw [Proposal.setTally_voterCount, Proposal.setTally_voterCount]
  | finalise _ hp hstate =>
    refine hs.write rfl rfl rfl ?_
    rw [hp]
    refine Proposal.trail_ending ?_ ?_
    · rw [Proposal.withOutcome_eq]
    · rw [hstate]
      rcases Proposal.withOutcome_state _ _ _ with h | h <;> rw [h] <;> rfl
  | execute _ _ hp hstate =>
    refine hs.write rfl rfl rfl ?_
    rw [hp]
    exact Proposal.trail_ending rfl (by rw [hstate]; rfl)
  | executeDisburse _ _ hp hstate =>
    refine hs.write rfl rfl rfl ?_
    rw [hp]
    exact Proposal.trail_ending rfl (by rw [hstate]; rfl)
  | cancel _ _ hp hstate =>
    refine hs.write rfl rfl rfl ?_
    rw [hp]
    exact Proposal.trail_ending rfl (by rw [hstate]; rfl)
  | updateQuorum _ _ _ _ _ _ hp =>
    refine hs.write rfl rfl rfl ?_
    rw [hp]
    exact (Proposal.trail_congr rfl rfl).trans (List.append_nil _).symm
  | _ => exact hs.config rfl rfl rfl

theorem run_told (is : List (Input ω)) : Told (run step Store.empty is) :=
  run_effects .empty (fun _ => rfl) (fun _ _ _ _ ht htold he => htold.of_effect ht he) is

/-- In every reachable state, the milestones of a proposal in the log are its creation, as many votes as it
    counts voters, and then how it has ended: nothing if it is active, that it was finalised if it has passed or
    been rejected, and also that it was executed if it was, or that it was cancelled; and there are none for a
    proposal that there is not. -/
theorem trail_exact (is : List (Input ω)) (id : U64) :
    (run step Store.empty is).trail id =
      ((run step Store.empty is).proposals.lookup id).elim [] Proposal.trail := run_told is id

/-! ## Counting -/

/-- Elements with a key are counted key by key. -/
theorem sum_countP_eq {ε κ : Type*} [DecidableEq κ] {key : ε → Option κ} {P : ε → Bool} {S : Finset κ} {l : List ε}
    (h : ∀ e ∈ l, P e → ∃ k ∈ S, key e = some k) :
    ∑ k ∈ S, l.countP (fun e => P e && decide (key e = some k)) = l.countP P := by
  induction l with
  | nil => exact Finset.sum_const_zero
  | cons e l ih =>
    obtain ⟨he, hl⟩ := List.forall_mem_cons.1 h
    simp only [List.countP_cons, Finset.sum_add_distrib, ih hl, Nat.add_left_cancel_iff]
    by_cases hP : P e
    · obtain ⟨k, hk, hkey⟩ := he hP
      simp [hP, hkey, hk]
    · simp [hP]

theorem Store.count_trail (s : Store) (id : U64) (m : Milestone) :
    (s.trail id).count m = s.events.countP fun e => e.milestone == some m && decide (e.proposal = some id) := by
  rw [Store.trail, List.count_filterMap, Store.eventsOf, List.countP_filter]

/-- A milestone is one of a proposal. -/
theorem Event.proposal_of_milestone {m : Milestone} (h : e.milestone = some m) : ∃ id, e.proposal = some id := by
  cases e <;> cases h <;> exact ⟨_, rfl⟩

/-- The log has the milestones of all proposals together. -/
theorem Told.count_eq (hs : Told s) (m : Milestone) :
    ((s.events.filterMap Event.milestone).count m : ℤ) = s.proposals.sum fun _ p => (p.trail.count m : ℤ) := by
  have hkeys : ∀ e ∈ s.events, e.milestone == some m → ∃ id ∈ s.proposals.keys, e.proposal = some id := by
    intro e he hm
    obtain ⟨id, hid⟩ := Event.proposal_of_milestone (beq_iff_eq.1 hm)
    refine ⟨id, ?_, hid⟩
    have hpos : 0 < (s.trail id).count m := by
      rw [s.count_trail id m, List.countP_pos_iff]
      exact ⟨e, he, by rw [hm, hid]; simp⟩
    rw [hs id] at hpos
    rw [Finmap.mem_keys_iff]
    cases hp : s.proposals.lookup id with
    | none =>
      rw [hp] at hpos
      exact absurd hpos (Nat.lt_irrefl 0)
    | some p => rfl
  rw [List.count_filterMap, ← sum_countP_eq hkeys, Nat.cast_sum, Finmap.sum]
  refine Finset.sum_congr rfl fun id _ => ?_
  rw [← s.count_trail id m, hs id, Finmap.termAt]
  cases s.proposals.lookup id <;> rfl

/-- A milestone that only the proposals in one state have reached is told once for each of them. -/
theorem Told.count_state (hs : Told s) {m : Milestone} {x : ProposalState} (hcreated : m ≠ .created)
    (hvoted : m ≠ .voted) (hm : ∀ y : ProposalState, y.ending.count m = if y = x then 1 else 0) :
    (s.events.filterMap Event.milestone).count m = (s.proposals.keysWith fun p => p.state = x).card := by
  rw [← Nat.cast_inj (R := ℤ), hs.count_eq, Finmap.card_keysWith]
  refine Finmap.sum_congr fun id p _ => ?_
  rw [Proposal.trail, List.count_cons_of_ne hcreated.symm, List.count_append, List.count_replicate, hm,
    if_neg (by simpa using hvoted.symm), Nat.zero_add]
  split <;> rfl

end CosmosVote.Governance
