import CosmosVote.Soroban.Replay
import CosmosVote.Governance.Outcome

/-!
# A replica of governance

An indexer that applies the events of governance, in the order they are published, to a state of
its own (`Replica.apply`) has what the contract stores of every proposal and of every vote. The
event of a vote that is retracted does not say for what it was: the replica finds that in its own
record of the vote.

* `Effect.replays`: each call publishes what it does;
* `governance_log_replica`: so the replay of the log is the contract, in every reachable state,
  and a proposal that was finalised has one event for that, any other none.
-/

namespace CosmosVote.Governance

open Soroban

variable {ω : Type}

/-- What can be told of a proposal from the events. -/
@[ext]
structure ProposalCopy where
  proposer : Address
  title : Text
  quorum : I128
  endTime : U64
  state : ProposalState
  tally : Vote → ℤ

/-- What can be told of governance from its events. -/
@[ext]
structure Replica where
  proposal : U64 → Option ProposalCopy
  record : U64 × Address → Option VoteRecord

/-- Add to the tally of a vote. -/
def ProposalCopy.count (p : ProposalCopy) (vote : Vote) (weight : ℤ) : ProposalCopy :=
  { p with tally := Function.update p.tally vote (p.tally vote + weight) }

namespace Replica

/-- The replica of a contract that has published nothing. -/
def empty : Replica where
  proposal _ := none
  record _ := none

variable (r : Replica)

/-- Edit a proposal. -/
def edit (id : U64) (f : ProposalCopy → ProposalCopy) : Replica :=
  { r with proposal := Function.update r.proposal id ((r.proposal id).map f) }

/-- Write the record of a vote. -/
def setRecord (id : U64) (voter : Address) (v : Option VoteRecord) : Replica :=
  { r with record := Function.update r.record (id, voter) v }

/-- Apply an event. Those of the configuration, of the admin and of the upgrades are skipped. -/
def apply : Event → Replica
  | .proposalCreated id proposer title quorum endTime =>
    { r with
      proposal := Function.update r.proposal id
        (some { proposer, title, quorum, endTime, state := .active, tally := fun _ => 0 }) }
  | .proposalAmended id _ _ newTitle _ _ => r.edit id fun p => { p with title := newTitle }
  | .voteCast id voter vote weight =>
    (r.edit id fun p => p.count vote weight.val).setRecord id voter (some ⟨vote, weight⟩)
  | .voteRetracted id voter weight =>
    match r.record (id, voter) with
    | some old => (r.edit id fun p => p.count old.vote (-weight.val)).setRecord id voter none
    | none => r
  | .voteChanged id voter oldVote newVote weight =>
    (r.edit id fun p => (p.count oldVote (-weight.val)).count newVote weight.val).setRecord id voter
      (some ⟨newVote, weight⟩)
  | .proposalFinalized id state => r.edit id fun p => { p with state := state }
  | .proposalExecuted id _ => r.edit id fun p => { p with state := .executed }
  | .proposalCancelled id _ _ => r.edit id fun p => { p with state := .cancelled }
  | .quorumUpdated id _ newQuorum => r.edit id fun p => { p with quorum := newQuorum }
  | _ => r

end Replica

/-- What the replica has of a proposal. -/
def Proposal.copy (p : Proposal) : ProposalCopy where
  proposer := p.proposer
  title := p.title
  quorum := p.quorum
  endTime := p.endTime
  state := p.state
  tally vote := (p.tally vote).val

/-- What the contract shows of itself. -/
def Store.replica (s : Store) : Replica where
  proposal id := (s.proposals.lookup id).map Proposal.copy
  record k := s.voteRecords.lookup k

theorem Store.replica_empty : Store.empty.replica = Replica.empty := rfl

/-- A tally that is written is counted up by the difference. -/
theorem Proposal.copy_setTally {p : Proposal} {vote : Vote} {v : I128} {weight : ℤ}
    (h : (p.tally vote).val + weight = v.val) : (p.setTally vote v).copy = p.copy.count vote weight := by
  have htally : (p.setTally vote v).copy.tally = (p.copy.count vote weight).tally := by
    funext w
    simp only [copy, ProposalCopy.count, tally_setTally, Function.update_apply]
    split
    · exact h.symm
    · rfl
  cases vote <;> exact ProposalCopy.ext rfl rfl rfl rfl rfl htally

/-- Finalising a proposal changes nothing of the copy but its state. -/
theorem Proposal.copy_withOutcome (p : Proposal) (total : I128) (weight : ℕ → I128) :
    (p.withOutcome total weight).copy = { p.copy with state := (p.withOutcome total weight).state } := by
  have hsame := p.withOutcome_eq total weight
  generalize p.withOutcome total weight = q at hsame ⊢
  rw [hsame]
  refine ProposalCopy.ext rfl rfl rfl rfl rfl ?_
  funext vote
  cases vote <;> rfl

/-- A proposal that is created has no votes. -/
theorem Proposal.copy_created (id : U64) (proposer : Address) (title description : Text) (link : Option Text)
    (quorum : I128) (startTime endTime : U64) (snapshotLedger : U32) (action : Option TreasuryAction) :
    (created id proposer title description link quorum startTime endTime snapshotLedger action).copy =
      { proposer, title, quorum, endTime, state := .active, tally := fun _ => 0 } := by
  refine ProposalCopy.ext rfl rfl rfl rfl rfl ?_
  funext vote
  cases vote <;> rfl

variable {s s' : Store} {env : Env ω} {op : Op} {o o' : ω}

/-- A write to a proposal edits its copy. -/
theorem Store.replica_proposal {id : U64} {p p' : Proposal} {f : ProposalCopy → ProposalCopy}
    (hp : s.proposals.lookup id = some p) (hcopy : p'.copy = f p.copy)
    (hproposals : s'.proposals = s.proposals.insert id p') :
    s'.replica.proposal = (s.replica.edit id f).proposal := by
  funext id'
  simp only [replica, Replica.edit, hproposals, Finmap.lookup_insert_eq_ite, Function.update_apply, hp]
  split
  · rw [Option.map_some, hcopy]
    rfl
  · rfl

/-- A write to a proposal, and to the record of a vote on it. -/
theorem Store.replica_vote {id : U64} {p p' : Proposal} {voter : Address} {v : Option VoteRecord}
    {f : ProposalCopy → ProposalCopy} (hp : s.proposals.lookup id = some p) (hcopy : p'.copy = f p.copy)
    (hproposals : s'.proposals = s.proposals.insert id p')
    (hrecords : ∀ k, s'.voteRecords.lookup k = if k = (id, voter) then v else s.voteRecords.lookup k) :
    s'.replica = (s.replica.edit id f).setRecord id voter v := by
  refine Replica.ext (replica_proposal hp hcopy hproposals) ?_
  funext k
  simp only [replica, Replica.edit, Replica.setRecord, hrecords, Function.update_apply]

/-- A write to a proposal that leaves the votes as they are. -/
theorem Store.replica_edit {id : U64} {p p' : Proposal} {f : ProposalCopy → ProposalCopy}
    (hp : s.proposals.lookup id = some p) (hcopy : p'.copy = f p.copy)
    (hproposals : s'.proposals = s.proposals.insert id p') (hrecords : s'.voteRecords = s.voteRecords) :
    s'.replica = s.replica.edit id f := by
  refine Replica.ext (replica_proposal hp hcopy hproposals) ?_
  simp only [replica, Replica.edit, hrecords]

/-- Every call publishes what it does. -/
theorem Effect.replays (h : Effect env s o op s' o') :
    Replays Store.events Store.replica Replica.apply s s' := by
  cases h with
  | createProposal =>
    refine .event rfl (Replica.ext ?_ rfl)
    funext id
    simp only [Store.replica, Replica.apply, Store.emit, Store.setLastProposal, Store.setActiveProposalCount,
      Store.setProposalCount, Store.setProposal, Finmap.lookup_insert_eq_ite, Function.update_apply]
    split
    · rw [Option.map_some, Proposal.copy_created]
    · rfl
  | amendProposal _ _ hp => exact .event rfl (Store.replica_edit hp rfl rfl rfl)
  | castVote _ _ hp _ _ _ _ _ _ _ _ _ _ htotal =>
    refine .event rfl (Store.replica_vote hp ?_ rfl fun k => Finmap.lookup_insert_eq_ite ..)
    exact Proposal.copy_setTally htotal
  | @retractVote voter id p r _ _ _ hp _ _ _ _ hr htotal =>
    refine .event rfl ?_
    have hrecord : s.replica.record (id, voter) = some r := hr
    simp only [Replica.apply, hrecord]
    refine Store.replica_vote hp ?_ rfl fun k => Finmap.lookup_erase_eq_ite ..
    rw [sub_eq_add_neg] at htotal
    exact Proposal.copy_setTally htotal
  | changeVote _ _ hp _ _ _ _ _ hne hless hmore =>
    refine .event rfl (Store.replica_vote hp ?_ rfl fun k => Finmap.lookup_insert_eq_ite ..)
    rw [sub_eq_add_neg] at hless
    rw [← Proposal.copy_setTally hless]
    refine Proposal.copy_setTally ?_
    rwa [Proposal.tally_setTally, if_neg (Ne.symm hne)]
  | @finalise id p total _ hp =>
    exact .event rfl (Store.replica_edit hp (p.copy_withOutcome total (s.choiceWeight id)) rfl rfl)
  | execute _ _ hp => exact .event rfl (Store.replica_edit hp rfl rfl rfl)
  | executeDisburse _ _ hp => exact .event rfl (Store.replica_edit hp rfl rfl rfl)
  | cancel _ _ hp => exact .event rfl (Store.replica_edit hp rfl rfl rfl)
  | updateQuorum _ _ _ _ _ _ hp => exact .event rfl (Store.replica_edit hp rfl rfl rfl)
  | _ => exact .event rfl rfl

/-! ## The events of finalised proposals -/

/-- The event says that the proposal `id` has been finalised. -/
def Event.isFinal (id : U64) : Event → Bool
  | .proposalFinalized id' _ => id' = id
  | _ => false

/-- The call is a successful `finalise` of the proposal `id`. -/
def Finalises (id : U64) (s : Store) (i : Input ω) : Prop := i.op = .finalise id ∧ Succeeds s i

/-- The number of events that say that the proposal `id` has been finalised. -/
def Store.finals (s : Store) (id : U64) : ℕ := s.events.countP (Event.isFinal id)

theorem Store.finals_emit (s : Store) (e : Event) (id : U64) :
    (s.emit e).finals id = s.finals id + if e.isFinal id then 1 else 0 := by
  rw [finals, emit, List.countP_append, List.countP_singleton, finals]

/-- Only `finalise` publishes such an event, one for the proposal that it names. -/
theorem Effect.finals (h : Effect env s o op s' o') (id : U64) :
    s'.finals id = s.finals id + if op = .finalise id then 1 else 0 := by
  cases h with
  | @finalise id' =>
    refine (Store.finals_emit ..).trans ?_
    simp only [Event.isFinal, decide_eq_true_eq, Op.finalise.injEq]
    rfl
  | _ => exact Store.finals_emit ..

variable {is : List (Input ω)} {id : U64}

theorem step_finals {i : Input ω} (hi : Finalises id s i) : (step s i).finals id = s.finals id + 1 := by
  obtain ⟨o, he⟩ := hi.2.effect_of hi.1
  rw [he.finals, if_pos rfl]

/-- Without a successful `finalise` there is no such event. -/
theorem run_finals (hnone : Along step (fun s i => ¬Finalises id s i) s is) :
    (run step s is).finals id = s.finals id := by
  refine run_eq_of_none (f := fun t : Store => t.finals id) (Q := (· = .finalise id)) ?_ hnone
  intro t i t' o he hop
  rw [he.finals, if_neg hop, add_zero]

/-- `finalise` finds the proposal active, and closes it. -/
theorem Effect.finalised (h : Effect env s o (.finalise id) s' o') :
    (∃ p, s.proposals.lookup id = some p ∧ p.state = .active) ∧
    ∃ p, s'.proposals.lookup id = some p ∧ p.state ≠ .active := by
  cases h with
  | finalise _ hp hstate =>
    exact ⟨⟨_, hp, hstate⟩, _, Finmap.lookup_insert _, Proposal.withOutcome_state_ne _ _ _⟩

/-- A proposal that has been finalised is not finalised again. -/
theorem Finalises.not_again {xs ys : List (Input ω)} {i j : Input ω}
    (hi : Finalises id (run step Store.empty xs) i) :
    ¬Finalises id (run step Store.empty (xs ++ i :: ys)) j := by
  rintro ⟨hop, hj⟩
  obtain ⟨o, he⟩ := hi.2.effect_of hi.1
  obtain ⟨_, p, hp, hclosed⟩ := he.finalised
  obtain ⟨p', hset⟩ := run_settled (step_wellFormed _ i (run_wellFormed xs)) hp hclosed ys
  rw [run_append, run_cons] at hj
  obtain ⟨o', he'⟩ := hj.effect_of hop
  obtain ⟨⟨q, hq, hactive⟩, _⟩ := he'.finalised
  rw [hset.lookup] at hq
  exact hset.closed (Option.some_inj.1 hq ▸ hactive)

/-- A proposal that is finalised in a run has one event for that at its end. -/
theorem Finalises.finals_eq {xs : List (Input ω)} {i : Input ω}
    (hi : Finalises id (run step Store.empty xs) i) (ys : List (Input ω)) :
    (run step Store.empty (xs ++ i :: ys)).finals id = 1 := by
  -- It is not finalised before that, as then this would be the second time.
  have hbefore : Along step (fun s j => ¬Finalises id s j) Store.empty xs := by
    rintro zs j ws rfl hj
    exact hj.not_again hi
  have hafter : Along step (fun s j => ¬Finalises id s j) (step (run step Store.empty xs) i) ys := by
    rintro zs j _ rfl hj
    rw [← run_cons, ← run_append] at hj
    exact hi.not_again hj
  rw [run_append, run_cons, run_finals hafter, step_finals hi, run_finals hbefore]
  rfl

/-- In every reachable state, whoever replays the events of governance from the first one on has, of every
    proposal that exists, the proposer, the title, the quorum, the end of the voting period, the state and
    the tallies, and has the record of every vote; and there is one event that a proposal has been
    finalised for each that was, and none for any other. -/
theorem governance_log_replica (is : List (Input ω)) :
    let s := run step Store.empty is
    let r := replay Replica.apply Replica.empty s.events
    (∀ id, r.proposal id = (s.proposals.lookup id).map Proposal.copy) ∧
    (∀ id voter, r.record (id, voter) = s.voteRecords.lookup (id, voter)) ∧
    ∀ id, ((∃ xs i ys, is = xs ++ i :: ys ∧ Finalises id (run step Store.empty xs) i) → s.finals id = 1) ∧
      ((¬∃ xs i ys, is = xs ++ i :: ys ∧ Finalises id (run step Store.empty xs) i) → s.finals id = 0) := by
  have hreplays (s : Store) (i : Input ω) : Replays Store.events Store.replica Replica.apply s (step s i) :=
    step_invariant (I := fun t => Replays Store.events Store.replica Replica.apply s t) (.silent rfl rfl)
      fun _ _ he => he.replays
  have hr := replay_run hreplays (s := Store.empty) rfl is
  rw [Store.replica_empty] at hr
  intro s r
  rw [show r = s.replica from hr]
  refine ⟨fun _ => rfl, fun _ _ => rfl, fun id => ⟨?_, fun hnone => ?_⟩⟩
  · rintro ⟨xs, i, ys, rfl, hi⟩
    exact hi.finals_eq ys
  · refine (run_finals fun xs i ys his hi => hnone ⟨xs, i, ys, his, hi⟩).trans ?_
    rfl

end CosmosVote.Governance
