import CosmosVote.Soroban.Entries
import CosmosVote.Treasury

/-!
# The governance contract

Proposals are created by holders of the voting token, voted on, finalised after
their voting period, and then executed by the admin, who may attach a disbursement
of the treasury to the execution.

* `Store` is what the contract stores, with the events it has published and the
  disbursements it has asked for;
* `Env` is the environment of a call: besides the host, the voting token, which is
  asked for supplies, balances and delegations, and the treasury, which is invoked;
* `Storage` are the storage accessors that extend the time to live of what they read
  or write, with what each returns.

The entry points are in `CosmosVote.Governance.Contract`.

`finalise` and `cancel` use fields of a proposal that its declaration does not list
(`choices`, `winning_choice`, `cancellation_reason`); a proposal is created without
any of them. `Vote.Choice` is not modelled: no entry point has a case for it.
-/

namespace CosmosVote.Governance

open Soroban

/-- The errors of the governance contract. -/
inductive ContractError
  | alreadyInitialized
  | notInitialized
  | proposalNotFound
  | proposalNotActive
  | proposalNotPassed
  | invalidTitle
  | invalidDescription
  | invalidQuorum
  | quorumExceedsSupply
  | invalidDurationRange
  | insufficientBalance
  | proposalCooldown
  | quorumBelowFloor
  | proposalsStillActive
  | votingNotStarted
  | votingPeriodEnded
  | votingStillOpen
  | alreadyVoted
  | noVotingPower
  | adminVoteRestricted
  | voteNotFound
  | voteAlreadySame
  | notAdmin
  | invalidNewAdmin
  | quorumUpdateNotAllowed
  | noPendingAdmin
  | notPendingAdmin
  | notProposer
  | votesAlreadyCast
  | invalidLink
  | contractPaused
  | notPaused
  | arithmeticOverflow
  | executionFailed
  deriving DecidableEq

inductive ContractState
  | uninitialized
  | ready
  deriving DecidableEq

/-- A disbursement, as the treasury declares it: the two declarations have the same encoding. -/
abbrev TreasuryAction := Treasury.TreasuryAction

inductive ProposalState
  | active
  | passed
  | rejected
  | executed
  | cancelled
  deriving DecidableEq

inductive Vote
  | yes
  | no
  | abstain
  deriving DecidableEq

structure VoteRecord where
  vote : Vote
  weight : I128
  deriving DecidableEq

structure Proposal where
  id : U64
  proposer : Address
  title : Text
  description : Text
  link : Option Text
  votesYes : I128
  votesNo : I128
  votesAbstain : I128
  quorum : I128
  startTime : U64
  endTime : U64
  state : ProposalState
  snapshotLedger : U32
  voterCount : U32
  /-- At most one. -/
  treasuryAction : List TreasuryAction
  choices : List Text
  winningChoice : Option ℕ
  cancellationReason : Option Text
  deriving DecidableEq

namespace Proposal

/-- The tally that a vote counts in. -/
def tally (p : Proposal) : Vote → I128
  | .yes => p.votesYes
  | .no => p.votesNo
  | .abstain => p.votesAbstain

/-- Write the tally that a vote counts in. -/
def setTally (p : Proposal) (vote : Vote) (v : I128) : Proposal :=
  match vote with
  | .yes => { p with votesYes := v }
  | .no => { p with votesNo := v }
  | .abstain => { p with votesAbstain := v }

/-- Write the count of voters. -/
def setVoterCount (p : Proposal) (n : U32) : Proposal := { p with voterCount := n }

/-- `votes_yes.checked_add(votes_no).and_then(|v| v.checked_add(votes_abstain))` -/
def totalVotes (p : Proposal) : Option I128 :=
  (p.votesYes.checkedAdd p.votesNo).bind fun v => v.checkedAdd p.votesAbstain

@[simp]
theorem tally_setVoterCount (p : Proposal) (vote : Vote) (n : U32) :
    (p.setVoterCount n).tally vote = p.tally vote := by
  cases vote <;> rfl

@[simp]
theorem tally_setTally (p : Proposal) (vote vote' : Vote) (v : I128) :
    (p.setTally vote v).tally vote' = if vote' = vote then v else p.tally vote' := by
  cases vote <;> cases vote' <;> rfl

end Proposal

/-- The events of the governance contract. -/
inductive Event
  | initialized (admin token : Address)
  | proposalCreated (id : U64) (proposer : Address) (title : Text) (quorum : I128) (endTime : U64)
  | proposalAmended (id : U64) (proposer : Address) (oldTitle newTitle oldDescription
      newDescription : Text)
  | voteCast (id : U64) (voter : Address) (vote : Vote) (weight : I128)
  | voteRetracted (id : U64) (voter : Address) (weight : I128)
  | voteChanged (id : U64) (voter : Address) (oldVote newVote : Vote) (weight : I128)
  | proposalFinalized (id : U64) (state : ProposalState)
  | proposalExecuted (id : U64) (admin : Address)
  | proposalCancelled (id : U64) (admin : Address) (voterCount : U32)
  | upgraded (newWasmHash : ℕ)
  | quorumUpdated (id : U64) (oldQuorum newQuorum : I128)
  | adminTransferProposed (current pending : Address)
  | votingTokenUpdated (oldToken newToken : Address)
  | adminTransferAccepted (previous new : Address)
  | adminTransferCancelled (admin cancelled : Address)
  | paused (admin : Address)
  | unpaused (admin : Address)
  | minBalanceUpdated (admin : Address) (oldValue newValue : I128)
  | cooldownUpdated (admin : Address) (oldValue newValue : U64)
  | restrictAdminVoteUpdated (admin : Address) (oldValue newValue : Bool)
  deriving DecidableEq

/-- A call of `disburse` that returned: for which proposal, and which treasury it asked. -/
structure Disbursement where
  proposal : U64
  treasury : Address
  action : TreasuryAction
  deriving DecidableEq

/-- What the governance contract stores, the events it has published, and the disbursements it has
    asked a treasury for. -/
structure Store where
  admin : Option Address
  pendingAdmin : Option Address
  votingToken : Option Address
  treasuryContract : Option Address
  proposalCount : U64
  activeProposalCount : U64
  minProposalBalance : I128
  proposalCooldown : U64
  minQuorumBps : U32
  restrictAdminVote : Bool
  version : ℕ × ℕ × ℕ
  contractState : ContractState
  paused : Bool
  proposals : Entries U64 Proposal
  hasVoted : Entries (U64 × Address) Bool
  voteRecords : Entries (U64 × Address) VoteRecord
  lastProposal : Entries Address U64
  /-- The votes for each choice of a proposal. -/
  choiceVotes : Entries (U64 × ℕ) I128
  events : List Event
  disbursements : List Disbursement

/-- The contract before any call. -/
def Store.empty : Store where
  admin := none
  pendingAdmin := none
  votingToken := none
  treasuryContract := none
  proposalCount := .lit 0
  activeProposalCount := .lit 0
  minProposalBalance := .lit 0
  proposalCooldown := .lit 0
  minQuorumBps := .lit 0
  restrictAdminVote := false
  version := (1, 0, 0)
  contractState := .uninitialized
  paused := false
  proposals := ∅
  hasVoted := ∅
  voteRecords := ∅
  lastProposal := ∅
  choiceVotes := ∅
  events := []
  disbursements := []

namespace Store

variable (s : Store)

/-- The flag read for a voter: `false` without an entry. -/
def voted (id : U64) (voter : Address) : Bool := (s.hasVoted.lookup (id, voter)).getD false

/-- The votes read for a choice of a proposal: `0` without an entry. -/
def choiceWeight (id : U64) (i : ℕ) : I128 := (s.choiceVotes.lookup (id, i)).getD (.lit 0)

/-- Write a proposal. -/
def setProposal (id : U64) (p : Proposal) : Store :=
  { s with proposals := s.proposals.insert id p }

/-- Write the number of proposals. -/
def setProposalCount (n : U64) : Store := { s with proposalCount := n }

/-- Write the number of active proposals. -/
def setActiveProposalCount (n : U64) : Store := { s with activeProposalCount := n }

/-- Write the time of the last proposal of a proposer. -/
def setLastProposal (proposer : Address) (t : U64) : Store :=
  { s with lastProposal := s.lastProposal.insert proposer t }

/-- Write the flag of a voter. -/
def setHasVoted (id : U64) (voter : Address) (b : Bool) : Store :=
  { s with hasVoted := s.hasVoted.insert (id, voter) b }

/-- Write the record of a vote. -/
def setVoteRecord (id : U64) (voter : Address) (r : VoteRecord) : Store :=
  { s with voteRecords := s.voteRecords.insert (id, voter) r }

/-- Remove the record of a vote. -/
def removeVoteRecord (id : U64) (voter : Address) : Store :=
  { s with voteRecords := s.voteRecords.erase (id, voter) }

/-- The number of active proposals after one of them has been closed. -/
def closeActive : Store :=
  s.setActiveProposalCount (s.activeProposalCount.saturatingSub (.lit 1))

/-- Record a disbursement. -/
def addDisbursement (d : Disbursement) : Store :=
  { s with disbursements := s.disbursements ++ [d] }

/-- Publish an event. -/
def emit (e : Event) : Store := { s with events := s.events ++ [e] }

/-- The contract is initialised, and not paused. -/
def Ready : Prop := s.contractState = .ready ∧ s.paused = false

end Store

/-! ## Calls -/

/-- The answers of the voting token at one moment; a call of it may fail. -/
structure TokenView where
  totalSupply : Option I128
  balance : Address → Option I128
  balanceAt : Address → U64 → Option I128
  getDelegation : Address → Option (Option Address)

/-- The environment of a call of the governance contract. -/
structure Env (ω : Type) extends HostEnv where
  /-- The answers of the contract at an address, as a token. -/
  token : Address → ω → TokenView
  /-- `disburse(action)` of the contract at an address. -/
  disburse : Address → TreasuryAction → ω → Option ω

/-- A call of the governance contract. -/
abbrev GovernanceCall (ω : Type) := Call (Ctx Store ω) ContractError

/-! ## Storage -/

namespace Storage

variable {ω : Type} (env : HostEnv)

/-- `GovernanceStorage::admin` -/
def admin : GovernanceCall ω Address := do
  let c ← Call.get
  Call.orTrap c.store.admin .unwrapNone

/-- `GovernanceStorage::voting_token` -/
def votingToken : GovernanceCall ω Address := do
  let c ← Call.get
  Call.orTrap c.store.votingToken .unwrapNone

/-- `GovernanceStorage::proposal`, extending the time to live of the entry it reads. -/
def proposal (id : U64) : GovernanceCall ω (Option Proposal) := do
  let c ← Call.get
  match c.store.proposals.lookup id with
  | some p => do
    env.extendTtl fun c => (c.store.proposals.lookup id).isSome
    pure (some p)
  | none => pure none

/-- `GovernanceStorage::set_proposal` -/
def setProposal (id : U64) (p : Proposal) : GovernanceCall ω Unit := do
  Call.update fun s => s.setProposal id p
  env.extendTtl fun c => (c.store.proposals.lookup id).isSome

/-- `GovernanceStorage::has_voted`: it extends the time to live of the entry whether or not there is
    one. -/
def hasVoted (id : U64) (voter : Address) : GovernanceCall ω Bool := do
  let c ← Call.get
  env.extendTtl fun c => (c.store.hasVoted.lookup (id, voter)).isSome
  pure (c.store.voted id voter)

/-- `GovernanceStorage::set_has_voted` -/
def setHasVoted (id : U64) (voter : Address) (b : Bool) : GovernanceCall ω Unit := do
  Call.update fun s => s.setHasVoted id voter b
  env.extendTtl fun c => (c.store.hasVoted.lookup (id, voter)).isSome

/-- `GovernanceStorage::vote_record` -/
def voteRecord (id : U64) (voter : Address) : GovernanceCall ω (Option VoteRecord) := do
  let c ← Call.get
  match c.store.voteRecords.lookup (id, voter) with
  | some r => do
    env.extendTtl fun c => (c.store.voteRecords.lookup (id, voter)).isSome
    pure (some r)
  | none => pure none

/-- `GovernanceStorage::set_vote_record` -/
def setVoteRecord (id : U64) (voter : Address) (r : VoteRecord) : GovernanceCall ω Unit := do
  Call.update fun s => s.setVoteRecord id voter r
  env.extendTtl fun c => (c.store.voteRecords.lookup (id, voter)).isSome

/-- `GovernanceStorage::last_proposal_time` -/
def lastProposalTime (proposer : Address) : GovernanceCall ω (Option U64) := do
  let c ← Call.get
  match c.store.lastProposal.lookup proposer with
  | some t => do
    env.extendTtl fun c => (c.store.lastProposal.lookup proposer).isSome
    pure (some t)
  | none => pure none

/-- `GovernanceStorage::set_last_proposal_time` -/
def setLastProposalTime (proposer : Address) (t : U64) : GovernanceCall ω Unit := do
  Call.update fun s => s.setLastProposal proposer t
  env.extendTtl fun c => (c.store.lastProposal.lookup proposer).isSome

variable (c : Ctx Store ω)

@[simp]
theorem run_admin_ok {c c' : Ctx Store ω} {a : Address} :
    admin.run c = (.ok a, c') ↔ c.store.admin = some a ∧ c = c' := by
  rw [admin, Call.run_bind_of_ok (Call.run_get c), Call.run_orTrap_ok]

@[simp]
theorem run_votingToken_ok {c c' : Ctx Store ω} {a : Address} :
    votingToken.run c = (.ok a, c') ↔ c.store.votingToken = some a ∧ c = c' := by
  rw [votingToken, Call.run_bind_of_ok (Call.run_get c), Call.run_orTrap_ok]

@[simp]
theorem run_proposal (id : U64) :
    (proposal env id).run c = (.ok (c.store.proposals.lookup id), c) := by
  rw [proposal, Call.run_bind_of_ok (Call.run_get c)]
  cases h : c.store.proposals.lookup id with
  | none => rfl
  | some p => exact Call.run_bind_of_ok (env.run_extendTtl_of_present (by simp [h]))

@[simp]
theorem run_setProposal (id : U64) (p : Proposal) :
    (setProposal env id p).run c = (.ok (), ⟨c.store.setProposal id p, c.outside⟩) := by
  rw [setProposal, Call.run_bind_of_ok (Call.run_update _ c)]
  exact env.run_extendTtl_of_present (by simp [Store.setProposal, Finmap.lookup_insert])

/-- The flag of a voter can be read if it has been written before, or if the host lets the time to
    live of a missing entry be extended. -/
@[simp]
theorem run_hasVoted_ok {id : U64} {voter : Address} {c c' : Ctx Store ω} {b : Bool} :
    (hasVoted env id voter).run c = (.ok b, c') ↔
      ((c.store.hasVoted.lookup (id, voter)).isSome ∨ env.ttl = .ignored) ∧
        c.store.voted id voter = b ∧ c = c' := by
  rw [hasVoted, Call.run_bind_of_ok (Call.run_get c), Call.run_bind_ok]
  simp only [HostEnv.run_extendTtl]
  split <;> simp_all

@[simp]
theorem run_setHasVoted (id : U64) (voter : Address) (b : Bool) :
    (setHasVoted env id voter b).run c = (.ok (), ⟨c.store.setHasVoted id voter b, c.outside⟩) := by
  rw [setHasVoted, Call.run_bind_of_ok (Call.run_update _ c)]
  exact env.run_extendTtl_of_present (by simp [Store.setHasVoted, Finmap.lookup_insert])

@[simp]
theorem run_voteRecord (id : U64) (voter : Address) :
    (voteRecord env id voter).run c = (.ok (c.store.voteRecords.lookup (id, voter)), c) := by
  rw [voteRecord, Call.run_bind_of_ok (Call.run_get c)]
  cases h : c.store.voteRecords.lookup (id, voter) with
  | none => rfl
  | some p => exact Call.run_bind_of_ok (env.run_extendTtl_of_present (by simp [h]))

@[simp]
theorem run_setVoteRecord (id : U64) (voter : Address) (r : VoteRecord) :
    (setVoteRecord env id voter r).run c =
      (.ok (), ⟨c.store.setVoteRecord id voter r, c.outside⟩) := by
  rw [setVoteRecord, Call.run_bind_of_ok (Call.run_update _ c)]
  exact env.run_extendTtl_of_present (by simp [Store.setVoteRecord, Finmap.lookup_insert])

@[simp]
theorem run_lastProposalTime (proposer : Address) :
    (lastProposalTime env proposer).run c = (.ok (c.store.lastProposal.lookup proposer), c) := by
  rw [lastProposalTime, Call.run_bind_of_ok (Call.run_get c)]
  cases h : c.store.lastProposal.lookup proposer with
  | none => rfl
  | some p => exact Call.run_bind_of_ok (env.run_extendTtl_of_present (by simp [h]))

@[simp]
theorem run_setLastProposalTime (proposer : Address) (t : U64) :
    (setLastProposalTime env proposer t).run c =
      (.ok (), ⟨c.store.setLastProposal proposer t, c.outside⟩) := by
  rw [setLastProposalTime, Call.run_bind_of_ok (Call.run_update _ c)]
  exact env.run_extendTtl_of_present (by simp [Store.setLastProposal, Finmap.lookup_insert])

end Storage

end CosmosVote.Governance
