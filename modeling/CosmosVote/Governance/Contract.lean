import CosmosVote.Governance.Basic

/-!
# The entry points of governance

Each function is the entry point of the same name, in the order of the source: its
guards, then its writes, then its event. `Op` are the calls that may write, and
`exec` dispatches them.

As for the token, `upgrade` replaces the code of the contract, not what it stores.
The source declares it twice, with the same guards and different events.
-/

namespace CosmosVote.Governance

open Soroban

variable {ω : Type}

/-! ## Internal helpers -/

def assertReady : GovernanceCall ω Unit := do
  let c ← Call.get
  Call.rejectIf (c.store.contractState ≠ .ready) .notInitialized
  Call.rejectIf c.store.paused .contractPaused

def assertAdmin (caller : Address) : GovernanceCall ω Unit := do
  let admin ← Storage.admin
  Call.rejectIf (admin ≠ caller) .notAdmin

/-- Publish an event. -/
def publish (e : Event) : GovernanceCall ω Unit := Call.update fun s => s.emit e

/-- The proposal of a call that names one. -/
def findProposal (id : U64) (env : HostEnv) : GovernanceCall ω Proposal := do
  let p ← Storage.proposal env id
  Call.orErr p .proposalNotFound

/-- How `finalise` and `cancel` count the active proposals. -/
def closeActive : GovernanceCall ω Unit := do
  let c ← Call.get
  if 0 < c.store.activeProposalCount.val then do
    let activeCount ← Call.sub c.store.activeProposalCount (.lit 1)
    Call.update fun s => s.setActiveProposalCount activeCount
  else pure ()

/-! ## Initialization -/

/-- `initialize`: it needs no authorisation. -/
def initializeContract (admin votingToken : Address) (minProposalBalance : I128)
    (proposalCooldown : U64) (minQuorumBps : U32) (restrictAdminVote : Bool)
    (treasury : Option Address) : GovernanceCall ω Unit := do
  let c ← Call.get
  Call.rejectIf (c.store.contractState ≠ .uninitialized) .alreadyInitialized
  Call.update fun s =>
    { s with
      admin := some admin
      votingToken := some votingToken
      -- `if let Some(t) = &treasury`
      treasuryContract := treasury.or s.treasuryContract
      proposalCount := .lit 0
      minProposalBalance, proposalCooldown, minQuorumBps, restrictAdminVote
      paused := false
      contractState := .ready
      version := (1, 0, 0) }
  publish (.initialized admin votingToken)

/-! ## Proposals -/

/-- The quorum floor of `create_proposal`: the set share of the supply, in basis points. -/
def checkQuorumFloor (quorum totalSupply : I128) : GovernanceCall ω Unit := do
  let c ← Call.get
  if 0 < c.store.minQuorumBps.val then do
    let floor ← Call.orErr
      ((totalSupply.checkedMul c.store.minQuorumBps.toI128).bind fun v => v.checkedDiv (.lit 10000))
      .arithmeticOverflow
    Call.rejectIf (quorum.val < floor.val) .quorumBelowFloor
  else pure ()

/-- The balance check of `create_proposal`. -/
def checkBalance (token : Address) (proposer : Address) (env : Env ω) : GovernanceCall ω Unit := do
  let c ← Call.get
  if 0 < c.store.minProposalBalance.val then do
    let bal ← Call.ask fun o => (env.token token o).balance proposer
    Call.rejectIf (bal.val < c.store.minProposalBalance.val) .insufficientBalance
  else pure ()

/-- The cooldown check of `create_proposal`. -/
def checkCooldown (proposer : Address) (env : HostEnv) : GovernanceCall ω Unit := do
  let c ← Call.get
  if 0 < c.store.proposalCooldown.val then do
    match ← Storage.lastProposalTime env proposer with
    | some last => do
      let ready ← Call.add last c.store.proposalCooldown
      Call.rejectIf (env.timestamp.val < ready.val) .proposalCooldown
    | none => pure ()
  else pure ()

def createProposal (proposer : Address) (title description : Text) (quorum : I128)
    (duration : U64) (link : Option Text) (treasuryAction : Option TreasuryAction) (env : Env ω) :
    GovernanceCall ω U64 := do
  env.requireAuth proposer
  assertReady
  Call.rejectIf (title.length = 0 ∨ 128 < title.length) .invalidTitle
  Call.rejectIf (description.length = 0 ∨ 1024 < description.length) .invalidDescription
  Call.rejectIf (link.any fun l => l.length = 0 ∨ 256 < l.length) .invalidLink
  Call.rejectIf (quorum.val ≤ 0) .invalidQuorum
  Call.rejectIf (duration.val < 60 ∨ 2592000 < duration.val) .invalidDurationRange
  let c ← Call.get
  let activeCount := c.store.activeProposalCount
  Call.rejectIf (50 ≤ activeCount.val) .proposalsStillActive
  let token ← Storage.votingToken
  let totalSupply ← Call.ask fun o => (env.token token o).totalSupply
  Call.rejectIf (totalSupply.val < quorum.val) .quorumExceedsSupply
  checkQuorumFloor quorum totalSupply
  checkBalance token proposer env
  checkCooldown proposer env.toHostEnv
  -- Nothing has been written so far; what follows may overflow, but returns no error.
  let now := env.timestamp
  let id := c.store.proposalCount
  let endTime ← Call.add now duration
  Storage.setProposal env.toHostEnv id
    { id, proposer, title, description, link
      votesYes := .lit 0
      votesNo := .lit 0
      votesAbstain := .lit 0
      quorum
      startTime := now
      endTime
      state := .active
      snapshotLedger := env.sequence
      voterCount := .lit 0
      treasuryAction := treasuryAction.toList
      choices := []
      winningChoice := none
      cancellationReason := none }
  let proposalCount ← Call.add id (.lit 1)
  Call.update fun s => s.setProposalCount proposalCount
  let activeProposalCount ← Call.add activeCount (.lit 1)
  Call.update fun s => s.setActiveProposalCount activeProposalCount
  Storage.setLastProposalTime env.toHostEnv proposer now
  publish (.proposalCreated id proposer title quorum endTime)
  pure id

/-- Amend the title and description, before any votes are cast. -/
def amendProposal (proposer : Address) (id : U64) (newTitle newDescription : Text) (env : Env ω) :
    GovernanceCall ω Unit := do
  env.requireAuth proposer
  assertReady
  let p ← findProposal id env.toHostEnv
  Call.rejectIf (p.proposer ≠ proposer) .notProposer
  Call.rejectIf (p.state ≠ .active) .proposalNotActive
  let totalVotes ← Call.orErr p.totalVotes .arithmeticOverflow
  Call.rejectIf (0 < totalVotes.val) .votesAlreadyCast
  Call.rejectIf (newTitle.length = 0 ∨ 128 < newTitle.length) .invalidTitle
  Call.rejectIf (newDescription.length = 0 ∨ 1024 < newDescription.length) .invalidDescription
  Storage.setProposal env.toHostEnv id { p with title := newTitle, description := newDescription }
  publish (.proposalAmended id proposer p.title newTitle p.description newDescription)

/-! ## Voting -/

/-- The restriction of `cast_vote` on the admin, who may not vote on their own proposals. -/
def checkAdminVote (voter : Address) (p : Proposal) : GovernanceCall ω Unit := do
  let c ← Call.get
  if c.store.restrictAdminVote then do
    let admin ← Storage.admin
    Call.rejectIf (voter = admin ∧ p.proposer = admin) .adminVoteRestricted
  else pure ()

/-- The weight of the vote is what the voting token answers for the snapshot ledger. -/
def castVote (voter : Address) (id : U64) (vote : Vote) (env : Env ω) : GovernanceCall ω Unit := do
  env.requireAuth voter
  assertReady
  let p ← findProposal id env.toHostEnv
  Call.rejectIf (p.state ≠ .active) .proposalNotActive
  Call.rejectIf (env.timestamp.val < p.startTime.val) .votingNotStarted
  Call.rejectIf (p.endTime.val < env.timestamp.val) .votingPeriodEnded
  -- For a voter who has never voted, the flag that is read here has no entry.
  let voted ← Storage.hasVoted env.toHostEnv id voter
  Call.rejectIf voted .alreadyVoted
  checkAdminVote voter p
  let token ← Storage.votingToken
  let delegate ← Call.ask fun o => (env.token token o).getDelegation voter
  Call.rejectIf delegate.isSome .noVotingPower
  let weight ← Call.ask fun o => (env.token token o).balanceAt voter p.snapshotLedger.toU64
  Call.rejectIf (weight.val ≤ 0) .noVotingPower
  let total ← Call.orErr ((p.tally vote).checkedAdd weight) .arithmeticOverflow
  Storage.setHasVoted env.toHostEnv id voter true
  Storage.setVoteRecord env.toHostEnv id voter { vote, weight }
  let voterCount ← Call.add p.voterCount (.lit 1)
  Storage.setProposal env.toHostEnv id ((p.setTally vote total).setVoterCount voterCount)
  publish (.voteCast id voter vote weight)

/-- The count of voters stays as it is. -/
def retractVote (voter : Address) (id : U64) (env : Env ω) : GovernanceCall ω Unit := do
  env.requireAuth voter
  assertReady
  let p ← findProposal id env.toHostEnv
  Call.rejectIf (p.state ≠ .active) .proposalNotActive
  Call.rejectIf (p.endTime.val < env.timestamp.val) .votingPeriodEnded
  let voted ← Storage.hasVoted env.toHostEnv id voter
  Call.rejectIf (¬voted) .voteNotFound
  let record ← Storage.voteRecord env.toHostEnv id voter
  let record ← Call.orErr record .voteNotFound
  let total ← Call.sub (p.tally record.vote) record.weight
  Storage.setHasVoted env.toHostEnv id voter false
  Call.update fun s => s.removeVoteRecord id voter
  Storage.setProposal env.toHostEnv id (p.setTally record.vote total)
  publish (.voteRetracted id voter record.weight)

/-- The vote keeps the weight it was cast with. -/
def changeVote (voter : Address) (id : U64) (newVote : Vote) (env : Env ω) :
    GovernanceCall ω Unit := do
  env.requireAuth voter
  assertReady
  let p ← findProposal id env.toHostEnv
  Call.rejectIf (p.state ≠ .active) .proposalNotActive
  Call.rejectIf (p.endTime.val < env.timestamp.val) .votingPeriodEnded
  let voted ← Storage.hasVoted env.toHostEnv id voter
  Call.rejectIf (¬voted) .voteNotFound
  let record ← Storage.voteRecord env.toHostEnv id voter
  let record ← Call.orErr record .voteNotFound
  Call.rejectIf (record.vote = newVote) .voteAlreadySame
  let less ← Call.sub (p.tally record.vote) record.weight
  -- The new tally is read from what the first write has left.
  let p := p.setTally record.vote less
  let more ← Call.orErr ((p.tally newVote).checkedAdd record.weight) .arithmeticOverflow
  Storage.setVoteRecord env.toHostEnv id voter { vote := newVote, weight := record.weight }
  Storage.setProposal env.toHostEnv id (p.setTally newVote more)
  publish (.voteChanged id voter record.vote newVote record.weight)

/-! ## Finalization and execution -/

/-- The loop of `finalise` over the choices: the first of those with the most votes. -/
def bestChoice (votes : ℕ → I128) (n : ℕ) : ℕ :=
  ((List.range' 1 (n - 1)).foldl
    (fun best i => if best.2.val < (votes i).val then (i, votes i) else best) (0, votes 0)).1

/-- The decision of `finalise`, on the sum of the tallies. With choices, the tally of `yes` is the
    participation. -/
def Proposal.withOutcome (p : Proposal) (totalVotes : I128) (votes : ℕ → I128) : Proposal :=
  if p.choices ≠ [] then
    if p.quorum.val ≤ p.votesYes.val then
      { p with winningChoice := some (bestChoice votes p.choices.length), state := .passed }
    else { p with state := .rejected }
  else if p.quorum.val ≤ totalVotes.val ∧ p.votesNo.val < p.votesYes.val then
    { p with state := .passed }
  else { p with state := .rejected }

/-- Anyone may finalise a proposal after its voting period. -/
def finalise (id : U64) (env : Env ω) : GovernanceCall ω Unit := do
  assertReady
  let p ← findProposal id env.toHostEnv
  Call.rejectIf (p.state ≠ .active) .proposalNotActive
  Call.rejectIf (env.timestamp.val ≤ p.endTime.val) .votingStillOpen
  let totalVotes ← Call.orErr p.totalVotes .arithmeticOverflow
  let c ← Call.get
  let p := p.withOutcome totalVotes (c.store.choiceWeight id)
  Storage.setProposal env.toHostEnv id p
  closeActive
  publish (.proposalFinalized id p.state)

/-- The disbursement of `execute`: nothing is done if none is attached, or no treasury is
    configured. -/
def disburseAttached (id : U64) (p : Proposal) (env : Env ω) : GovernanceCall ω Unit := do
  match p.treasuryAction.head? with
  | some action => do
    let c ← Call.get
    match c.store.treasuryContract with
    | some treasury => do
      Call.invoke (env.disburse treasury action)
      Call.update fun s => s.addDisbursement ⟨id, treasury, action⟩
    | none => pure ()
  | none => pure ()

def execute (admin : Address) (id : U64) (env : Env ω) : GovernanceCall ω Unit := do
  env.requireAuth admin
  assertAdmin admin
  let p ← findProposal id env.toHostEnv
  Call.rejectIf (p.state ≠ .passed) .proposalNotPassed
  -- The state is written when the treasury has returned: it cannot call back in between.
  disburseAttached id p env
  Storage.setProposal env.toHostEnv id { p with state := .executed }
  publish (.proposalExecuted id admin)

def cancel (admin : Address) (id : U64) (reason : Option Text) (env : Env ω) :
    GovernanceCall ω Unit := do
  env.requireAuth admin
  assertAdmin admin
  let p ← findProposal id env.toHostEnv
  Call.rejectIf (p.state ≠ .active) .proposalNotActive
  Storage.setProposal env.toHostEnv id { p with state := .cancelled, cancellationReason := reason }
  closeActive
  publish (.proposalCancelled id admin p.voterCount)

def upgrade (admin : Address) (newWasmHash : ℕ) (env : Env ω) : GovernanceCall ω Unit := do
  env.requireAuth admin
  assertAdmin admin
  publish (.upgraded newWasmHash)

/-! ## Admin -/

/-- The quorum may be updated in the first tenth of the voting period. -/
def updateQuorum (admin : Address) (id : U64) (newQuorum : I128) (env : Env ω) :
    GovernanceCall ω Unit := do
  env.requireAuth admin
  assertAdmin admin
  Call.rejectIf (newQuorum.val ≤ 0) .invalidQuorum
  let token ← Storage.votingToken
  let supply ← Call.ask fun o => (env.token token o).totalSupply
  Call.rejectIf (supply.val < newQuorum.val) .quorumExceedsSupply
  let p ← findProposal id env.toHostEnv
  Call.rejectIf (p.state ≠ .active) .proposalNotActive
  -- A tenth of the voting period; the divisor is not zero.
  let window ← Call.orTrap ((p.endTime.saturatingSub p.startTime).checkedDiv (.lit 10)) .overflow
  let deadline ← Call.add p.startTime window
  Call.rejectIf (deadline.val < env.timestamp.val) .quorumUpdateNotAllowed
  Storage.setProposal env.toHostEnv id { p with quorum := newQuorum }
  publish (.quorumUpdated id p.quorum newQuorum)

def proposeAdmin (admin newAdmin : Address) (env : Env ω) : GovernanceCall ω Unit := do
  env.requireAuth admin
  assertAdmin admin
  Call.rejectIf (newAdmin = Address.zero) .invalidNewAdmin
  Call.update fun s => { s with pendingAdmin := some newAdmin }
  publish (.adminTransferProposed admin newAdmin)

def updateVotingToken (admin newToken : Address) (env : Env ω) : GovernanceCall ω Unit := do
  env.requireAuth admin
  assertAdmin admin
  let c ← Call.get
  Call.rejectIf (0 < c.store.activeProposalCount.val) .proposalsStillActive
  let oldToken ← Storage.votingToken
  Call.update fun s => { s with votingToken := some newToken }
  publish (.votingTokenUpdated oldToken newToken)

def acceptAdmin (pendingAdmin : Address) (env : Env ω) : GovernanceCall ω Unit := do
  env.requireAuth pendingAdmin
  let c ← Call.get
  let currentPending ← Call.orErr c.store.pendingAdmin .noPendingAdmin
  Call.rejectIf (pendingAdmin ≠ currentPending) .notPendingAdmin
  let previousAdmin ← Storage.admin
  Call.update fun s => { s with admin := some pendingAdmin, pendingAdmin := none }
  publish (.adminTransferAccepted previousAdmin pendingAdmin)

def cancelAdminTransfer (admin : Address) (env : Env ω) : GovernanceCall ω Unit := do
  env.requireAuth admin
  assertAdmin admin
  let c ← Call.get
  let pending ← Call.orErr c.store.pendingAdmin .noPendingAdmin
  Call.update fun s => { s with pendingAdmin := none }
  publish (.adminTransferCancelled admin pending)

def pause (admin : Address) (env : Env ω) : GovernanceCall ω Unit := do
  env.requireAuth admin
  assertAdmin admin
  let c ← Call.get
  Call.rejectIf c.store.paused .contractPaused
  Call.update fun s => { s with paused := true }
  publish (.paused admin)

def unpause (admin : Address) (env : Env ω) : GovernanceCall ω Unit := do
  env.requireAuth admin
  assertAdmin admin
  let c ← Call.get
  Call.rejectIf (¬c.store.paused) .notPaused
  Call.update fun s => { s with paused := false }
  publish (.unpaused admin)

def setMinProposalBalance (admin : Address) (newValue : I128) (env : Env ω) :
    GovernanceCall ω Unit := do
  env.requireAuth admin
  assertAdmin admin
  Call.rejectIf (newValue.val < 0) .insufficientBalance
  let c ← Call.get
  Call.update fun s => { s with minProposalBalance := newValue }
  publish (.minBalanceUpdated admin c.store.minProposalBalance newValue)

def setProposalCooldown (admin : Address) (newValue : U64) (env : Env ω) :
    GovernanceCall ω Unit := do
  env.requireAuth admin
  assertAdmin admin
  let c ← Call.get
  Call.update fun s => { s with proposalCooldown := newValue }
  publish (.cooldownUpdated admin c.store.proposalCooldown newValue)

def setRestrictAdminVote (admin : Address) (newValue : Bool) (env : Env ω) :
    GovernanceCall ω Unit := do
  env.requireAuth admin
  assertAdmin admin
  let c ← Call.get
  Call.update fun s => { s with restrictAdminVote := newValue }
  publish (.restrictAdminVoteUpdated admin c.store.restrictAdminVote newValue)

/-! ## Queries -/

section Queries

variable (env : HostEnv)

def getProposal (id : U64) : GovernanceCall ω Proposal := findProposal id env

def hasVoted (id : U64) (voter : Address) : GovernanceCall ω Bool := Storage.hasVoted env id voter

def getVote (id : U64) (voter : Address) : GovernanceCall ω VoteRecord := do
  let record ← Storage.voteRecord env id voter
  Call.orErr record .voteNotFound

end Queries

/-! ## Calls -/

/-- The calls of governance that may write. -/
inductive Op
  | initializeContract (admin votingToken : Address) (minProposalBalance : I128)
      (proposalCooldown : U64) (minQuorumBps : U32) (restrictAdminVote : Bool)
      (treasury : Option Address)
  | createProposal (proposer : Address) (title description : Text) (quorum : I128) (duration : U64)
      (link : Option Text) (treasuryAction : Option TreasuryAction)
  | amendProposal (proposer : Address) (id : U64) (newTitle newDescription : Text)
  | castVote (voter : Address) (id : U64) (vote : Vote)
  | retractVote (voter : Address) (id : U64)
  | changeVote (voter : Address) (id : U64) (newVote : Vote)
  | finalise (id : U64)
  | execute (admin : Address) (id : U64)
  | cancel (admin : Address) (id : U64) (reason : Option Text)
  | upgrade (admin : Address) (newWasmHash : ℕ)
  | updateQuorum (admin : Address) (id : U64) (newQuorum : I128)
  | proposeAdmin (admin newAdmin : Address)
  | updateVotingToken (admin newToken : Address)
  | acceptAdmin (pendingAdmin : Address)
  | cancelAdminTransfer (admin : Address)
  | pause (admin : Address)
  | unpause (admin : Address)
  | setMinProposalBalance (admin : Address) (newValue : I128)
  | setProposalCooldown (admin : Address) (newValue : U64)
  | setRestrictAdminVote (admin : Address) (newValue : Bool)
  deriving DecidableEq

/-- The proposal that a call names. -/
def Op.proposal : Op → Option U64
  | .amendProposal _ id _ _ => some id
  | .castVote _ id _ => some id
  | .retractVote _ id => some id
  | .changeVote _ id _ => some id
  | .finalise id => some id
  | .execute _ id => some id
  | .cancel _ id _ => some id
  | .updateQuorum _ id _ => some id
  | _ => none

/-- The entry point of a call. The result of `create_proposal` is the count of proposals before
    it. -/
def exec (env : Env ω) : Op → GovernanceCall ω Unit
  | .initializeContract admin token minBalance cooldown bps restrict treasury =>
    initializeContract admin token minBalance cooldown bps restrict treasury
  | .createProposal proposer title description quorum duration link action => do
    let _ ← createProposal proposer title description quorum duration link action env
    pure ()
  | .amendProposal proposer id title description => amendProposal proposer id title description env
  | .castVote voter id vote => castVote voter id vote env
  | .retractVote voter id => retractVote voter id env
  | .changeVote voter id vote => changeVote voter id vote env
  | .finalise id => finalise id env
  | .execute admin id => execute admin id env
  | .cancel admin id reason => cancel admin id reason env
  | .upgrade admin hash => upgrade admin hash env
  | .updateQuorum admin id quorum => updateQuorum admin id quorum env
  | .proposeAdmin admin newAdmin => proposeAdmin admin newAdmin env
  | .updateVotingToken admin token => updateVotingToken admin token env
  | .acceptAdmin pending => acceptAdmin pending env
  | .cancelAdminTransfer admin => cancelAdminTransfer admin env
  | .pause admin => pause admin env
  | .unpause admin => unpause admin env
  | .setMinProposalBalance admin v => setMinProposalBalance admin v env
  | .setProposalCooldown admin v => setProposalCooldown admin v env
  | .setRestrictAdminVote admin v => setRestrictAdminVote admin v env

/-- A call of governance, with the environment it is made in and what is outside then. -/
structure Input (ω : Type) where
  env : Env ω
  outside : ω
  op : Op

/-- The contract makes the call, and the host commits it or rolls it back. -/
def step (s : Store) (i : Input ω) : Store := ((exec i.env i.op).commit ⟨s, i.outside⟩).store

end CosmosVote.Governance
