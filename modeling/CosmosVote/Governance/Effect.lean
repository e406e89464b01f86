import CosmosVote.Governance.Contract

/-!
# What a governance call does

`Effect env s o op s' o'` lists, for each call, the guards it passes, the store `s'`
it leaves, and what is outside of the contract after it (`o'`, which only a
disbursement changes). This is exactly when and how the call succeeds (`effect_of_exec`,
`exec_of_effect`). Every invariant of governance is proved by cases on it, and no other
proof unfolds the code.
-/

namespace CosmosVote.Governance

open Soroban

variable {ω : Type}

/-! ## Guards -/

/-- The quorum is not below the floor. -/
def Store.FloorMet (s : Store) (quorum supply : I128) : Prop :=
  0 < s.minQuorumBps.val → ∃ floor : I128,
    (supply.checkedMul s.minQuorumBps.toI128).bind (fun v => v.checkedDiv (.lit 10000)) = some floor ∧
      floor.val ≤ quorum.val

/-- The proposer holds enough tokens. -/
def Store.BalanceMet (s : Store) (view : TokenView) (proposer : Address) : Prop :=
  0 < s.minProposalBalance.val → ∃ bal : I128,
    view.balance proposer = some bal ∧ s.minProposalBalance.val ≤ bal.val

/-- The last proposal of the proposer is old enough. -/
def Store.CooldownMet (s : Store) (now : U64) (proposer : Address) : Prop :=
  0 < s.proposalCooldown.val → ∀ last, s.lastProposal.lookup proposer = some last →
    ∃ ready : U64, last.val + s.proposalCooldown.val = ready.val ∧ ready.val ≤ now.val

/-- The voter is not the admin who made the proposal, if that is restricted. -/
def Store.VoterAllowed (s : Store) (voter : Address) (p : Proposal) : Prop :=
  s.restrictAdminVote = true → ∃ admin, s.admin = some admin ∧ ¬(voter = admin ∧ p.proposer = admin)

/-- The flag of the voter can be read. -/
def Store.FlagReadable (s : Store) (ttl : TtlRule) (id : U64) (voter : Address) : Prop :=
  (s.hasVoted.lookup (id, voter)).isSome ∨ ttl = .ignored

section Guards

variable {env : Env ω} {c c' : Ctx Store ω} {u : Unit}

@[simp]
theorem run_assertReady_ok : assertReady.run c = (.ok u, c') ↔ c.store.Ready ∧ c = c' := by
  simp [assertReady, Store.Ready, and_assoc]

@[simp]
theorem run_assertAdmin_ok {a : Address} :
    (assertAdmin a).run c = (.ok u, c') ↔ c.store.admin = some a ∧ c = c' := by
  simp only [assertAdmin, Call.run_bind_ok, Storage.run_admin_ok, Call.run_rejectIf_ok, ne_eq,
    not_not]
  constructor
  · rintro ⟨_, _, ⟨h, rfl⟩, rfl, rfl⟩
    exact ⟨h, rfl⟩
  · rintro ⟨h, rfl⟩
    exact ⟨a, c, ⟨h, rfl⟩, rfl, rfl⟩

@[simp]
theorem run_publish (e : Event) (c : Ctx Store ω) :
    (publish e).run c = (.ok (), ⟨c.store.emit e, c.outside⟩) := rfl

@[simp]
theorem run_findProposal_ok {id : U64} {env : HostEnv} {p : Proposal} :
    (findProposal id env).run c = (.ok p, c') ↔ c.store.proposals.lookup id = some p ∧ c = c' := by
  simp [findProposal]

@[simp]
theorem run_closeActive (c : Ctx Store ω) :
    closeActive.run c = (.ok (), ⟨c.store.closeActive, c.outside⟩) := by
  obtain ⟨s, o⟩ := c
  have hbounds := s.activeProposalCount.lo_le
  rw [closeActive, Call.run_bind_of_ok (Call.run_get _)]
  -- The counter is only decremented if it is positive, which is a saturated subtraction.
  split
  · rename_i hpos
    have hsub : (Call.sub s.activeProposalCount (.lit 1) : GovernanceCall ω U64).run ⟨s, o⟩ =
        (.ok (s.activeProposalCount.saturatingSub (.lit 1)), ⟨s, o⟩) := by
      simp only [Call.run_sub_ok, IntRange.saturatingSub, and_true]
      have := s.activeProposalCount.le_hi
      dsimp only at hpos
      omega
    exact Call.run_bind_of_ok hsub
  · rename_i hpos
    have hsame : s.activeProposalCount.saturatingSub (.lit 1) = s.activeProposalCount := by
      ext
      simp only [IntRange.saturatingSub]
      dsimp only at hpos
      omega
    rw [Store.closeActive, hsame]
    rfl

@[simp]
theorem run_checkQuorumFloor_ok {quorum supply : I128} :
    (checkQuorumFloor quorum supply).run c = (.ok u, c') ↔
      c.store.FloorMet quorum supply ∧ c = c' := by
  rw [checkQuorumFloor, Call.run_bind_of_ok (Call.run_get c)]
  refine Call.run_check_ok fun _ => ?_
  simp [and_right_comm (b := c = c')]

@[simp]
theorem run_checkBalance_ok {token proposer : Address} :
    (checkBalance token proposer env).run c = (.ok u, c') ↔
      c.store.BalanceMet (env.token token c.outside) proposer ∧ c = c' := by
  rw [checkBalance, Call.run_bind_of_ok (Call.run_get c)]
  refine Call.run_check_ok fun _ => ?_
  simp [and_right_comm (b := c = c')]

@[simp]
theorem run_checkCooldown_ok {env : HostEnv} {proposer : Address} :
    (checkCooldown proposer env).run c = (.ok u, c') ↔
      c.store.CooldownMet env.timestamp proposer ∧ c = c' := by
  rw [checkCooldown, Call.run_bind_of_ok (Call.run_get c)]
  refine Call.run_check_ok fun _ => ?_
  rw [Call.run_bind_of_ok (Storage.run_lastProposalTime env c proposer)]
  cases hlast : c.store.lastProposal.lookup proposer with
  | none => simp
  | some last => simp [and_right_comm (b := c = c')]

@[simp]
theorem run_checkAdminVote_ok {voter : Address} {p : Proposal} :
    (checkAdminVote voter p).run c = (.ok u, c') ↔ c.store.VoterAllowed voter p ∧ c = c' := by
  rw [checkAdminVote, Call.run_bind_of_ok (Call.run_get c)]
  refine Call.run_check_ok fun _ => ?_
  simp [and_right_comm (b := c = c')]

@[simp]
theorem run_disburseAttached_ok {id : U64} {p : Proposal} :
    (disburseAttached id p env).run c = (.ok u, c') ↔
      ((p.treasuryAction = [] ∨ c.store.treasuryContract = none) ∧ c = c') ∨
      ∃ action, p.treasuryAction.head? = some action ∧
        ∃ treasury, c.store.treasuryContract = some treasury ∧
          ∃ o, env.disburse treasury action c.outside = some o ∧
            ⟨c.store.addDisbursement ⟨id, treasury, action⟩, o⟩ = c' := by
  cases haction : p.treasuryAction with
  | nil => simp [disburseAttached, haction]
  | cons action _ =>
    cases htreasury : c.store.treasuryContract with
    | none => simp [disburseAttached, haction, htreasury]
    | some treasury => simp [disburseAttached, haction, htreasury]

end Guards

/-! ## Effects -/

/-- A proposal as it is created. -/
def Proposal.created (id : U64) (proposer : Address) (title description : Text) (link : Option Text)
    (quorum : I128) (startTime endTime : U64) (snapshotLedger : U32)
    (treasuryAction : Option TreasuryAction) : Proposal where
  id := id
  proposer := proposer
  title := title
  description := description
  link := link
  votesYes := .lit 0
  votesNo := .lit 0
  votesAbstain := .lit 0
  quorum := quorum
  startTime := startTime
  endTime := endTime
  state := .active
  snapshotLedger := snapshotLedger
  voterCount := .lit 0
  treasuryAction := treasuryAction.toList
  choices := []
  winningChoice := none
  cancellationReason := none

/-- What a call of governance that succeeds does, and when it does. -/
inductive Effect (env : Env ω) (s : Store) (o : ω) : Op → Store → ω → Prop
  | initializeContract {admin token : Address} {minBalance : I128} {cooldown : U64} {bps : U32}
      {restrict : Bool} {treasury : Option Address} (hinit : s.contractState = .uninitialized) :
      Effect env s o (.initializeContract admin token minBalance cooldown bps restrict treasury)
        ({ s with
          admin := some admin
          votingToken := some token
          treasuryContract := treasury.or s.treasuryContract
          proposalCount := .lit 0
          minProposalBalance := minBalance
          proposalCooldown := cooldown
          minQuorumBps := bps
          restrictAdminVote := restrict
          paused := false
          contractState := .ready
          version := (1, 0, 0) }.emit (.initialized admin token)) o
  | createProposal {proposer token : Address} {title description : Text} {quorum supply : I128}
      {duration endTime proposalCount activeProposalCount : U64} {link : Option Text}
      {action : Option TreasuryAction} (hauth : env.auth proposer = true) (hready : s.Ready)
      (htitle : title ≠ [] ∧ title.length ≤ 128)
      (hdescription : description ≠ [] ∧ description.length ≤ 1024)
      (hlink : ∀ l ∈ link, l ≠ [] ∧ l.length ≤ 256) (hquorum : 0 < quorum.val)
      (hduration : 60 ≤ duration.val ∧ duration.val ≤ 2592000)
      (hactive : s.activeProposalCount.val < 50) (htoken : s.votingToken = some token)
      (hsupply : (env.token token o).totalSupply = some supply) (hle : quorum.val ≤ supply.val)
      (hfloor : s.FloorMet quorum supply) (hbalance : s.BalanceMet (env.token token o) proposer)
      (hcooldown : s.CooldownMet env.timestamp proposer)
      (hend : env.timestamp.val + duration.val = endTime.val)
      (hcount : s.proposalCount.val + 1 = proposalCount.val)
      (hopen : s.activeProposalCount.val + 1 = activeProposalCount.val) :
      Effect env s o (.createProposal proposer title description quorum duration link action)
        (((((s.setProposal s.proposalCount (.created s.proposalCount proposer title description link
            quorum env.timestamp endTime env.sequence action)).setProposalCount
            proposalCount).setActiveProposalCount activeProposalCount).setLastProposal proposer
            env.timestamp).emit (.proposalCreated s.proposalCount proposer title quorum endTime)) o
  | amendProposal {proposer : Address} {id : U64} {title description : Text} {p : Proposal}
      {total : I128} (hauth : env.auth proposer = true) (hready : s.Ready)
      (hp : s.proposals.lookup id = some p) (hproposer : p.proposer = proposer)
      (hstate : p.state = .active) (htotal : p.totalVotes = some total) (hnone : total.val ≤ 0)
      (htitle : title ≠ [] ∧ title.length ≤ 128)
      (hdescription : description ≠ [] ∧ description.length ≤ 1024) :
      Effect env s o (.amendProposal proposer id title description)
        ((s.setProposal id { p with title := title, description := description }).emit
          (.proposalAmended id proposer p.title title p.description description)) o
  | castVote {voter token : Address} {id : U64} {vote : Vote} {p : Proposal} {weight total : I128}
      {voterCount : U32} (hauth : env.auth voter = true) (hready : s.Ready)
      (hp : s.proposals.lookup id = some p) (hstate : p.state = .active)
      (hstart : p.startTime.val ≤ env.timestamp.val) (hend : env.timestamp.val ≤ p.endTime.val)
      (hflag : s.FlagReadable env.ttl id voter) (hvoted : s.voted id voter = false)
      (hallowed : s.VoterAllowed voter p) (htoken : s.votingToken = some token)
      (hdelegate : (env.token token o).getDelegation voter = some none)
      (hweight : (env.token token o).balanceAt voter p.snapshotLedger.toU64 = some weight)
      (hpos : 0 < weight.val) (htotal : (p.tally vote).val + weight.val = total.val)
      (hcount : p.voterCount.val + 1 = voterCount.val) :
      Effect env s o (.castVote voter id vote)
        ((((s.setHasVoted id voter true).setVoteRecord id voter ⟨vote, weight⟩).setProposal id
          ((p.setTally vote total).setVoterCount voterCount)).emit
          (.voteCast id voter vote weight)) o
  | retractVote {voter : Address} {id : U64} {p : Proposal} {r : VoteRecord} {total : I128}
      (hauth : env.auth voter = true) (hready : s.Ready) (hp : s.proposals.lookup id = some p)
      (hstate : p.state = .active) (hend : env.timestamp.val ≤ p.endTime.val)
      (hflag : s.FlagReadable env.ttl id voter) (hvoted : s.voted id voter = true)
      (hr : s.voteRecords.lookup (id, voter) = some r)
      (htotal : (p.tally r.vote).val - r.weight.val = total.val) :
      Effect env s o (.retractVote voter id)
        ((((s.setHasVoted id voter false).removeVoteRecord id voter).setProposal id
          (p.setTally r.vote total)).emit (.voteRetracted id voter r.weight)) o
  | changeVote {voter : Address} {id : U64} {vote : Vote} {p : Proposal} {r : VoteRecord}
      {less more : I128} (hauth : env.auth voter = true) (hready : s.Ready)
      (hp : s.proposals.lookup id = some p) (hstate : p.state = .active)
      (hend : env.timestamp.val ≤ p.endTime.val) (hflag : s.FlagReadable env.ttl id voter)
      (hvoted : s.voted id voter = true) (hr : s.voteRecords.lookup (id, voter) = some r)
      (hne : r.vote ≠ vote) (hless : (p.tally r.vote).val - r.weight.val = less.val)
      (hmore : (p.tally vote).val + r.weight.val = more.val) :
      Effect env s o (.changeVote voter id vote)
        (((s.setVoteRecord id voter ⟨vote, r.weight⟩).setProposal id
          ((p.setTally r.vote less).setTally vote more)).emit
          (.voteChanged id voter r.vote vote r.weight)) o
  | finalise {id : U64} {p : Proposal} {total : I128} (hready : s.Ready)
      (hp : s.proposals.lookup id = some p) (hstate : p.state = .active)
      (hend : p.endTime.val < env.timestamp.val) (htotal : p.totalVotes = some total) :
      Effect env s o (.finalise id)
        ((s.setProposal id (p.withOutcome total (s.choiceWeight id))).closeActive.emit
          (.proposalFinalized id (p.withOutcome total (s.choiceWeight id)).state)) o
  | execute {admin : Address} {id : U64} {p : Proposal} (hauth : env.auth admin = true)
      (hadmin : s.admin = some admin) (hp : s.proposals.lookup id = some p)
      (hstate : p.state = .passed) (hnone : p.treasuryAction = [] ∨ s.treasuryContract = none) :
      Effect env s o (.execute admin id)
        ((s.setProposal id { p with state := .executed }).emit (.proposalExecuted id admin)) o
  | executeDisburse {admin treasury : Address} {id : U64} {p : Proposal} {action : TreasuryAction}
      {o' : ω} (hauth : env.auth admin = true) (hadmin : s.admin = some admin)
      (hp : s.proposals.lookup id = some p) (hstate : p.state = .passed)
      (haction : p.treasuryAction.head? = some action)
      (htreasury : s.treasuryContract = some treasury)
      (hdisburse : env.disburse treasury action o = some o') :
      Effect env s o (.execute admin id)
        (((s.addDisbursement ⟨id, treasury, action⟩).setProposal id { p with state := .executed }).emit
          (.proposalExecuted id admin)) o'
  | cancel {admin : Address} {id : U64} {reason : Option Text} {p : Proposal}
      (hauth : env.auth admin = true) (hadmin : s.admin = some admin)
      (hp : s.proposals.lookup id = some p) (hstate : p.state = .active) :
      Effect env s o (.cancel admin id reason)
        ((s.setProposal id { p with state := .cancelled, cancellationReason := reason }).closeActive.emit
          (.proposalCancelled id admin p.voterCount)) o
  | upgrade {admin : Address} {hash : ℕ} (hauth : env.auth admin = true)
      (hadmin : s.admin = some admin) :
      Effect env s o (.upgrade admin hash) (s.emit (.upgraded hash)) o
  | updateQuorum {admin token : Address} {id : U64} {quorum supply : I128} {p : Proposal}
      {window deadline : U64} (hauth : env.auth admin = true) (hadmin : s.admin = some admin)
      (hquorum : 0 < quorum.val) (htoken : s.votingToken = some token)
      (hsupply : (env.token token o).totalSupply = some supply) (hle : quorum.val ≤ supply.val)
      (hp : s.proposals.lookup id = some p) (hstate : p.state = .active)
      (hwindow : (p.endTime.saturatingSub p.startTime).val.tdiv 10 = window.val)
      (hdeadline : p.startTime.val + window.val = deadline.val)
      (hnow : env.timestamp.val ≤ deadline.val) :
      Effect env s o (.updateQuorum admin id quorum)
        ((s.setProposal id { p with quorum := quorum }).emit (.quorumUpdated id p.quorum quorum)) o
  | proposeAdmin {admin newAdmin : Address} (hauth : env.auth admin = true)
      (hadmin : s.admin = some admin) (hzero : newAdmin ≠ Address.zero) :
      Effect env s o (.proposeAdmin admin newAdmin)
        ({ s with pendingAdmin := some newAdmin }.emit (.adminTransferProposed admin newAdmin)) o
  | updateVotingToken {admin oldToken newToken : Address} (hauth : env.auth admin = true)
      (hadmin : s.admin = some admin) (hactive : s.activeProposalCount.val ≤ 0)
      (htoken : s.votingToken = some oldToken) :
      Effect env s o (.updateVotingToken admin newToken)
        ({ s with votingToken := some newToken }.emit (.votingTokenUpdated oldToken newToken)) o
  | acceptAdmin {pending previous : Address} (hauth : env.auth pending = true)
      (hpending : s.pendingAdmin = some pending) (hadmin : s.admin = some previous) :
      Effect env s o (.acceptAdmin pending)
        ({ s with admin := some pending, pendingAdmin := none }.emit
          (.adminTransferAccepted previous pending)) o
  | cancelAdminTransfer {admin pending : Address} (hauth : env.auth admin = true)
      (hadmin : s.admin = some admin) (hpending : s.pendingAdmin = some pending) :
      Effect env s o (.cancelAdminTransfer admin)
        ({ s with pendingAdmin := none }.emit (.adminTransferCancelled admin pending)) o
  | pause {admin : Address} (hauth : env.auth admin = true) (hadmin : s.admin = some admin)
      (hpaused : s.paused = false) :
      Effect env s o (.pause admin) ({ s with paused := true }.emit (.paused admin)) o
  | unpause {admin : Address} (hauth : env.auth admin = true) (hadmin : s.admin = some admin)
      (hpaused : s.paused = true) :
      Effect env s o (.unpause admin) ({ s with paused := false }.emit (.unpaused admin)) o
  | setMinProposalBalance {admin : Address} {v : I128} (hauth : env.auth admin = true)
      (hadmin : s.admin = some admin) (hnonneg : 0 ≤ v.val) :
      Effect env s o (.setMinProposalBalance admin v)
        ({ s with minProposalBalance := v }.emit
          (.minBalanceUpdated admin s.minProposalBalance v)) o
  | setProposalCooldown {admin : Address} {v : U64} (hauth : env.auth admin = true)
      (hadmin : s.admin = some admin) :
      Effect env s o (.setProposalCooldown admin v)
        ({ s with proposalCooldown := v }.emit (.cooldownUpdated admin s.proposalCooldown v)) o
  | setRestrictAdminVote {admin : Address} {v : Bool} (hauth : env.auth admin = true)
      (hadmin : s.admin = some admin) :
      Effect env s o (.setRestrictAdminVote admin v)
        ({ s with restrictAdminVote := v }.emit
          (.restrictAdminVoteUpdated admin s.restrictAdminVote v)) o

/-- The link of a proposal may be missing. -/
theorem link_ok_iff {link : Option Text} :
    (link.any fun l => l.length = 0 ∨ 256 < l.length) = false ↔
      ∀ l ∈ link, l ≠ [] ∧ l.length ≤ 256 := by
  cases link <;> simp

/-- A call that succeeds has the effect listed. -/
theorem effect_of_exec {env : Env ω} {op : Op} {s s' : Store} {o o' : ω} {u : Unit}
    (h : (exec env op).run ⟨s, o⟩ = (.ok u, ⟨s', o'⟩)) : Effect env s o op s' o' := by
  -- In each case, the code is inverted: `h` becomes its guards and the store it leaves.
  cases op with
  | initializeContract admin token minBalance cooldown bps restrict treasury =>
    simp [exec, initializeContract] at h
    obtain ⟨hinit, rfl, rfl⟩ := h
    exact .initializeContract hinit
  | createProposal proposer title description quorum duration link action =>
    simp [exec, createProposal] at h
    obtain ⟨hauth, hready, htitle, hdescription, hlink, hquorum, hduration, hactive, token, htoken,
      supply, hsupply, hle, hfloor, hbalance, hcooldown, endTime, hend, count, hcount, opened,
      hopen, rfl, rfl⟩ := h
    exact .createProposal hauth hready htitle hdescription (link_ok_iff.1 (by simpa using hlink))
      hquorum hduration hactive htoken hsupply hle hfloor hbalance hcooldown hend hcount hopen
  | amendProposal proposer id title description =>
    simp [exec, amendProposal] at h
    obtain ⟨hauth, hready, p, hp, hproposer, hstate, total, htotal, hnone, htitle, hdescription,
      rfl, rfl⟩ := h
    exact .amendProposal hauth hready hp hproposer hstate htotal hnone htitle hdescription
  | castVote voter id vote =>
    simp [exec, castVote] at h
    obtain ⟨hauth, hready, p, hp, hstate, hstart, hend, ⟨hflag, hvoted⟩, hallowed, token, htoken,
      hdelegate, weight, hweight, hpos, total, htotal, count, hcount, rfl, rfl⟩ := h
    exact .castVote hauth hready hp hstate hstart hend hflag hvoted hallowed htoken hdelegate hweight
      hpos htotal hcount
  | retractVote voter id =>
    simp [exec, retractVote] at h
    obtain ⟨hauth, hready, p, hp, hstate, hend, ⟨hflag, hvoted⟩, r, hr, total, htotal, rfl, rfl⟩ := h
    exact .retractVote hauth hready hp hstate hend hflag hvoted hr htotal
  | changeVote voter id vote =>
    simp [exec, changeVote] at h
    obtain ⟨hauth, hready, p, hp, hstate, hend, ⟨hflag, hvoted⟩, r, hr, hne, less, hless, more,
      hmore, rfl, rfl⟩ := h
    -- The two tallies are different ones, so the second is as it was.
    rw [if_neg (Ne.symm hne)] at hmore
    exact .changeVote hauth hready hp hstate hend hflag hvoted hr hne hless hmore
  | finalise id =>
    simp [exec, finalise] at h
    obtain ⟨hready, p, hp, hstate, hend, total, htotal, rfl, rfl⟩ := h
    exact .finalise hready hp hstate hend htotal
  | execute admin id =>
    simp [exec, execute] at h
    obtain ⟨hauth, hadmin, p, hp, hstate, c, ⟨hnone, rfl⟩ | ⟨action, haction, treasury, htreasury,
      o₁, hdisburse, rfl⟩, rfl, rfl⟩ := h
    · exact .execute hauth hadmin hp hstate hnone
    · exact .executeDisburse hauth hadmin hp hstate haction htreasury hdisburse
  | cancel admin id reason =>
    simp [exec, cancel] at h
    obtain ⟨hauth, hadmin, p, hp, hstate, rfl, rfl⟩ := h
    exact .cancel hauth hadmin hp hstate
  | upgrade admin hash =>
    simp [exec, upgrade] at h
    obtain ⟨hauth, hadmin, rfl, rfl⟩ := h
    exact .upgrade hauth hadmin
  | updateQuorum admin id quorum =>
    simp [exec, updateQuorum] at h
    obtain ⟨hauth, hadmin, hquorum, token, htoken, supply, hsupply, hle, p, hp, hstate, window,
      hwindow, deadline, hdeadline, hnow, rfl, rfl⟩ := h
    exact .updateQuorum hauth hadmin hquorum htoken hsupply hle hp hstate hwindow hdeadline hnow
  | proposeAdmin admin newAdmin =>
    simp [exec, proposeAdmin] at h
    obtain ⟨hauth, hadmin, hzero, rfl, rfl⟩ := h
    exact .proposeAdmin hauth hadmin hzero
  | updateVotingToken admin token =>
    simp [exec, updateVotingToken] at h
    obtain ⟨hauth, hadmin, hactive, old, hold, rfl, rfl⟩ := h
    exact .updateVotingToken hauth hadmin hactive hold
  | acceptAdmin pending =>
    simp [exec, acceptAdmin] at h
    obtain ⟨hauth, hpending, previous, hprevious, rfl, rfl⟩ := h
    exact .acceptAdmin hauth hpending hprevious
  | cancelAdminTransfer admin =>
    simp [exec, cancelAdminTransfer] at h
    obtain ⟨hauth, hadmin, pending, hpending, rfl, rfl⟩ := h
    exact .cancelAdminTransfer hauth hadmin hpending
  | pause admin =>
    simp [exec, pause] at h
    obtain ⟨hauth, hadmin, hpaused, rfl, rfl⟩ := h
    exact .pause hauth hadmin hpaused
  | unpause admin =>
    simp [exec, unpause] at h
    obtain ⟨hauth, hadmin, hpaused, rfl, rfl⟩ := h
    exact .unpause hauth hadmin hpaused
  | setMinProposalBalance admin v =>
    simp [exec, setMinProposalBalance] at h
    obtain ⟨hauth, hadmin, hnonneg, rfl, rfl⟩ := h
    exact .setMinProposalBalance hauth hadmin hnonneg
  | setProposalCooldown admin v =>
    simp [exec, setProposalCooldown] at h
    obtain ⟨hauth, hadmin, rfl, rfl⟩ := h
    exact .setProposalCooldown hauth hadmin
  | setRestrictAdminVote admin v =>
    simp [exec, setRestrictAdminVote] at h
    obtain ⟨hauth, hadmin, rfl, rfl⟩ := h
    exact .setRestrictAdminVote hauth hadmin

/-- A call with the effect listed succeeds. -/
theorem exec_of_effect {env : Env ω} {op : Op} {s s' : Store} {o o' : ω}
    (h : Effect env s o op s' o') : (exec env op).run ⟨s, o⟩ = (.ok (), ⟨s', o'⟩) := by
  -- The guards are hypotheses of the effect, and the code runs on them.
  cases h with
  | initializeContract => simp [exec, initializeContract, *]
  | createProposal hauth hready htitle hdescription hlink =>
    have hlink := link_ok_iff.2 hlink
    simp [exec, createProposal, Proposal.created, *] at hlink ⊢
    exact hlink
  | amendProposal => simp [exec, amendProposal, *]
  | castVote hauth hready hp hstate hstart hend hflag =>
    rw [Store.FlagReadable] at hflag
    simp [exec, castVote, *]
  | retractVote hauth hready hp hstate hend hflag =>
    rw [Store.FlagReadable] at hflag
    simp [exec, retractVote, *]
  | changeVote hauth hready hp hstate hend hflag hvoted hr hne =>
    rw [Store.FlagReadable] at hflag
    simp [exec, changeVote, Ne.symm hne, *]
  | finalise => simp [exec, finalise, *]
  | execute => simp [exec, execute, *]
  | executeDisburse => simp [exec, execute, *]
  | cancel => simp [exec, cancel, *]
  | upgrade => simp [exec, upgrade, *]
  | updateQuorum => simp [exec, updateQuorum, *]
  | proposeAdmin => simp [exec, proposeAdmin, *]
  | updateVotingToken => simp [exec, updateVotingToken, *]
  | acceptAdmin => simp [exec, acceptAdmin, *]
  | cancelAdminTransfer => simp [exec, cancelAdminTransfer, *]
  | pause => simp [exec, pause, *]
  | unpause => simp [exec, unpause, *]
  | setMinProposalBalance => simp [exec, setMinProposalBalance, *]
  | setProposalCooldown => simp [exec, setProposalCooldown, *]
  | setRestrictAdminVote => simp [exec, setRestrictAdminVote, *]

/-- A step either has the effect of its call, which succeeds, or none. -/
theorem step_cases (s : Store) (i : Input ω) :
    (∃ o, (exec i.env i.op).run ⟨s, i.outside⟩ = (.ok (), ⟨step s i, o⟩) ∧
      Effect i.env s i.outside i.op (step s i) o) ∨ step s i = s := by
  rcases Call.commit_cases (exec i.env i.op) ⟨s, i.outside⟩ with ⟨_, h⟩ | ⟨_, h⟩
  · exact .inl ⟨_, h, effect_of_exec h⟩
  · refine .inr ?_
    rw [step, h]

/-- A call with the effect listed makes a step. -/
theorem step_of_effect {s s' : Store} {i : Input ω} {o : ω}
    (h : Effect i.env s i.outside i.op s' o) : step s i = s' := by
  rw [step, Call.commit_of_ok (exec_of_effect h)]

/-- The call returns a value. -/
def Succeeds (s : Store) (i : Input ω) : Prop := ((exec i.env i.op).run ⟨s, i.outside⟩).1 = .ok ()

instance (s : Store) (i : Input ω) : Decidable (Succeeds s i) := inferInstanceAs (Decidable (_ = _))

/-- A call that succeeds makes the step its effect describes. -/
theorem Succeeds.effect {s : Store} {i : Input ω} (h : Succeeds s i) :
    ∃ o, Effect i.env s i.outside i.op (step s i) o := by
  rcases step_cases s i with ⟨o, _, he⟩ | hsame
  · exact ⟨o, he⟩
  · -- A call may succeed and leave everything as it was.
    rw [Succeeds] at h
    obtain ⟨⟨s', o⟩, hc⟩ : ∃ c, (exec i.env i.op).run ⟨s, i.outside⟩ = (.ok (), c) :=
      ⟨_, Prod.ext h rfl⟩
    have heffect := effect_of_exec hc
    exact ⟨o, step_of_effect heffect ▸ heffect⟩

/-- A call that does not succeed changes nothing. -/
theorem step_of_not_succeeds {s : Store} {i : Input ω} (h : ¬Succeeds s i) : step s i = s := by
  rcases step_cases s i with ⟨o, hrun, _⟩ | hsame
  · exact absurd (congrArg Prod.fst hrun) h
  · exact hsame

theorem Succeeds.effect_of {s : Store} {i : Input ω} {op : Op} (h : Succeeds s i) (hop : i.op = op) :
    ∃ o, Effect i.env s i.outside op (step s i) o := by
  rw [← hop]
  exact h.effect

/-- The call executes a passed proposal, and makes the disbursement `x` that is attached to it. -/
structure Disburses (env : Env ω) (s : Store) (o : ω) (op : Op) (s' : Store) (o' : ω)
    (x : Disbursement) : Prop where
  op_eq : ∃ admin, op = .execute admin x.proposal
  treasury : s.treasuryContract = some x.treasury
  proposal : ∃ p, s.proposals.lookup x.proposal = some p ∧ p.state = .passed ∧
    p.treasuryAction.head? = some x.action ∧
    s'.proposals = s.proposals.insert x.proposal { p with state := .executed }
  disburse : env.disburse x.treasury x.action o = some o'
  disbursements : s'.disbursements = s.disbursements ++ [x]

/-- Only a disbursement changes what is outside of the contract. -/
theorem Effect.outside {env : Env ω} {s s' : Store} {o o' : ω} {op : Op}
    (h : Effect env s o op s' o') :
    (o' = o ∧ s'.disbursements = s.disbursements) ∨ ∃ x, Disburses env s o op s' o' x := by
  -- With the fields of the store at hand, those that a write leaves alone are read off.
  obtain ⟨⟩ := s
  cases h with
  | executeDisburse _ _ hp hstate haction htreasury hdisburse =>
    exact .inr ⟨_, ⟨_, rfl⟩, htreasury, ⟨_, hp, hstate, haction, rfl⟩, hdisburse, rfl⟩
  | _ => exact .inl ⟨rfl, rfl⟩

/-- The treasury is chosen when the contract is initialised. -/
theorem Effect.treasuryContract {env : Env ω} {s s' : Store} {o o' : ω} {op : Op}
    (h : Effect env s o op s' o') (hready : s.contractState = .ready) :
    s'.treasuryContract = s.treasuryContract := by
  obtain ⟨⟩ := s
  cases h with
  | initializeContract hinit => rw [hready] at hinit; cases hinit
  | _ => rfl

/-- To show that every step keeps a property, it is enough to look at the effects. -/
theorem step_invariant {I : Store → Prop} {s : Store} {i : Input ω} (hs : I s)
    (h : ∀ s' o, Effect i.env s i.outside i.op s' o → I s') : I (step s i) := by
  rcases step_cases s i with ⟨o, _, he⟩ | he
  · exact h _ _ he
  · rwa [he]

end CosmosVote.Governance
