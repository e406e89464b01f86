import CosmosVote.Governance.Contract

/-!
# The entry points that only read

Besides the calls that may write, governance answers queries: its configuration, a proposal, a page of
the proposals, the vote of a voter. `Query` are these, and `answer` is the entry point of each.

* `run_getProposals`: a page is read if the number after it fits, and it is what is stored under the
  numbers of the page;
* `run_collectByState`: a page of the proposals in one state is read without a trap, whatever is stored;
* `matching_fuel`: its loop ends before its fuel does.
-/

namespace CosmosVote.Governance

open Soroban

variable {ω : Type}

/-- The configuration. -/
structure GovernanceConfig where
  admin : Address
  votingToken : Address
  minProposalBalance : I128
  proposalCooldown : U64
  restrictAdminVote : Bool
  paused : Bool
  deriving DecidableEq

def getConfig : GovernanceCall ω GovernanceConfig := do
  let admin ← Storage.admin
  let votingToken ← Storage.votingToken
  let c ← Call.get
  pure
    { admin, votingToken
      minProposalBalance := c.store.minProposalBalance
      proposalCooldown := c.store.proposalCooldown
      restrictAdminVote := c.store.restrictAdminVote
      paused := c.store.paused }

def proposalCount : GovernanceCall ω U64 := do
  let c ← Call.get
  pure c.store.proposalCount

def pendingAdmin : GovernanceCall ω (Option Address) := do
  let c ← Call.get
  pure c.store.pendingAdmin

def version : GovernanceCall ω (ℕ × ℕ × ℕ) := do
  let c ← Call.get
  pure c.store.version

/-! ## Pages -/

/-- A page has at most 20 proposals. -/
def pageLimit (limit : U32) : U32 := if 20 < limit.val then .lit 20 else limit

theorem pageLimit_val (limit : U32) : (pageLimit limit).val = min limit.val 20 := by
  rw [pageLimit]
  split
  · rename_i h
    exact (min_eq_right h.le).symm
  · rename_i h
    exact (min_eq_left (not_lt.1 h)).symm

section Pages

variable (env : HostEnv)

/-- One iteration of the loop of `get_proposals`. -/
def collect (proposals : List Proposal) (id : U64) : GovernanceCall ω (List Proposal) := do
  let found ← Storage.proposal env id
  pure (proposals ++ found.toList)

def getProposals (fromId : U64) (limit : U32) : GovernanceCall ω (List Proposal) := do
  let c ← Call.get
  let count := c.store.proposalCount
  let next ← Call.add fromId (pageLimit limit).toU64
  let stop := if next.val ≤ count.val then next else count
  (fromId.range stop).foldlM (collect env) []

/-- The loop of `get_proposals_by_state`. -/
def collectByState (state : ProposalState) (limit : U32) (count : U64) :
    ℕ → U64 → List Proposal → GovernanceCall ω (List Proposal)
  | 0, _, proposals => pure proposals
  | fuel + 1, currentId, proposals =>
    if proposals.length < limit.val ∧ currentId.val < count.val then do
      let found ← Storage.proposal env currentId
      let proposals := proposals ++ (found.filter fun p => p.state = state).toList
      let currentId ← Call.add currentId (.lit 1)
      collectByState state limit count fuel currentId proposals
    else pure proposals

def getProposalsByState (state : ProposalState) (fromId : U64) (limit : U32) :
    GovernanceCall ω (List Proposal) := do
  let c ← Call.get
  let count := c.store.proposalCount
  collectByState env state (pageLimit limit) count (count.val - fromId.val).toNat fromId []

variable {env} {c : Ctx Store ω}

theorem run_collect (proposals : List Proposal) (id : U64) :
    (collect env proposals id).run c = (.ok (proposals ++ (c.store.proposals.lookup id).toList), c) := by
  rw [collect, Call.run_bind_of_ok (Storage.run_proposal env c id), Call.run_pure]

/-- The proposals that are stored under some numbers are appended. -/
theorem foldl_collect (m : Entries U64 Proposal) (ids : List U64) (proposals : List Proposal) :
    ids.foldl (fun ps id => ps ++ (m.lookup id).toList) proposals = proposals ++ ids.filterMap m.lookup := by
  induction ids generalizing proposals with
  | nil => exact (List.append_nil proposals).symm
  | cons id ids ih =>
    rw [List.foldl_cons, ih, List.append_assoc, List.filterMap_cons]
    cases m.lookup id <;> rfl

/-- The numbers of a page: as many as asked for, as far as there are proposals. -/
def pageIds (count fromId next : U64) : List U64 := fromId.range (if next.val ≤ count.val then next else count)

theorem run_getProposals {fromId next : U64} {limit : U32}
    (hnext : fromId.val + min limit.val 20 = next.val) :
    (getProposals env fromId limit).run c =
      (.ok ((pageIds c.store.proposalCount fromId next).filterMap c.store.proposals.lookup), c) := by
  have hadd : (Call.add fromId (pageLimit limit).toU64 : GovernanceCall ω U64).run c = (.ok next, c) := by
    rw [Call.run_add_ok, ← hnext, U32.toU64, IntRange.val_widen, pageLimit_val]
    exact ⟨rfl, rfl⟩
  rw [getProposals, Call.run_bind_of_ok (Call.run_get c), Call.run_bind_of_ok hadd,
    Call.run_foldlM_of_ok run_collect, foldl_collect, List.nil_append, pageIds]

/-- The number after the page does not fit. -/
theorem run_getProposals_trap {fromId : U64} {limit : U32}
    (hover : 18446744073709551615 < fromId.val + min limit.val 20) :
    (getProposals env fromId limit).run c = (.trap .overflow, c) := by
  have hadd : (Call.add fromId (pageLimit limit).toU64 : GovernanceCall ω U64).run c = (.trap .overflow, c) := by
    rw [Call.run_add_trap, U32.toU64, IntRange.val_widen, pageLimit_val]
    exact ⟨.inr hover, rfl, rfl⟩
  rw [getProposals, Call.run_bind_of_ok (Call.run_get c), Call.run_bind_of_trap hadd]

/-- The loop of `get_proposals_by_state`, without the reads of the store. -/
def matching (m : Entries U64 Proposal) (state : ProposalState) (limit : U32) (count : U64) :
    ℕ → U64 → List Proposal → List Proposal
  | 0, _, proposals => proposals
  | fuel + 1, currentId, proposals =>
    if h : proposals.length < limit.val ∧ currentId.val < count.val then
      matching m state limit count fuel
        ⟨currentId.val + 1, by have := currentId.lo_le; omega, by have := count.le_hi; omega⟩
        (proposals ++ ((m.lookup currentId).filter fun p => p.state = state).toList)
    else proposals

variable {state : ProposalState} {limit : U32} {count : U64}

theorem run_collectByState (fuel : ℕ) (currentId : U64) (proposals : List Proposal) :
    (collectByState env state limit count fuel currentId proposals).run c =
      (.ok (matching c.store.proposals state limit count fuel currentId proposals), c) := by
  induction fuel generalizing currentId proposals with
  | zero => rfl
  | succ fuel ih =>
    rw [collectByState, matching]
    split
    · rename_i h
      -- The next number is at most the number of proposals.
      have hadd : (Call.add currentId (.lit 1) : GovernanceCall ω U64).run c =
          (.ok ⟨currentId.val + 1, by have := currentId.lo_le; omega, by have := count.le_hi; omega⟩, c) := by
        rw [Call.run_add_ok]
        exact ⟨rfl, rfl⟩
      rw [Call.run_bind_of_ok (Storage.run_proposal env c currentId), Call.run_bind_of_ok hadd, ih]
    · rfl

/-- The fuel is enough: more of it makes no difference. -/
theorem matching_fuel {fuel : ℕ} {currentId : U64} {proposals : List Proposal}
    (h : (count.val - currentId.val).toNat ≤ fuel) :
    matching c.store.proposals state limit count (fuel + 1) currentId proposals =
      matching c.store.proposals state limit count fuel currentId proposals := by
  induction fuel generalizing currentId proposals with
  | zero =>
    rw [matching, matching, dif_neg]
    omega
  | succ fuel ih =>
    rw [matching]
    conv_rhs => rw [matching]
    split
    · refine ih ?_
      dsimp only
      omega
    · rfl

end Pages

/-! ## Queries -/

inductive Query
  | getConfig
  | getProposal (id : U64)
  | proposalCount
  | getProposals (fromId : U64) (limit : U32)
  | getProposalsByState (state : ProposalState) (fromId : U64) (limit : U32)
  | hasVoted (id : U64) (voter : Address)
  | getVote (id : U64) (voter : Address)
  | admin
  | pendingAdmin
  | version
  deriving DecidableEq

/-- What a query is answered with. -/
def Query.Result : Query → Type
  | .getConfig => GovernanceConfig
  | .getProposal _ => Proposal
  | .proposalCount => U64
  | .getProposals .. => List Proposal
  | .getProposalsByState .. => List Proposal
  | .hasVoted .. => Bool
  | .getVote .. => VoteRecord
  | .admin => Address
  | .pendingAdmin => Option Address
  | .version => ℕ × ℕ × ℕ

/-- The entry point of a query. -/
def answer (env : HostEnv) : (q : Query) → GovernanceCall ω q.Result
  | .getConfig => getConfig
  | .getProposal id => getProposal env id
  | .proposalCount => proposalCount
  | .getProposals fromId limit => getProposals env fromId limit
  | .getProposalsByState state fromId limit => getProposalsByState env state fromId limit
  | .hasVoted id voter => hasVoted env id voter
  | .getVote id voter => getVote env id voter
  | .admin => Storage.admin
  | .pendingAdmin => pendingAdmin
  | .version => version

end CosmosVote.Governance
