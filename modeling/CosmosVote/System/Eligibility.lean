import CosmosVote.System.World

/-!
# Who can vote

A voter is eligible (`Eligible`) if nothing that `cast_vote` checks speaks against the
vote. Whether an eligible voter can vote is up to the host: the flag of a voter is read
by an accessor that extends the time to live of its entry, and there is none before the
first vote.

* `Eligible.votes`: on a host that ignores this, an eligible voter can cast every vote;
* `never_votes`: on a host that aborts such a call, there is never an entry, so that no
  eligible voter can vote or be asked for.
-/

namespace CosmosVote.System

open Soroban

variable {d : Deployment}

variable (d) in
/-- The voter has signed, the proposal is open, and the voter has no vote on it, may vote, has not
    delegated, and holds tokens that fit into every tally. -/
structure Eligible (w : World) (tx : Tx) (id : U64) (voter : Address) : Prop where
  auth : d.auth tx none voter = true
  ready : w.governance.Ready
  voted : w.governance.voted id voter = false
  votingToken : w.governance.votingToken = some d.token
  delegation : w.token.delegations.lookup voter = none
  pos : 0 < (w.token.balance voter).val
  proposal : ∃ p, w.governance.proposals.lookup id = some p ∧ p.state = .active ∧
    p.startTime.val ≤ w.timestamp.val ∧ w.timestamp.val ≤ p.endTime.val ∧
    w.governance.VoterAllowed voter p ∧
    (∀ vote, ∃ total : I128, (p.tally vote).val + (w.token.balance voter).val = total.val) ∧
    ∃ count : U32, p.voterCount.val + 1 = count.val

/-- An eligible voter can vote if their flag can be read. -/
theorem Eligible.votes {w : World} {tx : Tx} {id : U64} {voter : Address} (h : Eligible d w tx id voter)
    (hflag : w.governance.FlagReadable d.ttl id voter) {vote : Governance.Vote}
    (hop : tx.op = .governance (.castVote voter id vote)) : Calls d w tx (.castVote voter id vote) := by
  obtain ⟨p, hp, hstate, hstart, hend, hallowed, hfits, count, hcount⟩ := h.proposal
  obtain ⟨total, htotal⟩ := hfits vote
  have hdelegate : (d.view w tx d.token ⟨w.treasury, w.token⟩).getDelegation voter = some none := by
    rw [view_getDelegation, h.delegation]
  exact .of_effect hop (.castVote h.auth h.ready hp hstate hstart hend hflag h.voted hallowed
    h.votingToken hdelegate (view_balanceAt ..) h.pos htotal hcount)

/-- On a host that aborts the extension of a missing entry, no flag is ever written: each would have
    to be read first. -/
theorem run_hasVoted_empty (hd : d.ttl = .aborts) (txs : List Tx) :
    (d.after txs).governance.hasVoted = ∅ := by
  refine run_invariant (I := fun w : World => w.governance.hasVoted = ∅) (fun w tx hw => ?_) rfl txs
  -- No call that reads a flag gets past it.
  have hflag {id : U64} {voter : Address} (h : w.governance.FlagReadable d.ttl id voter) : False := by
    rw [Governance.Store.FlagReadable, hw, hd, Finmap.lookup_empty] at h
    simp at h
  rcases step_governance d w tx with hsame | ⟨op, o, _, he⟩
  · rwa [hsame]
  · generalize (step d w tx).governance = s' at he ⊢
    cases he with
    | castVote _ _ _ _ _ _ hread => exact (hflag hread).elim
    | retractVote _ _ _ _ _ hread => exact (hflag hread).elim
    | _ => exact hw

section Aborts

variable {ω : Type} {env : Governance.Env ω} {c : Ctx Governance.Store ω} {id : U64} {voter : Address}

/-- Reading a flag that has no entry. -/
theorem run_hasVoted_trap (env : HostEnv) (hd : env.ttl = .aborts)
    (hnone : c.store.hasVoted.lookup (id, voter) = none) :
    (Governance.hasVoted env id voter).run c = (.trap .missingEntry, c) := by
  rw [Governance.hasVoted, Governance.Storage.hasVoted, Call.run_bind_of_ok (Call.run_get c)]
  refine Call.run_bind_of_trap ?_
  rw [HostEnv.run_extendTtl, hnone, hd]
  rfl

/-- A vote that passes the checks made before its flag is read. -/
theorem run_castVote_trap {p : Governance.Proposal} (vote : Governance.Vote)
    (hauth : env.auth voter = true) (hready : c.store.Ready)
    (hp : c.store.proposals.lookup id = some p) (hstate : p.state = .active)
    (hstart : p.startTime.val ≤ env.timestamp.val) (hend : env.timestamp.val ≤ p.endTime.val)
    (hd : env.ttl = .aborts) (hnone : c.store.hasVoted.lookup (id, voter) = none) :
    (Governance.exec env (.castVote voter id vote)).run c = (.trap .missingEntry, c) := by
  -- The checks pass, one after the other, up to the flag.
  rw [Governance.exec, Governance.castVote,
    Call.run_bind_of_ok ((env.run_requireAuth_ok (u := ())).2 ⟨hauth, rfl⟩),
    Call.run_bind_of_ok ((Governance.run_assertReady_ok (u := ())).2 ⟨hready, rfl⟩),
    Call.run_bind_of_ok (Governance.run_findProposal_ok.2 ⟨hp, rfl⟩),
    Call.run_bind_of_ok ((Call.run_rejectIf_ok (u := ())).2 ⟨not_not.2 hstate, rfl⟩),
    Call.run_bind_of_ok ((Call.run_rejectIf_ok (u := ())).2 ⟨hstart.not_gt, rfl⟩),
    Call.run_bind_of_ok ((Call.run_rejectIf_ok (u := ())).2 ⟨hend.not_gt, rfl⟩)]
  exact Call.run_bind_of_trap (run_hasVoted_trap env.toHostEnv hd hnone)

end Aborts

/-- In every reachable state, a voter who meets every check of `cast_vote` cannot vote, and cannot even
    be asked for: both abort on the flag, whatever the vote. -/
theorem never_votes (hd : d.ttl = .aborts) {txs : List Tx} {tx : Tx} {id : U64} {voter : Address}
    (h : Eligible d (d.after txs) tx id voter) :
    (Governance.hasVoted (d.hostEnv (d.after txs) tx none) id voter).run (d.after txs).ctx =
      (.trap .missingEntry, (d.after txs).ctx) ∧
    ∀ vote, (Governance.exec (d.governanceEnv (d.after txs) tx) (.castVote voter id vote)).run
        (d.after txs).ctx = (.trap .missingEntry, (d.after txs).ctx) := by
  have hnone : (d.after txs).governance.hasVoted.lookup (id, voter) = none := by
    rw [run_hasVoted_empty hd, Finmap.lookup_empty]
  obtain ⟨p, hp, hstate, hstart, hend, _⟩ := h.proposal
  refine ⟨run_hasVoted_trap _ hd hnone, fun vote => ?_⟩
  exact run_castVote_trap vote h.auth h.ready hp hstate hstart hend hd hnone

/-- The deployment, on a host that aborts the extension of what does not exist. -/
def strict : Deployment := { sample with ttl := .aborts }

theorem strict_eligible :
    Eligible strict (strict.after proposed) (voting (.account 1) .yes) (.lit 0) (.account 1) where
  auth := by decide
  ready := ⟨by decide, by decide⟩
  voted := by decide
  votingToken := by decide
  delegation := by decide
  pos := by decide
  proposal := by
    refine ⟨.created (.lit 0) (.account 1) [84] [68] none (.lit 1) (.lit 0) (.lit 60) (.lit 0) none,
      by decide, rfl, by decide, by decide, fun h => absurd h (by decide), fun vote => ⟨.lit 100, ?_⟩,
      .lit 1, rfl⟩
    cases vote <;> decide

/-- The account `1` holds all tokens, and cannot vote on the proposal it has made. -/
theorem never_votes_strict :
    (Governance.hasVoted (strict.hostEnv (strict.after proposed) (voting (.account 1) .yes) none) (.lit 0)
        (.account 1)).run (strict.after proposed).ctx =
      (.trap .missingEntry, (strict.after proposed).ctx) :=
  (never_votes rfl strict_eligible).1

/-- An eligible voter, whose calls the host aborts. -/
theorem eligible_cannot_vote :
    Eligible strict (strict.after proposed) (voting (.account 1) .yes) (.lit 0) (.account 1) ∧
    ((Governance.hasVoted (strict.hostEnv (strict.after proposed) (voting (.account 1) .yes) none) (.lit 0)
        (.account 1)).run (strict.after proposed).ctx).1 = .trap .missingEntry ∧
    ∀ vote, ((Governance.exec (strict.governanceEnv (strict.after proposed) (voting (.account 1) vote))
        (.castVote (.account 1) (.lit 0) vote)).run (strict.after proposed).ctx).1 = .trap .missingEntry :=
  ⟨strict_eligible, by decide, fun vote => by cases vote <;> decide⟩

end CosmosVote.System
