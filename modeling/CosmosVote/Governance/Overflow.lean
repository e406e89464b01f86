import CosmosVote.Governance.Cooldown
import CosmosVote.Governance.Limit
import CosmosVote.Governance.Queries
import CosmosVote.Governance.Tally

/-!
# Overflows of governance

The arithmetic operators of governance trap when they overflow, and so do `unwrap` on what is not
stored and, on some hosts, the reads of missing entries. `TrapsOnly FromOutside` says that a call is
aborted for none of these; it is followed through the code of each entry point.

* `exec_trapsOnly`: what bounds the arithmetic of most calls: the records of votes that the tallies
  are the sums of, the voting period, and the counter of active proposals;
* `Op.Overflows`, `Query.Overflows`: the calls whose operands nothing bounds;
* `overflow_iff`: these are the only ones that overflow.
-/

namespace CosmosVote.Governance

open Soroban

variable {ω : Type}

/-! ## Traps of the helpers -/

section Helpers

variable {A : Trap → Prop} {env : HostEnv} {c : Ctx Store ω}

@[simp]
theorem trapsOnly_admin :
    (Storage.admin : GovernanceCall ω Address).TrapsOnly A c ↔ (c.store.admin = none → A .unwrapNone) := by
  simp [Storage.admin]

@[simp]
theorem trapsOnly_votingToken :
    (Storage.votingToken : GovernanceCall ω Address).TrapsOnly A c ↔
      (c.store.votingToken = none → A .unwrapNone) := by
  simp [Storage.votingToken]

@[simp]
theorem trapsOnly_proposal (id : U64) : (Storage.proposal env id).TrapsOnly A c :=
  Call.trapsOnly_of_ok (Storage.run_proposal env c id)

@[simp]
theorem trapsOnly_setProposal (id : U64) (p : Proposal) : (Storage.setProposal env id p).TrapsOnly A c :=
  Call.trapsOnly_of_ok (Storage.run_setProposal env c id p)

@[simp]
theorem trapsOnly_hasVoted (id : U64) (voter : Address) :
    (Storage.hasVoted env id voter).TrapsOnly A c ↔
      (¬c.store.FlagReadable env.ttl id voter → A .missingEntry) := by
  simp only [Storage.hasVoted, HostEnv.extendTtl, Call.trapsOnly_bind, Call.trapsOnly_get, Call.trapsOnly_ite,
    Call.trapsOnly_pure, Store.FlagReadable]
  simp [Call.trapsOnly_iff_of_trap (Call.run_abort ..)]

@[simp]
theorem trapsOnly_setHasVoted (id : U64) (voter : Address) (b : Bool) :
    (Storage.setHasVoted env id voter b).TrapsOnly A c :=
  Call.trapsOnly_of_ok (Storage.run_setHasVoted env c id voter b)

@[simp]
theorem trapsOnly_voteRecord (id : U64) (voter : Address) : (Storage.voteRecord env id voter).TrapsOnly A c :=
  Call.trapsOnly_of_ok (Storage.run_voteRecord env c id voter)

@[simp]
theorem trapsOnly_setVoteRecord (id : U64) (voter : Address) (r : VoteRecord) :
    (Storage.setVoteRecord env id voter r).TrapsOnly A c :=
  Call.trapsOnly_of_ok (Storage.run_setVoteRecord env c id voter r)

@[simp]
theorem trapsOnly_lastProposalTime (proposer : Address) : (Storage.lastProposalTime env proposer).TrapsOnly A c :=
  Call.trapsOnly_of_ok (Storage.run_lastProposalTime env c proposer)

@[simp]
theorem trapsOnly_setLastProposalTime (proposer : Address) (t : U64) :
    (Storage.setLastProposalTime env proposer t).TrapsOnly A c :=
  Call.trapsOnly_of_ok (Storage.run_setLastProposalTime env c proposer t)

@[simp]
theorem trapsOnly_publish (e : Event) : (publish e).TrapsOnly A c := Call.trapsOnly_of_ok (run_publish e c)

@[simp]
theorem trapsOnly_closeActive : closeActive.TrapsOnly A c := Call.trapsOnly_of_ok (run_closeActive c)

@[simp]
theorem trapsOnly_assertReady : assertReady.TrapsOnly A c := by
  simp [assertReady]

@[simp]
theorem trapsOnly_assertAdmin (a : Address) :
    (assertAdmin a).TrapsOnly A c ↔ (c.store.admin = none → A .unwrapNone) := by
  simp [assertAdmin]

@[simp]
theorem trapsOnly_findProposal (id : U64) : (findProposal id env).TrapsOnly A c := by
  simp [findProposal]

@[simp]
theorem trapsOnly_checkQuorumFloor (quorum supply : I128) : (checkQuorumFloor quorum supply).TrapsOnly A c := by
  simp [checkQuorumFloor]

@[simp]
theorem trapsOnly_checkBalance {env : Env ω} (token proposer : Address) :
    (checkBalance token proposer env).TrapsOnly A c ↔
      (0 < c.store.minProposalBalance.val → (env.token token c.outside).balance proposer = none →
        A .calleeFailed) := by
  simp [checkBalance]

/-- The time from which the proposer may make the next proposal overflows. -/
def Store.WaitOverflows (s : Store) (proposer : Address) : Prop :=
  0 < s.proposalCooldown.val ∧ ∃ last, s.lastProposal.lookup proposer = some last ∧
    18446744073709551615 < last.val + s.proposalCooldown.val

@[simp]
theorem trapsOnly_checkCooldown (proposer : Address) :
    (checkCooldown proposer env).TrapsOnly A c ↔ (c.store.WaitOverflows proposer → A .overflow) := by
  cases hlast : c.store.lastProposal.lookup proposer with
  | none => simp [checkCooldown, Store.WaitOverflows, hlast]
  | some last =>
    have hnonneg : 0 ≤ last.val + c.store.proposalCooldown.val :=
      add_nonneg last.lo_le c.store.proposalCooldown.lo_le
    simp [checkCooldown, Store.WaitOverflows, hlast, hnonneg.not_gt]

@[simp]
theorem trapsOnly_checkAdminVote (voter : Address) (p : Proposal) :
    (checkAdminVote voter p).TrapsOnly A c ↔
      (c.store.restrictAdminVote = true → c.store.admin = none → A .unwrapNone) := by
  simp [checkAdminVote]

theorem trapsOnly_disburseAttached {env : Env ω} (hfailed : A .calleeFailed) (id : U64) (p : Proposal) :
    (disburseAttached id p env).TrapsOnly A c := by
  rw [disburseAttached]
  cases p.treasuryAction.head? with
  | none => exact Call.trapsOnly_pure _ _
  | some action =>
    cases htreasury : c.store.treasuryContract with
    | none => simp [htreasury]
    | some treasury => simp [htreasury, hfailed]

end Helpers

/-! ## Calls that overflow -/

/-- An authorisation is missing, or another contract fails. -/
def FromOutside (t : Trap) : Prop := t = .unauthorized ∨ t = .calleeFailed

/-- The checks of `create_proposal` before that of the cooldown. -/
structure Proposable (env : Env ω) (s : Store) (o : ω) (proposer : Address) (title description : Text)
    (quorum : I128) (duration : U64) (link : Option Text) : Prop where
  arguments : ReachesLimit env.toHostEnv s proposer title description quorum duration link
  active : s.activeProposalCount.val < 50
  token : ∃ token supply, s.votingToken = some token ∧ (env.token token o).totalSupply = some supply ∧
    quorum.val ≤ supply.val ∧ s.FloorMet quorum supply ∧ s.BalanceMet (env.token token o) proposer

/-- The checks of `cast_vote`. -/
structure Votable (env : Env ω) (s : Store) (o : ω) (voter : Address) (id : U64) (vote : Vote) (p : Proposal) :
    Prop where
  auth : env.auth voter = true
  ready : s.Ready
  proposal : s.proposals.lookup id = some p
  state : p.state = .active
  start : p.startTime.val ≤ env.timestamp.val
  finish : env.timestamp.val ≤ p.endTime.val
  voted : s.voted id voter = false
  allowed : s.VoterAllowed voter p
  token : ∃ token weight, s.votingToken = some token ∧ (env.token token o).getDelegation voter = some none ∧
    (env.token token o).balanceAt voter p.snapshotLedger.toU64 = some weight ∧ 0 < weight.val ∧
    (p.tally vote).val + weight.val ≤ 170141183460469231731687303715884105727

/-- The calls that overflow: of `create_proposal`, in the time from which the proposer may make another
    proposal, or in the number of proposals; of `cast_vote`, in the count of voters. -/
def Op.Overflows (env : Env ω) (s : Store) (o : ω) : Op → Prop
  | .createProposal proposer title description quorum duration link _ =>
    Proposable env s o proposer title description quorum duration link ∧
      (s.WaitOverflows proposer ∨
        s.CooldownMet env.timestamp proposer ∧ s.proposalCount.val = 18446744073709551615)
  | .castVote voter id vote => ∃ p, Votable env s o voter id vote p ∧ p.voterCount.val = 4294967295
  | _ => False

/-- The query that overflows: a page whose end does not fit. -/
def Query.Overflows : Query → Prop
  | .getProposals fromId limit => 18446744073709551615 < fromId.val + min limit.val 20
  | _ => False

/-- What the arithmetic of governance relies on. -/
structure Sound (s : Store) : Prop where
  wellFormed : WellFormed s
  correspondence : TallyCorrespondence s
  admin : s.admin ≠ none
  votingToken : s.votingToken ≠ none

section Sound

variable {env : Env ω} {s : Store} {o : ω} (hs : Sound s)
include hs

theorem createProposal_trapsOnly_iff (hclock : env.timestamp.val < 4611686018427387904) {proposer : Address}
    {title description : Text} {quorum : I128} {duration : U64} {link : Option Text}
    {action : Option TreasuryAction} :
    (exec env (.createProposal proposer title description quorum duration link action)).TrapsOnly
        FromOutside ⟨s, o⟩ ↔
      ¬(Op.createProposal proposer title description quorum duration link action).Overflows env s o := by
  have hcount := s.proposalCount.lo_le
  have hopen := s.activeProposalCount.lo_le
  have hnow := env.timestamp.lo_le
  -- Following the code, one condition is left for each operator and each `unwrap`, under the checks before it.
  simp [exec, createProposal, FromOutside, Op.Overflows]
  constructor
  · rintro h ⟨⟨hauth, hready, htitle, hdescription, hlink, hquorum, hduration⟩, hactive, hguards⟩
    obtain ⟨token, supply, htoken, hsupply, hle, hfloor, hbalance⟩ := hguards
    have hlink := link_ok_iff.2 hlink
    obtain ⟨hwait, hrest⟩ := (h hauth hready htitle.1 htitle.2 hdescription.1 hdescription.2 (by simpa using hlink)
      hquorum hduration.1 hduration.2 hactive).2 token htoken supply hsupply hle hfloor hbalance
    refine ⟨hwait, fun hcooldown hmax => ?_⟩
    obtain ⟨⟨_, hfits⟩, hnext⟩ := hrest hcooldown
    obtain ⟨endTime, _, hend⟩ : ∃ t : U64, IntRange.fit _ = some t ∧ t.val = env.timestamp.val + duration.val :=
      IntRange.exists_fit (by have := duration.lo_le; omega) hfits
    have hcountFits := (hnext endTime hend.symm).1.2
    omega
  · intro h hauth hready htitle htitle' hdescription hdescription' hlink hquorum hduration hduration' hactive
    refine ⟨hs.votingToken, fun token htoken supply hsupply hle hfloor hbalance => ?_⟩
    have hguards : Proposable env s o proposer title description quorum duration link :=
      { arguments := ⟨hauth, hready, ⟨htitle, htitle'⟩, ⟨hdescription, hdescription'⟩,
          link_ok_iff.1 (by simpa using hlink), hquorum, hduration, hduration'⟩
        active := hactive
        token := ⟨token, supply, htoken, hsupply, hle, hfloor, hbalance⟩ }
    obtain ⟨hwait, hmax⟩ := h hguards
    refine ⟨hwait, fun hcooldown => ⟨by omega, fun _ _ => ⟨?_, fun _ _ => by omega⟩⟩⟩
    have := hmax hcooldown
    have := s.proposalCount.le_hi
    omega

theorem castVote_trapsOnly_iff (httl : env.ttl = .ignored) {voter : Address} {id : U64} {vote : Vote} :
    (exec env (.castVote voter id vote)).TrapsOnly FromOutside ⟨s, o⟩ ↔
      ¬(Op.castVote voter id vote).Overflows env s o := by
  simp [exec, castVote, FromOutside, Op.Overflows, httl]
  constructor
  · intro h p hguards
    obtain ⟨token, weight, htoken, hdelegation, hweight, hpos, hfits⟩ := hguards.token
    have := (p.tally vote).lo_le
    have hlo := hs.correspondence.recorded_nonneg id vote
    rw [← hs.correspondence.tally_eq id p hguards.proposal] at hlo
    obtain ⟨total, _, htotal⟩ : ∃ t : I128, IntRange.fit _ = some t ∧ t.val = (p.tally vote).val + weight.val :=
      IntRange.exists_fit (by omega) hfits
    have hcount := ((h hguards.auth hguards.ready p hguards.proposal hguards.state hguards.start hguards.finish).2
      hguards.voted).2 hguards.allowed
    have := (hcount.2 token htoken none hdelegation rfl weight hweight hpos total htotal.symm).2
    omega
  · intro h hauth hready p hp hstate hstart hend
    refine ⟨.inr rfl, fun hvoted => ⟨fun _ => hs.admin, fun hallowed => ⟨hs.votingToken, ?_⟩⟩⟩
    rintro token htoken _ hdelegation rfl weight hweight hpos total htotal
    have hguards : Votable env s o voter id vote p :=
      { auth := hauth
        ready := hready
        proposal := hp
        state := hstate
        start := hstart
        finish := hend
        voted := hvoted
        allowed := hallowed
        token := ⟨token, weight, htoken, hdelegation, hweight, hpos, htotal ▸ total.le_hi⟩ }
    have := h p hguards
    have := p.voterCount.lo_le
    have := p.voterCount.le_hi
    omega

/-- What is subtracted from a tally is at most the tally. -/
theorem Sound.weight_le {voter : Address} {id : U64} {p : Proposal} {r : VoteRecord}
    (hp : s.proposals.lookup id = some p) (hr : s.voteRecords.lookup (id, voter) = some r) :
    0 < r.weight.val ∧ r.weight.val ≤ (p.tally r.vote).val := by
  rw [hs.correspondence.tally_eq id p hp]
  exact ⟨hs.correspondence.weight_pos id voter r hr, hs.correspondence.weight_le hr⟩

theorem retractVote_trapsOnly (httl : env.ttl = .ignored) {voter : Address} {id : U64} :
    (exec env (.retractVote voter id)).TrapsOnly FromOutside ⟨s, o⟩ := by
  simp [exec, retractVote, FromOutside, httl]
  intro _ _ p hp _ _
  refine ⟨.inr rfl, fun _ r hr => ?_⟩
  obtain ⟨hpos, hle⟩ := hs.weight_le hp hr
  have := (p.tally r.vote).le_hi
  omega

theorem changeVote_trapsOnly (httl : env.ttl = .ignored) {voter : Address} {id : U64} {vote : Vote} :
    (exec env (.changeVote voter id vote)).TrapsOnly FromOutside ⟨s, o⟩ := by
  simp [exec, changeVote, FromOutside, httl]
  intro _ _ p hp _ _
  refine ⟨.inr rfl, fun _ r hr _ => ?_⟩
  obtain ⟨hpos, hle⟩ := hs.weight_le hp hr
  have := (p.tally r.vote).le_hi
  omega

theorem updateQuorum_trapsOnly {admin : Address} {id : U64} {quorum : I128} :
    (exec env (.updateQuorum admin id quorum)).TrapsOnly FromOutside ⟨s, o⟩ := by
  simp [exec, updateQuorum, FromOutside]
  refine fun _ => ⟨hs.admin, fun _ _ => ⟨hs.votingToken, fun _ _ _ _ _ p hp _ => ?_⟩⟩
  refine ⟨?_, fun window hwindow => ?_⟩
  · have hdiff : 0 ≤ (p.endTime.saturatingSub p.startTime).val := IntRange.lo_le _
    obtain ⟨window, hwindow, _⟩ := IntRange.exists_checkedDiv (b := .lit 10) le_rfl hdiff (by decide)
    rw [hwindow]
    exact Option.some_ne_none window
  · -- The window ends before the voting period does.
    have horder := (hs.wellFormed.proper id p hp).start_le_end
    rw [p.window_eq horder hwindow]
    have := p.startTime.lo_le
    have := p.endTime.le_hi
    omega

/-- No other call overflows. -/
theorem exec_trapsOnly (httl : env.ttl = .ignored) {op : Op} (hcreate : op.creator = none)
    (hcast : ∀ voter id vote, op ≠ .castVote voter id vote) : (exec env op).TrapsOnly FromOutside ⟨s, o⟩ := by
  have hadmin := hs.admin
  have htoken := hs.votingToken
  cases op with
  | createProposal => cases hcreate
  | castVote voter id vote => exact absurd rfl (hcast voter id vote)
  | retractVote => exact retractVote_trapsOnly hs httl
  | changeVote => exact changeVote_trapsOnly hs httl
  | updateQuorum => exact updateQuorum_trapsOnly hs
  | initializeContract => simp [exec, initializeContract]
  | amendProposal => simp [exec, amendProposal, FromOutside]
  | finalise => simp [exec, finalise]
  | execute =>
    simp [exec, execute, FromOutside, hadmin]
    exact fun _ _ p _ _ => trapsOnly_disburseAttached (.inr rfl) _ p
  | cancel => simp [exec, cancel, FromOutside, hadmin]
  | upgrade => simp [exec, upgrade, FromOutside, hadmin]
  | proposeAdmin => simp [exec, proposeAdmin, FromOutside, hadmin]
  | updateVotingToken => simp [exec, updateVotingToken, FromOutside, hadmin, htoken]
  | acceptAdmin => simp [exec, acceptAdmin, FromOutside, hadmin]
  | cancelAdminTransfer => simp [exec, cancelAdminTransfer, FromOutside, hadmin]
  | pause => simp [exec, pause, FromOutside, hadmin]
  | unpause => simp [exec, unpause, FromOutside, hadmin]
  | setMinProposalBalance => simp [exec, setMinProposalBalance, FromOutside, hadmin]
  | setProposalCooldown => simp [exec, setProposalCooldown, FromOutside, hadmin]
  | setRestrictAdminVote => simp [exec, setRestrictAdminVote, FromOutside, hadmin]

theorem exec_trapsOnly_iff (hclock : env.timestamp.val < 4611686018427387904) (httl : env.ttl = .ignored)
    (op : Op) : (exec env op).TrapsOnly FromOutside ⟨s, o⟩ ↔ ¬op.Overflows env s o := by
  cases op with
  | createProposal => exact createProposal_trapsOnly_iff hs hclock
  | castVote => exact castVote_trapsOnly_iff hs httl
  | _ => exact iff_of_true (exec_trapsOnly hs httl rfl nofun) id

/-- Of the queries, only a page can overflow. -/
theorem answer_trapsOnly_iff (httl : env.ttl = .ignored) (q : Query) :
    (answer env.toHostEnv q).TrapsOnly FromOutside ⟨s, o⟩ ↔ ¬q.Overflows := by
  have hadmin := hs.admin
  have htoken := hs.votingToken
  cases q with
  | getProposals fromId limit =>
    by_cases hover : 18446744073709551615 < fromId.val + min limit.val 20
    · refine iff_of_false ?_ (not_not_intro hover)
      exact (Call.trapsOnly_iff_of_trap (run_getProposals_trap hover)).not.2 (by simp [FromOutside])
    · refine iff_of_true ?_ hover
      obtain ⟨next, _, hnext⟩ : ∃ n : U64, IntRange.fit _ = some n ∧ n.val = fromId.val + min limit.val 20 :=
        IntRange.exists_fit (add_nonneg fromId.lo_le (le_min limit.lo_le (by decide))) (not_lt.1 hover)
      exact Call.trapsOnly_of_ok (run_getProposals hnext.symm)
  | getProposalsByState state fromId limit =>
    have hpage : (getProposalsByState env.toHostEnv state fromId limit).TrapsOnly FromOutside ⟨s, o⟩ := by
      rw [getProposalsByState, Call.trapsOnly_bind]
      exact ⟨Call.trapsOnly_get _, fun _ _ _ => Call.trapsOnly_of_ok (run_collectByState ..)⟩
    exact iff_of_true hpage id
  | getConfig =>
    have hconfig : getConfig.TrapsOnly FromOutside ⟨s, o⟩ := by simp [getConfig, hadmin, htoken]
    exact iff_of_true hconfig id
  | getProposal id =>
    have hproposal : (getProposal env.toHostEnv id).TrapsOnly FromOutside ⟨s, o⟩ := by simp [getProposal]
    exact iff_of_true hproposal not_false
  | hasVoted id voter =>
    have hflag : (hasVoted env.toHostEnv id voter).TrapsOnly FromOutside ⟨s, o⟩ := by
      simp [hasVoted, Store.FlagReadable, httl]
    exact iff_of_true hflag not_false
  | getVote id voter =>
    have hrecord : (getVote env.toHostEnv id voter).TrapsOnly FromOutside ⟨s, o⟩ := by simp [getVote]
    exact iff_of_true hrecord not_false
  | admin =>
    have hread : Storage.admin.TrapsOnly FromOutside ⟨s, o⟩ := by simp [hadmin]
    exact iff_of_true hread id
  | _ => exact iff_of_true (Call.trapsOnly_of_ok rfl) id

end Sound

/-! ## Runs -/

/-- Once the contract is initialised, there are an admin and a voting token. -/
def Store.Configured (s : Store) : Prop := s.contractState = .ready → s.admin ≠ none ∧ s.votingToken ≠ none

theorem Effect.configured {env : Env ω} {s s' : Store} {o o' : ω} {op : Op} (h : Effect env s o op s' o')
    (hs : s.Configured) : s'.Configured := by
  obtain ⟨⟩ := s
  cases h with
  | initializeContract => exact fun _ => ⟨Option.some_ne_none _, Option.some_ne_none _⟩
  | updateVotingToken => exact fun hready => ⟨(hs hready).1, Option.some_ne_none _⟩
  | acceptAdmin => exact fun hready => ⟨Option.some_ne_none _, (hs hready).2⟩
  | _ => exact hs

theorem run_configured (is : List (Input ω)) : (run step Store.empty is).Configured :=
  run_invariant (fun _ _ hs => step_invariant hs fun _ _ he => he.configured hs)
    (fun hready => ContractState.noConfusion hready) is

theorem run_sound {is : List (Input ω)} (hready : (run step Store.empty is).contractState = .ready) :
    Sound (run step Store.empty is) where
  wellFormed := run_wellFormed is
  correspondence := run_correspondence is
  admin := (run_configured is hready).1
  votingToken := (run_configured is hready).2

/-- In every reachable state after the initialisation, at every time before `2 ^ 62`, if extending the time
    to live of a missing entry has no effect, a call returns a value or an error of governance, or it is
    aborted for a missing authorisation or by a failure of another contract, exactly if it is none of the
    calls that overflow. -/
theorem overflow_iff {is : List (Input ω)} (hready : (run step Store.empty is).contractState = .ready)
    {env : Env ω} (hclock : env.timestamp.val < 4611686018427387904) (httl : env.ttl = .ignored) (o : ω) :
    (∀ op, (exec env op).TrapsOnly FromOutside ⟨run step Store.empty is, o⟩ ↔
      ¬op.Overflows env (run step Store.empty is) o) ∧
    ∀ q, (answer env.toHostEnv q).TrapsOnly FromOutside ⟨run step Store.empty is, o⟩ ↔ ¬q.Overflows :=
  ⟨exec_trapsOnly_iff (run_sound hready) hclock httl, answer_trapsOnly_iff (run_sound hready) httl⟩

/-- The first proposal can be finalised, and the first page read, without an overflow. -/
theorem overflow_iff_opening :
    (exec (signed (.lit 61) (.finalise (.lit 0))).env (.finalise (.lit 0))).TrapsOnly FromOutside
      ⟨run step Store.empty opening, ()⟩ ∧
    (answer (signed (.lit 61) (.finalise (.lit 0))).env.toHostEnv (.getProposals (.lit 0) (.lit 100))).TrapsOnly
      FromOutside ⟨run step Store.empty opening, ()⟩ := by
  have hready : (run step Store.empty opening).contractState = .ready := by decide
  have hclock : (signed (.lit 61) (.finalise (.lit 0))).env.timestamp.val < 4611686018427387904 := by decide
  obtain ⟨hcall, hquery⟩ := overflow_iff hready hclock rfl ()
  exact ⟨(hcall _).2 not_false, (hquery _).2 (by rw [Query.Overflows]; decide)⟩

/-- The account `2` makes a proposal, and the admin then sets the greatest cooldown. -/
def cooling : List (Input Unit) :=
  opening ++ [signed (.lit 1) (.createProposal (.account 2) [84] [68] (.lit 10) (.lit 60) none none),
    signed (.lit 2) (.setProposalCooldown (.account 9) (.lit 18446744073709551615))]

/-- It cannot make another one: the call is aborted. So is that for the page at the greatest number. -/
theorem wait_overflows :
    (run step Store.empty cooling).contractState = .ready ∧
    ((exec (signed (.lit 3) (.finalise (.lit 0))).env
      (.createProposal (.account 2) [84] [68] (.lit 10) (.lit 60) none none)).run
        ⟨run step Store.empty cooling, ()⟩).1 = .trap .overflow ∧
    ((getProposals (signed (.lit 3) (.finalise (.lit 0))).env.toHostEnv (.lit 18446744073709551615) (.lit 20)).run
      (⟨run step Store.empty cooling, ()⟩ : Ctx Store Unit)).1 = .trap .overflow :=
  ⟨by decide, by decide, by decide⟩

end CosmosVote.Governance
