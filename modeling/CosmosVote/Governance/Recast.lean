import CosmosVote.Governance.History
import CosmosVote.Governance.Voters

/-!
# Changing a vote, or retracting it and casting another one

There are two ways for a voter to change their mind. `change_vote` overwrites the record of the vote;
`retract_vote` removes it, and `cast_vote` counts the voter once more, who is not taken off the
count in between.

* `Recastable.retract`, `Recastable.cast`: what the two calls do;
* `recast_iff`: where the vote can be changed, it can also be retracted and cast again, to the same
  tallies and records, exactly if the count of voters is not at its limit.
-/

namespace CosmosVote.Governance

open Soroban

variable {ω : Type}

/-- The votes and the tallies of all proposals are the same. -/
structure SameVotes (s s' : Store) : Prop where
  tallies : ∀ id vote, (s'.proposals.lookup id).map (fun p => p.tally vote) =
    (s.proposals.lookup id).map fun p => p.tally vote
  voted : ∀ id voter, s'.voted id voter = s.voted id voter
  voteRecords : ∀ id voter, s'.voteRecords.lookup (id, voter) = s.voteRecords.lookup (id, voter)

/-- What `retract_vote` and then `cast_vote` ask for, but for the numbers they compute: the voter has a
    vote, and the token weighs them as it did. -/
structure Recastable (s : Store) (env : Env ω) (o : ω) (voter : Address) (id : U64) (token : Address)
    (p : Proposal) (r : VoteRecord) : Prop where
  auth : env.auth voter = true
  ready : s.Ready
  proposal : s.proposals.lookup id = some p
  state : p.state = .active
  start : p.startTime.val ≤ env.timestamp.val
  finish : env.timestamp.val ≤ p.endTime.val
  readable : s.FlagReadable env.ttl id voter
  voted : s.voted id voter = true
  record : s.voteRecords.lookup (id, voter) = some r
  positive : 0 < r.weight.val
  allowed : s.VoterAllowed voter p
  votingToken : s.votingToken = some token
  delegation : (env.token token o).getDelegation voter = some none
  weight : (env.token token o).balanceAt voter p.snapshotLedger.toU64 = some r.weight

/-- The store after the vote has been retracted. -/
def Store.retracted (s : Store) (voter : Address) (id : U64) (p : Proposal) (r : VoteRecord) (less : I128) : Store :=
  (((s.setHasVoted id voter false).removeVoteRecord id voter).setProposal id (p.setTally r.vote less)).emit
    (.voteRetracted id voter r.weight)

/-- The store after the vote has been retracted and another one cast. -/
def Store.recast (s : Store) (voter : Address) (id : U64) (p : Proposal) (r : VoteRecord) (less : I128) (vote : Vote)
    (more : I128) (count : U32) : Store :=
  (((((s.retracted voter id p r less).setHasVoted id voter true).setVoteRecord id voter
    ⟨vote, r.weight⟩).setProposal id (((p.setTally r.vote less).setTally vote more).setVoterCount count)).emit
    (.voteCast id voter vote r.weight))

/-- Nothing else of what the calls look at has changed. -/
theorem Store.retracted_same (s : Store) (voter : Address) (id : U64) (p : Proposal) (r : VoteRecord) (less : I128) :
    ((s.retracted voter id p r less).Ready ↔ s.Ready) ∧
      (∀ q, (s.retracted voter id p r less).VoterAllowed voter q ↔ s.VoterAllowed voter q) ∧
      (s.retracted voter id p r less).votingToken = s.votingToken := by
  obtain ⟨⟩ := s
  exact ⟨Iff.rfl, fun _ => Iff.rfl, rfl⟩

theorem Store.recast_same (s : Store) (voter : Address) (id : U64) (p : Proposal) (r : VoteRecord) (less : I128)
    (vote : Vote) (more : I128) (count : U32) :
    ((s.recast voter id p r less vote more count).Ready ↔ s.Ready) ∧
      (∀ q, (s.recast voter id p r less vote more count).VoterAllowed voter q ↔ s.VoterAllowed voter q) ∧
      (s.recast voter id p r less vote more count).votingToken = s.votingToken := by
  obtain ⟨⟩ := s
  exact ⟨Iff.rfl, fun _ => Iff.rfl, rfl⟩

/-- What `cast_vote` and `retract_vote` look at is the same, but the counts. -/
theorem Proposal.Recount.same {p q : Proposal} (h : p.Recount q) :
    q.state = p.state ∧ q.startTime = p.startTime ∧ q.endTime = p.endTime ∧
      q.snapshotLedger = p.snapshotLedger ∧ q.proposer = p.proposer := by
  obtain ⟨_, _, _, _, rfl⟩ := h
  exact ⟨rfl, rfl, rfl, rfl, rfl⟩

namespace Recastable

variable {s : Store} {env : Env ω} {o : ω} {voter token : Address} {id : U64} {p : Proposal} {r : VoteRecord}
  {less more : I128} {vote : Vote} {count : U32}

theorem retract (h : Recastable s env o voter id token p r)
    (hless : (p.tally r.vote).val - r.weight.val = less.val) :
    Effect env s o (.retractVote voter id) (s.retracted voter id p r less) o :=
  .retractVote h.auth h.ready h.proposal h.state h.finish h.readable h.voted h.record hless

theorem cast (h : Recastable s env o voter id token p r)
    (hmore : ((p.setTally r.vote less).tally vote).val + r.weight.val = more.val)
    (hcount : p.voterCount.val + 1 = count.val) :
    Effect env (s.retracted voter id p r less) o (.castVote voter id vote)
      (s.recast voter id p r less vote more count) o := by
  obtain ⟨hstate, hstart, hend, hsnapshot, hproposer⟩ := ((Proposal.Recount.refl p).setTally r.vote less).same
  obtain ⟨hready, hallowed, htoken⟩ := s.retracted_same voter id p r less
  have hvoters := p.setTally_voterCount r.vote less
  have hflag : (s.retracted voter id p r less).hasVoted.lookup (id, voter) = some false := Finmap.lookup_insert _
  have hproposal : (s.retracted voter id p r less).proposals.lookup id = some (p.setTally r.vote less) :=
    Finmap.lookup_insert _
  have hvoted : (s.retracted voter id p r less).voted id voter = false := by
    rw [Store.voted, hflag]
    rfl
  rw [Store.recast]
  generalize s.retracted voter id p r less = s' at *
  generalize p.setTally r.vote less = p' at *
  refine .castVote h.auth (hready.2 h.ready) hproposal (hstate.trans h.state) (hstart ▸ h.start) (hend ▸ h.finish)
    (.inl (by rw [hflag]; rfl)) hvoted ((hallowed p').2 ?_) (htoken.trans h.votingToken) h.delegation
    (hsnapshot ▸ h.weight) h.positive hmore (hvoters ▸ hcount)
  rw [Store.VoterAllowed, hproposer]
  exact h.allowed

/-- Both calls succeed if one more voter can be counted. -/
theorem succeeds_iff (h : Recastable s env o voter id token p r)
    (hless : (p.tally r.vote).val - r.weight.val = less.val)
    (hmore : ((p.setTally r.vote less).tally vote).val + r.weight.val = more.val) :
    Succeeds s ⟨env, o, .retractVote voter id⟩ ∧
        Succeeds (step s ⟨env, o, .retractVote voter id⟩) ⟨env, o, .castVote voter id vote⟩ ↔
      p.voterCount.val < 4294967295 := by
  have hretract : Succeeds s ⟨env, o, .retractVote voter id⟩ := by
    rw [Succeeds, exec_of_effect (h.retract hless)]
  have hstep : step s ⟨env, o, .retractVote voter id⟩ = s.retracted voter id p r less :=
    step_of_effect (h.retract hless)
  have hvoters : (p.setTally r.vote less).voterCount = p.voterCount := p.setTally_voterCount r.vote less
  rw [and_iff_right hretract, hstep]
  constructor
  · intro hcast
    obtain ⟨o', he⟩ := hcast.effect
    generalize step (s.retracted voter id p r less) _ = s' at he
    cases he with
    | @castVote _ _ _ _ _ _ _ count _ _ hq _ _ _ _ _ _ _ _ _ _ _ hcount =>
      obtain rfl := Option.some_inj.1 ((Finmap.lookup_insert _).symm.trans hq)
      rw [hvoters] at hcount
      have hmax := count.le_hi
      omega
  · intro hlt
    obtain ⟨count, _, hcount⟩ : ∃ n : U32, IntRange.fit _ = some n ∧ n.val = p.voterCount.val + 1 :=
      IntRange.exists_fit (by have := p.voterCount.lo_le; omega) (by omega)
    rw [Succeeds, exec_of_effect (h.cast hmore hcount.symm)]

/-- Then the vote can be retracted and cast again. -/
theorem again (h : Recastable s env o voter id token p r) :
    Recastable (s.recast voter id p r less vote more count) env o voter id token
      (((p.setTally r.vote less).setTally vote more).setVoterCount count) ⟨vote, r.weight⟩ := by
  obtain ⟨hstate, hstart, hend, hsnapshot, hproposer⟩ :=
    ((((Proposal.Recount.refl p).setTally r.vote less).setTally vote more).setVoterCount count).same
  obtain ⟨hready, hallowed, htoken⟩ := s.recast_same voter id p r less vote more count
  have hflag : (s.recast voter id p r less vote more count).hasVoted.lookup (id, voter) = some true :=
    Finmap.lookup_insert _
  have hproposal : (s.recast voter id p r less vote more count).proposals.lookup id =
      some (((p.setTally r.vote less).setTally vote more).setVoterCount count) := Finmap.lookup_insert _
  have hrecord : (s.recast voter id p r less vote more count).voteRecords.lookup (id, voter) =
      some ⟨vote, r.weight⟩ := Finmap.lookup_insert _
  have hvoted : (s.recast voter id p r less vote more count).voted id voter = true := by
    rw [Store.voted, hflag]
    rfl
  have hreadable : (s.recast voter id p r less vote more count).FlagReadable env.ttl id voter :=
    .inl (by rw [hflag]; rfl)
  generalize s.recast voter id p r less vote more count = s' at *
  generalize ((p.setTally r.vote less).setTally vote more).setVoterCount count = p' at *
  exact
    { auth := h.auth
      ready := hready.2 h.ready
      proposal := hproposal
      state := hstate.trans h.state
      start := by rw [hstart]; exact h.start
      finish := by rw [hend]; exact h.finish
      readable := hreadable
      voted := hvoted
      record := hrecord
      positive := h.positive
      allowed := (hallowed _).2 (by rw [Store.VoterAllowed, hproposer]; exact h.allowed)
      votingToken := htoken.trans h.votingToken
      delegation := h.delegation
      weight := by rw [hsnapshot]; exact h.weight }

/-- The votes are those that changing the vote leaves. -/
theorem sameVotes (h : Recastable s env o voter id token p r) :
    SameVotes (((s.setVoteRecord id voter ⟨vote, r.weight⟩).setProposal id
        ((p.setTally r.vote less).setTally vote more)).emit (.voteChanged id voter r.vote vote r.weight))
      (s.recast voter id p r less vote more count) where
  tallies id' vote' := by
    rw [Store.recast, Store.retracted]
    simp only [Store.emit, Store.setProposal, Store.setVoteRecord, Store.setHasVoted, Store.removeVoteRecord,
      Finmap.lookup_insert_eq_ite]
    split
    · rw [Option.map_some, Option.map_some, Proposal.tally_setVoterCount]
    · rfl
  voted id' voter' := by
    rw [Store.voted, Store.recast, Store.retracted, Store.voted]
    simp only [Store.emit, Store.setProposal, Store.setVoteRecord, Store.setHasVoted, Store.removeVoteRecord,
      Finmap.lookup_insert_eq_ite]
    split
    · rename_i hkey
      obtain ⟨rfl, rfl⟩ := Prod.mk.inj hkey
      exact h.voted.symm
    · rfl
  voteRecords id' voter' := by
    rw [Store.recast, Store.retracted]
    simp only [Store.emit, Store.setProposal, Store.setVoteRecord, Store.setHasVoted, Store.removeVoteRecord,
      Finmap.lookup_insert_eq_ite]
    split
    · rfl
    · rename_i hkey
      exact Finmap.lookup_erase_ne hkey

end Recastable

/-- A proposal begins when it is created. -/
theorem Creates.startTime_eq {s : Store} {i : Input ω} {id : U64} {token : Address} (h : Creates s i id token) :
    ∃ p, (step s i).proposals.lookup id = some p ∧ p.startTime = i.env.timestamp := by
  obtain ⟨⟨_, _, _, _, _, _, _, hop⟩, hsucceeds, rfl, _⟩ := h
  obtain ⟨o, he⟩ := hsucceeds.effect_of hop
  generalize step s i = s' at he ⊢
  cases he with
  | createProposal => exact ⟨_, Finmap.lookup_insert _, rfl⟩

/-- So it has begun by any time that no call was later than. -/
theorem run_startTime_le {is : List (Input ω)} {now : U64} (hclock : ∀ i ∈ is, i.env.timestamp.val ≤ now.val)
    {id : U64} {p : Proposal} (hp : (run step Store.empty is).proposals.lookup id = some p) :
    p.startTime.val ≤ now.val := by
  obtain ⟨xs, i, ys, token, rfl, hcreates⟩ := exists_creates hp
  obtain ⟨q, hq, hstart⟩ := hcreates.startTime_eq
  rw [run_append, run_cons] at hp
  obtain ⟨p', hp', hterms⟩ := run_sameTerms (step_wellFormed _ i (run_wellFormed xs)) hq ys
  obtain rfl := Option.some_inj.1 (hp.symm.trans hp')
  rw [hterms.startTime, hstart]
  exact hclock i (List.mem_append_right _ List.mem_cons_self)

/-- In every reachable state, whenever a voter can change their vote, the token still weighs them as it did
    and they meet what `cast_vote` asks of a voter, they can also retract the vote and cast the new one,
    which leaves the same tallies, flags and records of all voters and proposals, exactly if the count of
    voters of the proposal is not at its limit. -/
theorem recast_iff {is : List (Input ω)} {env : Env ω} {o : ω} {voter token : Address} {id : U64} {vote : Vote}
    {p : Proposal} {r : VoteRecord} (hclock : ∀ i ∈ is, i.env.timestamp.val ≤ env.timestamp.val)
    (hchange : Succeeds (run step Store.empty is) ⟨env, o, .changeVote voter id vote⟩)
    (hp : (run step Store.empty is).proposals.lookup id = some p)
    (hr : (run step Store.empty is).voteRecords.lookup (id, voter) = some r)
    (htoken : (run step Store.empty is).votingToken = some token)
    (hweight : (env.token token o).balanceAt voter p.snapshotLedger.toU64 = some r.weight)
    (hdelegation : (env.token token o).getDelegation voter = some none)
    (hallowed : (run step Store.empty is).VoterAllowed voter p) :
    let change : Input ω := ⟨env, o, .changeVote voter id vote⟩
    let retract : Input ω := ⟨env, o, .retractVote voter id⟩
    let cast : Input ω := ⟨env, o, .castVote voter id vote⟩
    let s := run step Store.empty is
    (Succeeds s retract ∧ Succeeds (step s retract) cast ∧
        SameVotes (step s change) (step (step s retract) cast)) ↔ p.voterCount.val < 4294967295 := by
  intro change retract cast s
  have hstart := run_startTime_le hclock hp
  have hpositive := (run_correspondence is).weight_pos id voter r hr
  obtain ⟨o', he⟩ := hchange.effect
  generalize step (run step Store.empty is) _ = s' at he ⊢
  cases he with
  | @changeVote _ _ _ p' r' less more hauth hready hq hstate hend hflag hvoted hr' hne hless hmore =>
    obtain rfl := Option.some_inj.1 (hp.symm.trans hq)
    obtain rfl := Option.some_inj.1 (hr.symm.trans hr')
    have h : Recastable s env o voter id token p r :=
      ⟨hauth, hready, hp, hstate, hstart, hend, hflag, hvoted, hr, hpositive, hallowed, htoken, hdelegation,
        hweight⟩
    have hmore' : ((p.setTally r.vote less).tally vote).val + r.weight.val = more.val := by
      rw [Proposal.tally_setTally, if_neg (Ne.symm hne), hmore]
    have hiff := h.succeeds_iff hless hmore'
    refine ⟨fun ⟨hretract, hcast, _⟩ => hiff.1 ⟨hretract, hcast⟩, fun hlt => ?_⟩
    obtain ⟨hretract, hcast⟩ := hiff.2 hlt
    refine ⟨hretract, hcast, ?_⟩
    obtain ⟨count, _, hcount⟩ : ∃ n : U32, IntRange.fit _ = some n ∧ n.val = p.voterCount.val + 1 :=
      IntRange.exists_fit (by have := p.voterCount.lo_le; omega) (by omega)
    rw [step_of_effect (i := retract) (h.retract hless),
      step_of_effect (i := cast) (h.cast hmore' hcount.symm)]
    exact h.sameVotes

/-- The account `1` votes for its proposal. -/
def pollVotes (count : U32) : Proposal := (opened.setTally .yes (.lit 100)).setVoterCount count

/-- It can change its vote, or retract it and vote against the proposal. -/
theorem recast_iff_polled :
    let change := signed (.lit 2) (.changeVote (.account 1) (.lit 0) .no)
    let retract := signed (.lit 2) (.retractVote (.account 1) (.lit 0))
    let cast := signed (.lit 2) (.castVote (.account 1) (.lit 0) .no)
    let s := run step Store.empty polled
    Succeeds s retract ∧ Succeeds (step s retract) cast ∧
      SameVotes (step s change) (step (step s retract) cast) := by
  have hclock : ∀ i ∈ polled, i.env.timestamp.val ≤ 2 := by decide
  have hp : (run step Store.empty polled).proposals.lookup (.lit 0) = some (pollVotes (.lit 1)) := by decide
  have hr : (run step Store.empty polled).voteRecords.lookup (.lit 0, .account 1) = some ⟨.yes, .lit 100⟩ := by
    decide
  have htoken : (run step Store.empty polled).votingToken = some (.contract 3) := by decide
  have hchange : Succeeds (run step Store.empty polled)
      (signed (.lit 2) (.changeVote (.account 1) (.lit 0) .no)) := by decide
  exact (recast_iff hclock hchange hp hr htoken rfl rfl fun hrestrict => absurd hrestrict (by decide)).2 (by decide)

/-- The account `1` retracts its vote and casts it again, so many times. -/
def recasts (n : ℕ) : List (Input Unit) :=
  polled ++ (List.replicate n [signed (.lit 1) (.retractVote (.account 1) (.lit 0)),
    signed (.lit 1) (.castVote (.account 1) (.lit 0) .yes)]).flatten

/-- It is counted each time. -/
theorem recastable_recasts (n : ℕ) (hn : n < 4294967295) :
    ∃ count : U32, count.val = n + 1 ∧ Recastable (run step Store.empty (recasts n))
      (signed (.lit 1) (.retractVote (.account 1) (.lit 0))).env () (.account 1) (.lit 0) (.contract 3)
      (pollVotes count) ⟨.yes, .lit 100⟩ := by
  induction n with
  | zero =>
    refine ⟨.lit 1, rfl, ?_⟩
    exact
      { auth := rfl
        ready := ⟨by decide, by decide⟩
        proposal := by decide
        state := rfl
        start := by decide
        finish := by decide
        readable := .inr rfl
        voted := by decide
        record := by decide
        positive := by decide
        allowed := fun hrestrict => absurd hrestrict (by decide)
        votingToken := by decide
        delegation := rfl
        weight := rfl }
  | succ n ih =>
    obtain ⟨count, hcount, h⟩ := ih (by omega)
    have hless : ((pollVotes count).tally .yes).val - 100 = (.lit 0 : I128).val := rfl
    have hmore : (((pollVotes count).setTally .yes (.lit 0)).tally .yes).val + 100 = (.lit 100 : I128).val := rfl
    obtain ⟨count', _, hcount'⟩ : ∃ n : U32, IntRange.fit _ = some n ∧ n.val = count.val + 1 :=
      IntRange.exists_fit (by omega) (by omega)
    refine ⟨count', by push_cast; omega, ?_⟩
    have hrun : run step Store.empty (recasts (n + 1)) =
        step (step (run step Store.empty (recasts n)) (signed (.lit 1) (.retractVote (.account 1) (.lit 0))))
          (signed (.lit 1) (.castVote (.account 1) (.lit 0) .yes)) := by
      rw [recasts, List.replicate_succ', List.flatten_append, ← List.append_assoc, ← recasts, run_append]
      rfl
    rw [hrun, step_of_effect (h.retract hless), step_of_effect (h.cast hmore hcount'.symm)]
    exact h.again

/-- When it has been counted as often as possible, it can still change its vote, but a vote that it retracts
    cannot be cast again. -/
theorem recast_overflows :
    let change := signed (.lit 1) (.changeVote (.account 1) (.lit 0) .no)
    let retract := signed (.lit 1) (.retractVote (.account 1) (.lit 0))
    let cast := signed (.lit 1) (.castVote (.account 1) (.lit 0) .no)
    let s := run step Store.empty (recasts 4294967294)
    (∃ p, Recastable s retract.env () (.account 1) (.lit 0) (.contract 3) p ⟨.yes, .lit 100⟩) ∧
      Succeeds s change ∧ ¬(Succeeds s retract ∧ Succeeds (step s retract) cast) := by
  intro change retract cast s
  obtain ⟨count, hcount, h⟩ := recastable_recasts 4294967294 (by decide)
  have hless : ((pollVotes count).tally .yes).val - 100 = (.lit 0 : I128).val := rfl
  have hno : ((pollVotes count).tally .no).val + 100 = (.lit 100 : I128).val := rfl
  have hmore : (((pollVotes count).setTally .yes (.lit 0)).tally .no).val + 100 = (.lit 100 : I128).val := rfl
  have hchange : Effect change.env s () change.op _ () :=
    .changeVote h.auth h.ready h.proposal h.state h.finish h.readable h.voted h.record nofun hless hno
  refine ⟨⟨_, h⟩, ?_, fun hboth => ?_⟩
  · exact congrArg Prod.fst (exec_of_effect hchange)
  · have hlt : count.val < 4294967295 := (h.succeeds_iff hless hmore).1 hboth
    omega

end CosmosVote.Governance
