import CosmosVote.Election
import CosmosVote.Governance.Outcome
import CosmosVote.Governance.Pause
import CosmosVote.Governance.Texts

/-!
# Governance holds elections

Every call of governance, whatever it writes, is a move of an election (`Effect.move`): the proposals are the
questions, the recorded votes are the ballots, and the admin is in the chair (`Store.election`). The tallies are
not part of it: they are what the ballots add up to, and the decision is by them.

* `Store.moment`: what governance asks the host and the voting token for, when it is called;
* `election_refinement`: every run of calls is a path of the election;
* `outcome_fixed`: so once the voting period is over, only one decision is left.
-/

namespace CosmosVote.Governance

open Soroban Election

variable {ω : Type}

/-! ## The election -/

def ProposalState.phase : ProposalState → Phase
  | .active => .undecided
  | .passed => .accepted
  | .rejected => .refused
  | .executed => .carriedOut
  | .cancelled => .withdrawn

/-- The quorum is met, and more weight is for than against. -/
def majority : Rule Vote := fun quorum count =>
  quorum ≤ count .yes + count .no + count .abstain ∧ count .no < count .yes

/-- The ballot of a record. -/
def VoteRecord.paper (r : VoteRecord) : Vote × ℤ := (r.vote, r.weight.val)

theorem VoteRecord.paper_injective : Function.Injective VoteRecord.paper := by
  intro r r' h
  obtain ⟨hvote, hweight⟩ := Prod.ext_iff.1 h
  cases r
  cases r'
  exact congrArg₂ VoteRecord.mk hvote (IntRange.val_inj.1 hweight)

/-- The question of a proposal, with the ballots that are recorded for `id`. -/
def Store.question (s : Store) (id : U64) (p : Proposal) : Question Address Vote (Text × Text) U32 where
  author := p.proposer
  text := (p.title, p.description)
  ballots voter := (s.voteRecords.lookup (id, voter)).map VoteRecord.paper
  quorum := p.quorum.val
  opens := p.startTime.val
  period := (p.endTime.val - p.startTime.val).toNat
  register := p.snapshotLedger
  phase := p.state.phase

/-- What governance stores, as an election. -/
def Store.election (s : Store) : State U64 Address Vote (Text × Text) U32 where
  chair := s.admin
  questions id := (s.proposals.lookup id).map (s.question id)

/-- What the voting token says of a voter who has not delegated. -/
def TokenView.weighs (view : TokenView) (voter : Address) (ledger : U32) : Option ℤ :=
  if view.getDelegation voter = some none then (view.balanceAt voter ledger.toU64).map IntRange.val else none

/-- The moment of a call. -/
def Store.moment (s : Store) (env : Env ω) (o : ω) : Moment Address U32 where
  now := env.timestamp.val
  register := env.sequence
  signed a := env.auth a = true
  weighs voter ledger := s.votingToken.bind fun token => (env.token token o).weighs voter ledger

/-- The moments of a run of calls. -/
def moments (s : Store) : List (Input ω) → List (Moment Address U32)
  | [] => []
  | i :: is => s.moment i.env i.outside :: moments (step s i) is

variable {s s' : Store} {id : U64} {p p' : Proposal}

theorem Store.questions_of_lookup (hp : s.proposals.lookup id = some p) :
    s.election.questions id = some (s.question id p) := congrArg (Option.map (s.question id)) hp

theorem Store.questions_of_none (hp : s.proposals.lookup id = none) : s.election.questions id = none :=
  congrArg (Option.map (s.question id)) hp

theorem Store.question_closes (horder : p.startTime.val ≤ p.endTime.val) :
    (s.question id p).closes = p.endTime.val := by
  change p.startTime.val + ((p.endTime.val - p.startTime.val).toNat : ℤ) = p.endTime.val
  omega

/-- The first tenth of the voting period. -/
theorem Store.question_window (horder : p.startTime.val ≤ p.endTime.val) :
    (s.question id p).opens + ((s.question id p).period : ℤ) / 10 =
      p.startTime.val + (p.endTime.val - p.startTime.val) / 10 := by
  change p.startTime.val + ((p.endTime.val - p.startTime.val).toNat : ℤ) / 10 = _
  rw [Int.toNat_of_nonneg (by omega)]

/-- The ballots add up to what is recorded. -/
theorem Store.question_count (s : Store) (id : U64) (p : Proposal) (vote : Vote) :
    (s.question id p).count vote = s.recorded id vote := by
  have hshare (voter : Address) : Election.share vote ((s.question id p).ballots voter) =
      counted (s.voteRecords.lookup (id, voter)) vote := by
    change Election.share vote ((s.voteRecords.lookup (id, voter)).map VoteRecord.paper) = _
    cases s.voteRecords.lookup (id, voter) <;> rfl
  rw [Question.count, s.recorded_eq_sum_voters, finsum_congr hshare]
  refine finsum_eq_sum_of_support_subset _ fun voter hvoter => ?_
  -- Who counts for anything has a record.
  rw [Finset.mem_coe, mem_voters]
  by_contra hnone
  rw [Option.not_isSome_iff_eq_none] at hnone
  exact hvoter (congrArg (counted · vote) hnone)

/-- The ballots decide as the tallies do. -/
theorem TallyCorrespondence.carried_iff (ht : TallyCorrespondence s) (hp : s.proposals.lookup id = some p) :
    (s.question id p).Carried majority ↔ p.Approved := by
  rw [Question.Carried, majority, Store.question_count, Store.question_count, Store.question_count,
    ← ht.tally_eq id p hp, ← ht.tally_eq id p hp, ← ht.tally_eq id p hp]
  rfl

/-- There are no records for a proposal that has not been made. -/
theorem TallyCorrespondence.no_records (ht : TallyCorrespondence s) (hp : s.proposals.lookup id = none)
    (voter : Address) : s.voteRecords.lookup (id, voter) = none := by
  by_contra hsome
  have hmade := ht.on_proposal id voter (Option.isSome_iff_ne_none.2 hsome)
  rw [hp] at hmade
  cases hmade

/-! ## The calls -/

/-- A call that writes one proposal, and no records but for it, writes one question. -/
theorem Store.election_set (hproposals : s'.proposals = s.proposals.insert id p') (hadmin : s'.admin = s.admin)
    (hrecords : ∀ k : U64 × Address, k.1 ≠ id → s'.voteRecords.lookup k = s.voteRecords.lookup k) :
    s'.election = s.election.set id (s'.question id p') := by
  refine State.ext hadmin (funext fun id' => ?_)
  rw [State.questions_set]
  by_cases hid : id' = id
  · rw [if_pos hid, hid]
    exact Store.questions_of_lookup (by rw [hproposals, Finmap.lookup_insert])
  · -- Of another proposal, neither the terms nor the records are written.
    rw [if_neg hid]
    have hquestion : s'.question id' = s.question id' := by
      funext q
      rw [Store.question, Store.question]
      congr 1
      funext voter
      rw [hrecords (id', voter) hid]
    change (s'.proposals.lookup id').map (s'.question id') = (s.proposals.lookup id').map (s.question id')
    rw [hproposals, Finmap.lookup_insert_of_ne _ hid, hquestion]

/-- The ballot of a voter whose record has been written. -/
theorem Store.question_setBallot {voter : Address} {r : Option VoteRecord} (hrecount : p.Recount p')
    (hlookup : s'.voteRecords.lookup (id, voter) = r)
    (hother : ∀ v, v ≠ voter → s'.voteRecords.lookup (id, v) = s.voteRecords.lookup (id, v)) :
    s'.question id p' = (s.question id p).setBallot voter (r.map VoteRecord.paper) := by
  obtain ⟨yes, no, abstain, count, rfl⟩ := hrecount
  rw [Question.setBallot, Store.question, Store.question]
  congr 1
  funext v
  rw [Function.update_apply]
  split
  · rename_i hv
    rw [hv, hlookup]
  · rename_i hv
    rw [hother v hv]

section Calls

variable {env : Env ω} {op : Op} {o o' : ω}

/-- The admin has signed a call of theirs. -/
theorem Store.moment_bySign {admin : Address} (hadmin : s.admin = some admin) (hauth : env.auth admin = true) :
    (s.moment env o).BySign s.election.chair := ⟨admin, hadmin, hauth⟩

/-- What a vote does to the ballots. -/
theorem Store.election_vote {voter : Address} {r : Option VoteRecord} (hp : s.proposals.lookup id = some p)
    (hproposals : s'.proposals = s.proposals.insert id p') (hadmin : s'.admin = s.admin)
    (hrecount : p.Recount p') (hlookup : s'.voteRecords.lookup (id, voter) = r)
    (hother : ∀ k, k ≠ (id, voter) → s'.voteRecords.lookup k = s.voteRecords.lookup k)
    (hstep : (s.question id p).Step majority s.election.chair (s.moment env o)
      ((s.question id p).setBallot voter (r.map VoteRecord.paper))) :
    Move majority (s.moment env o) s.election s'.election := by
  rw [Store.election_set hproposals hadmin fun k hk => hother k fun h => hk (congrArg Prod.fst h),
    Store.question_setBallot hrecount hlookup fun v hv => hother _ fun h => hv (congrArg Prod.snd h)]
  exact .act (Store.questions_of_lookup hp) hstep

/-- A proposal is put to the vote, if there are no records for it yet. -/
theorem Store.election_put (hnew : s.proposals.lookup id = none)
    (hproposals : s'.proposals = s.proposals.insert id p) (hadmin : s'.admin = s.admin)
    (hrecords : s'.voteRecords = s.voteRecords)
    (hnone : ∀ voter, s.voteRecords.lookup (id, voter) = none) (hstate : p.state = .active)
    (hauth : env.auth p.proposer = true) (hpos : 0 < p.quorum.val) (hnow : p.startTime = env.timestamp)
    (hregister : p.snapshotLedger = env.sequence) : Move majority (s.moment env o) s.election s'.election := by
  rw [Store.election_set hproposals hadmin fun k _ => by rw [hrecords]]
  refine .put (Store.questions_of_none hnew) (congrArg ProposalState.phase hstate) (fun voter => ?_) hauth hpos
    (congrArg IntRange.val hnow) hregister
  exact Option.map_eq_none_iff.2 (by rw [hrecords, hnone])

/-- What another call does to a proposal it names. -/
theorem Store.election_edit (hp : s.proposals.lookup id = some p)
    (hproposals : s'.proposals = s.proposals.insert id p') (hadmin : s'.admin = s.admin)
    (hrecords : s'.voteRecords = s.voteRecords)
    (hstep : (s.question id p).Step majority s.election.chair (s.moment env o) (s.question id p')) :
    Move majority (s.moment env o) s.election s'.election := by
  have hquestion : s'.question id p' = s.question id p' := by rw [Store.question, Store.question, hrecords]
  rw [Store.election_set hproposals hadmin fun k _ => by rw [hrecords], hquestion]
  exact .act (Store.questions_of_lookup hp) hstep

/-- Every call makes a move of the election. -/
theorem Effect.move (h : Effect env s o op s' o') (hs : WellFormed s) (ht : TallyCorrespondence s)
    (hfresh : Fresh s) : Move majority (s.moment env o) s.election s'.election := by
  have hcall := h
  have hphase {id : U64} {p : Proposal} {x : ProposalState} (hstate : p.state = x) :
      (s.question id p).phase = x.phase := congrArg ProposalState.phase hstate
  have hend {id : U64} {p : Proposal} (hp : s.proposals.lookup id = some p) :
      (s.question id p).closes = p.endTime.val := Store.question_closes (hs.proper id p hp).start_le_end
  cases h with
  | initializeContract hinit => exact .appoint (hfresh hinit).1
  | createProposal hauth _ _ _ _ hquorum =>
    exact Store.election_put hs.next_none rfl rfl rfl (ht.no_records hs.next_none) rfl hauth hquorum rfl rfl
  | amendProposal hauth hready hp hproposer hstate htotal hnone =>
    refine Store.election_edit hp rfl rfl rfl (.amend _ (hphase hstate) (fun voter => ?_) ?_)
    · -- It looks at the sum of the tallies.
      exact congrArg (Option.map VoteRecord.paper) (hcall.no_votes ht ⟨_, _, _, rfl⟩ voter)
    · exact (congrArg (env.auth ·) hproposer).trans hauth
  | castVote hauth _ hp hstate hstart hlate _ hvoted _ htoken hdelegate hweight hpos =>
    refine Store.election_vote hp rfl rfl (((Proposal.Recount.refl _).setTally _ _).setVoterCount _)
      (Finmap.lookup_insert _) (fun k hk => Finmap.lookup_insert_of_ne _ hk) ?_
    refine .cast _ (hphase hstate) hstart ?_ hauth ?_ ?_ hpos
    · rw [hend hp]
      exact hlate
    · exact congrArg (Option.map VoteRecord.paper) (ht.lookup_none hvoted)
    · change s.votingToken.bind _ = _
      rw [htoken, Option.bind_some, TokenView.weighs, if_pos hdelegate]
      exact congrArg (Option.map IntRange.val) hweight
  | retractVote hauth _ hp hstate hlate _ _ hr =>
    refine Store.election_vote hp rfl rfl ((Proposal.Recount.refl _).setTally _ _)
      (Finmap.lookup_erase _ _) (fun k hk => Finmap.lookup_erase_ne hk) ?_
    refine .retract (hphase hstate) ?_ hauth (congrArg (Option.map VoteRecord.paper) hr)
    rw [hend hp]
    exact hlate
  | @changeVote _ _ vote _ _ _ _ hauth _ hp hstate hlate _ _ hr hne =>
    refine Store.election_vote hp rfl rfl (((Proposal.Recount.refl _).setTally _ _).setTally _ _)
      (Finmap.lookup_insert _) (fun k hk => Finmap.lookup_insert_of_ne _ hk) ?_
    refine .change vote (hphase hstate) ?_ hauth (congrArg (Option.map VoteRecord.paper) hr) hne
    rw [hend hp]
    exact hlate
  | @finalise id p total _ hp hstate hlate htotal =>
    refine Store.election_edit hp rfl rfl rfl ?_
    have hdecides := ht.carried_iff hp
    rw [Proposal.Approved, ← Proposal.totalVotes_eq htotal] at hdecides
    rw [Proposal.withOutcome, if_neg fun h => h (hs.proper id p hp).choices_eq]
    split
    · rename_i h
      exact .accept (hphase hstate) ((hend hp).trans_lt hlate) (hdecides.2 h)
    · rename_i h
      exact .refuse (hphase hstate) ((hend hp).trans_lt hlate) (hdecides.not.2 h)
  | execute hauth hadmin hp hstate =>
    exact Store.election_edit hp rfl rfl rfl (.carryOut (hphase hstate) (Store.moment_bySign hadmin hauth))
  | executeDisburse hauth hadmin hp hstate =>
    exact Store.election_edit hp rfl rfl rfl (.carryOut (hphase hstate) (Store.moment_bySign hadmin hauth))
  | cancel hauth hadmin hp hstate =>
    exact Store.election_edit hp rfl rfl rfl (.withdraw (hphase hstate) (Store.moment_bySign hadmin hauth))
  | updateQuorum hauth hadmin hquorum _ _ _ hp hstate hwindow hdeadline hnow =>
    refine Store.election_edit hp rfl rfl rfl
      (.adjust (hphase hstate) ?_ (Store.moment_bySign hadmin hauth) hquorum)
    have horder := (hs.proper _ _ hp).start_le_end
    rw [Store.question_window horder, ← Proposal.window_eq _ horder hwindow, hdeadline]
    exact hnow
  | acceptAdmin hauth _ hadmin =>
    refine .handOver (fun hnone => ?_) hauth
    cases hadmin.symm.trans hnone
  | _ => exact .rest

end Calls

/-! ## Runs -/

/-- Every run of calls is a path of the election. -/
theorem run_path {s : Store} (hs : WellFormed s) (ht : TallyCorrespondence s) (hfresh : Fresh s)
    (is : List (Input ω)) : Path majority (moments s is) s.election (run step s is).election := by
  induction is generalizing s with
  | nil => exact .nil _
  | cons i is ih =>
    have hmove : Move majority (s.moment i.env i.outside) s.election (step s i).election := by
      rcases step_cases s i with ⟨o, _, he⟩ | hsame
      · exact he.move hs ht hfresh
      · rw [hsame]
        exact .rest
    exact .cons hmove (ih (step_wellFormed s i hs) (step_correspondence hs ht i)
      (step_invariant hfresh fun _ _ he => hfresh.of_effect he))

/-- The clock of a moment is that of its call. -/
theorem forall_moments {P : ℤ → Prop} {s : Store} {is : List (Input ω)}
    (h : ∀ i ∈ is, P i.env.timestamp.val) : ∀ m ∈ moments s is, P m.now := by
  induction is generalizing s with
  | nil => exact List.forall_mem_nil _
  | cons i is ih =>
    rw [List.forall_mem_cons] at h
    exact List.forall_mem_cons.2 ⟨h.1, ih h.2⟩

/-- Governance refines an election: its first state is the empty one, every run of calls from a reachable
    state is a path of the election, whatever the voting token and the treasury answer, and in every reachable
    state, the tallies of a proposal are what its ballots add up to, and it closes at its end. -/
theorem election_refinement (is js : List (Input ω)) :
    Store.empty.election = State.initial ∧
    Path majority (moments (run step Store.empty is) js) (run step Store.empty is).election
      (run step Store.empty (is ++ js)).election ∧
    ∀ id p, (run step Store.empty is).proposals.lookup id = some p →
      ∃ q, (run step Store.empty is).election.questions id = some q ∧ q.phase = p.state.phase ∧
        q.quorum = p.quorum.val ∧ q.closes = p.endTime.val ∧ ∀ vote, q.count vote = (p.tally vote).val := by
  have hs := run_wellFormed is
  have ht := run_correspondence is
  refine ⟨rfl, ?_, fun id p hp => ⟨_, Store.questions_of_lookup hp, rfl, rfl,
    Store.question_closes (hs.proper id p hp).start_le_end, fun vote => ?_⟩⟩
  · rw [run_append]
    exact run_path hs ht (run_fresh is) js
  · rw [Store.question_count, ht.tally_eq id p hp]

/-- How the state of a proposal may go on after its voting period. -/
inductive Proposal.Remains (p : Proposal) : ProposalState → Prop
  | same : p.Remains p.state
  | passed (h : p.state = .active) (happroved : p.Approved) : p.Remains .passed
  | rejected (h : p.state = .active) (happroved : ¬p.Approved) : p.Remains .rejected
  | executed (h : p.state = .active ∧ p.Approved ∨ p.state = .passed) : p.Remains .executed
  | cancelled (h : p.state = .active) : p.Remains .cancelled

theorem ProposalState.phase_inj {x y : ProposalState} (h : x.phase = y.phase) : x = y := by
  cases x <;> cases y <;> first | rfl | cases h

/-- The phases that a phase leads to are those of the states that are left. -/
theorem Proposal.remains_of_leads {carried : Prop} {x : ProposalState} (hcarried : carried ↔ p.Approved)
    (h : Question.Leads carried p.state.phase x.phase) : p.Remains x := by
  generalize hphase : p.state.phase = y at h
  generalize hx : x.phase = z at h
  cases h with
  | refl => exact ProposalState.phase_inj (hphase.trans hx.symm) ▸ .same
  | accepted happroved =>
    obtain rfl : x = .passed := ProposalState.phase_inj hx
    exact .passed (ProposalState.phase_inj hphase) (hcarried.1 happroved)
  | refused happroved =>
    obtain rfl : x = .rejected := ProposalState.phase_inj hx
    exact .rejected (ProposalState.phase_inj hphase) (hcarried.not.1 happroved)
  | decided happroved =>
    obtain rfl : x = .executed := ProposalState.phase_inj hx
    exact .executed (.inl ⟨ProposalState.phase_inj hphase, hcarried.1 happroved⟩)
  | withdrawn =>
    obtain rfl : x = .cancelled := ProposalState.phase_inj hx
    exact .cancelled (ProposalState.phase_inj hphase)
  | carriedOut =>
    obtain rfl : x = .executed := ProposalState.phase_inj hx
    exact .executed (.inr (ProposalState.phase_inj hphase))

/-- From the end of its voting period on, as long as the clock does not go back, whatever calls are made, the
    outcome of a proposal is settled: its tallies, its records and its quorum do not change any more, and it
    is finalised, if ever, by the decision that they ask for now; until then it may only be cancelled. -/
theorem outcome_fixed (is js : List (Input ω)) {id : U64} {p : Proposal}
    (hp : (run step Store.empty is).proposals.lookup id = some p)
    (hlate : ∀ j ∈ js, p.endTime.val < j.env.timestamp.val) :
    ∃ p', (run step Store.empty (is ++ js)).proposals.lookup id = some p' ∧
      (∀ vote, p'.tally vote = p.tally vote) ∧ p'.quorum = p.quorum ∧
      (∀ voter, (run step Store.empty (is ++ js)).voteRecords.lookup (id, voter) =
        (run step Store.empty is).voteRecords.lookup (id, voter)) ∧ p.Remains p'.state := by
  have hs := run_wellFormed is
  have ht := run_correspondence is
  obtain ⟨p', hp', _⟩ := run_sameTerms hs hp js
  rw [← run_append] at hp'
  have hpath := run_path hs ht (run_fresh is) js
  rw [← run_append] at hpath
  obtain ⟨q, hq, _, hballots, hquorum, hleads⟩ := hpath.closed (Store.questions_of_lookup hp) <|
    forall_moments fun j hj => by
      rw [Store.question_closes (hs.proper id p hp).start_le_end]
      exact hlate j hj
  obtain rfl := Option.some_inj.1 ((Store.questions_of_lookup hp').symm.trans hq)
  refine ⟨p', hp', fun vote => ?_, IntRange.val_inj.1 hquorum, fun voter => ?_,
    Proposal.remains_of_leads (ht.carried_iff hp) hleads⟩
  · -- The tallies are what the ballots add up to.
    rw [← IntRange.val_inj, (run_correspondence (is ++ js)).tally_eq id p' hp', ht.tally_eq id p hp,
      ← Store.question_count _ id p', ← Store.question_count _ id p, Question.count, Question.count, hballots]
  · exact Option.map_injective VoteRecord.paper_injective (congrFun hballots voter)

/-- The vote of the account `1` is decided on by a `finalise` after the minute; before it, the admin pauses
    governance and a voter tries to vote. -/
def closing : List (Input Unit) :=
  [signed (.lit 61) (.pause (.account 9)), signed (.lit 62) (.castVote (.account 2) (.lit 0) .no),
    signed (.lit 63) (.unpause (.account 9)), signed (.lit 64) (.finalise (.lit 0))]

theorem outcome_fixed_closing :
    ∃ p', (run step Store.empty (opening ++ [signed (.lit 1) (.castVote (.account 1) (.lit 0) .yes)] ++
        closing)).proposals.lookup (.lit 0) = some p' ∧ p'.state = .passed ∧ (p'.tally .yes).val = 100 := by
  have hp : (run step Store.empty (opening ++
      [signed (.lit 1) (.castVote (.account 1) (.lit 0) .yes)])).proposals.lookup (.lit 0) =
        some ((opened.setTally .yes (.lit 100)).setVoterCount (.lit 1)) := by decide
  have hstate : ((run step Store.empty (opening ++ [signed (.lit 1) (.castVote (.account 1) (.lit 0) .yes)] ++
      closing)).proposals.lookup (.lit 0)).map Proposal.state = some .passed := by decide
  obtain ⟨p', hp', htally, _⟩ := outcome_fixed _ closing hp (by decide)
  rw [hp'] at hstate
  refine ⟨p', hp', Option.some_inj.1 hstate, ?_⟩
  rw [htally]
  rfl

end CosmosVote.Governance
