import CosmosVote.System.World

/-!
# The weight of a vote

A proposal records the ledger it was created at, and a vote is meant to weigh what the
voter held then. The token does not keep past balances: it answers `balance_at` with
the balance of the moment. So a vote weighs what the voter holds when it is cast, and
what follows from the snapshot holds of the runs in which that makes no difference.

* `total_votes_le_supply`: if nobody votes with more than they held when the proposal
  was created, the votes are at most the supply of that moment;
* `finalise_succeeds`: under the same condition, the proposal can be finalised;
* `snapshot_isolation`: two votes of one voter weigh the same exactly if they are cast
  at the same balance.

Each comes with a run in which tokens are moved between two votes, and it fails.
-/

namespace CosmosVote.System

open Soroban

variable {d : Deployment}

/-! ## After a proposal is created -/

variable (d) in
/-- The transaction creates the proposal `id`, to be voted on with the token of the deployment. -/
structure Creates (w : World) (tx : Tx) (id : U64) : Prop where
  calls : ∃ proposer title description quorum duration link action,
    Calls d w tx (.createProposal proposer title description quorum duration link action)
  id_eq : id = w.governance.proposalCount
  token : w.governance.votingToken = some d.token

/-- What stays true of a proposal that was created: while it is active, the votes on it are weighed by
    the token of the deployment. -/
structure Created (token : Address) (id : U64) (s : Governance.Store) : Prop where
  wellFormed : Governance.WellFormed s
  ready : s.contractState = .ready
  exists_proposal : ∃ p, s.proposals.lookup id = some p ∧
    (p.state = .active → s.votingToken = some token)

/-- A proposal has no votes when it is created. -/
theorem Creates.created {w : World} {tx : Tx} {id : U64} (hw : Governance.WellFormed w.governance)
    (ht : Governance.TallyCorrespondence w.governance) (h : Creates d w tx id) :
    Created d.token id (step d w tx).governance ∧
      ∀ voter, (step d w tx).governance.voteRecords.lookup (id, voter) = none := by
  obtain ⟨⟨_, _, _, _, _, _, _, hcalls⟩, hid, htoken⟩ := h
  obtain ⟨o, he⟩ := hcalls.effect
  have hw' := hw.of_change he.change
  -- A record would be one on a proposal that was not there yet.
  have hnone (voter : Address) : w.governance.voteRecords.lookup (id, voter) = none := by
    by_contra hne
    have hsome := ht.on_proposal id voter (Option.isSome_iff_ne_none.2 hne)
    rw [hid, hw.next_none] at hsome
    cases hsome
  generalize (step d w tx).governance = s' at he hw' ⊢
  generalize w.governance = s at he hid htoken hnone
  obtain ⟨⟩ := s
  cases he with
  | createProposal _ hready =>
    refine ⟨⟨hw', hready.1, ?_⟩, hnone⟩
    rw [hid]
    exact ⟨_, Finmap.lookup_insert _, fun _ => htoken⟩

/-- Transactions keep what is true of a created proposal. -/
theorem Created.step {id : U64} {w : World} (h : Created d.token id w.governance) (tx : Tx) :
    Created d.token id (step d w tx).governance := by
  rcases step_governance d w tx with hsame | ⟨op, o, _, he⟩
  · rwa [hsame]
  · obtain ⟨hw, hready, p, hp, htoken⟩ := h
    exact ⟨hw.of_change he.change, he.change.ready hready, he.keeps_votingToken hw hready hp htoken⟩

/-- A weight that is recorded was recorded before, or is the balance at which a vote has just been
    cast. -/
theorem Created.weight {id : U64} {w : World} (h : Created d.token id w.governance) {tx : Tx}
    {voter : Address} {r : Governance.VoteRecord}
    (hr : (System.step d w tx).governance.voteRecords.lookup (id, voter) = some r) :
    (∃ r', w.governance.voteRecords.lookup (id, voter) = some r' ∧ r'.weight = r.weight) ∨
    Calls d w tx (.castVote voter id r.vote) ∧ r.weight = w.token.balance voter := by
  rcases step_governance d w tx with hsame | ⟨op, o, hop, he⟩
  · rw [hsame] at hr
    exact .inl ⟨r, hr, rfl⟩
  · rcases he.weight hr with hold | ⟨token, p, rfl, hp, hactive, htoken, hweight⟩
    · exact .inl hold
    · -- The token that was asked is that of the deployment, which answers with the balance.
      obtain ⟨q, hq, htoken'⟩ := h.exists_proposal
      obtain rfl := Option.some_inj.1 (hp.symm.trans hq)
      obtain rfl := Option.some_inj.1 (htoken.symm.trans (htoken' hactive))
      exact .inr ⟨.of_effect hop he, Option.some_inj.1 (hweight.symm.trans (view_balanceAt ..))⟩

/-- The weight of a vote that is cast. -/
theorem Created.cast_weight {id : U64} {w : World} (h : Created d.token id w.governance) {tx : Tx}
    {voter : Address} {vote : Governance.Vote} (hcast : Calls d w tx (.castVote voter id vote)) :
    ∃ r, (System.step d w tx).governance.voteRecords.lookup (id, voter) = some r ∧
      r.weight = w.token.balance voter := by
  obtain ⟨o, he⟩ := hcast.effect
  obtain ⟨q, hq, htoken'⟩ := h.exists_proposal
  generalize (System.step d w tx).governance = s' at he ⊢
  cases he with
  | castVote _ _ hp hactive _ _ _ _ _ htoken _ hweight =>
    obtain rfl := Option.some_inj.1 (hp.symm.trans hq)
    obtain rfl := Option.some_inj.1 (htoken.symm.trans (htoken' hactive))
    exact ⟨_, Finmap.lookup_insert _, Option.some_inj.1 (hweight.symm.trans (view_balanceAt ..))⟩

variable (d) in
/-- If the transaction casts a vote on the proposal `id`, it is at a balance that meets `Q`. -/
def CastsAt (id : U64) (Q : Address → I128 → Prop) (w : World) (tx : Tx) : Prop :=
  ∀ voter vote, Calls d w tx (.castVote voter id vote) → Q voter (w.token.balance voter)

/-- If all votes are cast at balances that meet `Q`, all recorded weights do. -/
theorem Created.run_weight {id : U64} {w : World} (h : Created d.token id w.governance)
    {Q : Address → I128 → Prop}
    (hw : ∀ voter r, w.governance.voteRecords.lookup (id, voter) = some r → Q voter r.weight)
    {txs : List Tx} (hcasts : Along (System.step d) (CastsAt d id Q) w txs) :
    ∀ voter r, (run (System.step d) w txs).governance.voteRecords.lookup (id, voter) = some r →
      Q voter r.weight := by
  refine (run_invariant_of (I := fun w => Created d.token id w.governance ∧
    ∀ voter r, w.governance.voteRecords.lookup (id, voter) = some r → Q voter r.weight)
    ?_ hcasts ⟨h, hw⟩).2
  rintro w tx hcast ⟨h, hw⟩
  refine ⟨h.step tx, fun voter r hr => ?_⟩
  rcases h.weight hr with ⟨r', hr', hweight⟩ | ⟨hcalls, hweight⟩
  · rw [← hweight]
    exact hw voter r' hr'
  · rw [hweight]
    exact hcast voter r.vote hcalls

section Runs

variable {txs₀ txs : List Tx} {tx₀ : Tx} {id : U64}

theorem Creates.run_created (h : Creates d (d.after txs₀) tx₀ id) (txs : List Tx) :
    Created d.token id (d.after (txs₀ ++ tx₀ :: txs)).governance := by
  rw [d.after_cons]
  exact run_invariant (I := fun w : World => Created d.token id w.governance) (fun _ tx hw => hw.step tx)
    (h.created (run_wellFormed d txs₀) (run_correspondence d txs₀)).1 txs

/-- The weights recorded after a proposal was created meet what the balances did at which the votes
    were cast. -/
theorem Creates.run_weight (h : Creates d (d.after txs₀) tx₀ id) {Q : Address → I128 → Prop}
    (hcasts : Along (step d) (CastsAt d id Q) (step d (d.after txs₀) tx₀) txs)
    (voter : Address) (r : Governance.VoteRecord)
    (hr : (d.after (txs₀ ++ tx₀ :: txs)).governance.voteRecords.lookup (id, voter) = some r) :
    Q voter r.weight := by
  obtain ⟨hcreated, hnone⟩ := h.created (run_wellFormed d txs₀) (run_correspondence d txs₀)
  rw [d.after_cons] at hr
  exact hcreated.run_weight (fun voter r hr => by rw [hnone] at hr; cases hr) hcasts voter r hr

end Runs

/-! ## The votes and the supply -/

variable (d) in
/-- If the transaction casts a vote on the proposal `id`, the voter holds at most `bal` of them. -/
def CastsWithin (id : U64) (bal : Address → I128) : World → Tx → Prop :=
  CastsAt d id fun voter v => v.val ≤ (bal voter).val

section Bounds

variable {txs₀ txs : List Tx} {tx₀ : Tx} {id : U64} {p : Governance.Proposal}

/-- If nobody votes on a proposal with more than they held when it was created, the recorded weights
    are at most what all held then. -/
theorem Creates.turnout_le (hcreates : Creates d (d.after txs₀) tx₀ id)
    (hnonneg : Token.Nonneg (d.after txs₀).token)
    (hcasts : Along (step d) (CastsWithin d id (d.after txs₀).token.balance)
      (step d (d.after txs₀) tx₀) txs) :
    (d.after (txs₀ ++ tx₀ :: txs)).governance.turnout id ≤ (d.after txs₀).token.held := by
  refine Governance.Store.turnout_le (Token.Nonneg.entry hnonneg) fun voter r hr => ?_
  rw [Token.termAt_balances]
  exact hcreates.run_weight hcasts voter r hr

/-- If nobody votes on a proposal with more than they held when it was created, its votes are at most
    the supply at that moment. -/
theorem total_votes_le_supply (hcreates : Creates d (d.after txs₀) tx₀ id)
    (hnonneg : Token.Nonneg (d.after txs₀).token)
    (hcasts : Along (step d) (CastsWithin d id (d.after txs₀).token.balance)
      (step d (d.after txs₀) tx₀) txs)
    (hp : (d.after (txs₀ ++ tx₀ :: txs)).governance.proposals.lookup id = some p) :
    p.votesYes.val + p.votesNo.val + p.votesAbstain.val ≤ (d.after txs₀).token.totalSupply.val := by
  rw [(run_correspondence d _).turnout_eq hp, ← (run_conserved d txs₀).held_eq]
  exact hcreates.turnout_le hnonneg hcasts

end Bounds

/-- The account `1` votes with all it has, and then gives some of it away. -/
def honestRun : List Tx :=
  [voting (.account 1) .yes,
    signed (.advance (.lit 61) (.lit 12)),
    signed (.token (.transfer (.account 1) (.account 2) (.lit 40)))]

theorem honestRun_creates :
    Creates sample (sample.after (opening (.lit 100) none)) (proposing none) (.lit 0) where
  calls := ⟨_, _, _, _, _, _, _, rfl, by decide⟩
  id_eq := by decide
  token := by decide

theorem opening_supplyNonneg : ∀ tx ∈ opening (.lit 100) none, SupplyNonneg tx := by
  simp [opening, signed, SupplyNonneg, Token.Op.SupplyNonneg]

theorem honestRun_within :
    Along (step sample)
      (CastsWithin sample (.lit 0) (sample.after (opening (.lit 100) none)).token.balance)
      (step sample (sample.after (opening (.lit 100) none)) (proposing none)) honestRun := by
  refine .cons ?_ (.cons ?_ (.cons ?_ along_nil))
  · rintro voter vote ⟨hop, _⟩
    cases hop
    decide
  · rintro voter vote ⟨hop, _⟩
    cases hop
  · rintro voter vote ⟨hop, _⟩
    cases hop

/-- The votes of the account `1` are all of the supply. -/
theorem total_votes_le_supply_honestRun :
    ∃ p, (sample.after (opening (.lit 100) none ++
        proposing none :: honestRun)).governance.proposals.lookup (.lit 0) = some p ∧
      p.votesYes.val = 100 ∧ p.votesYes.val + p.votesNo.val + p.votesAbstain.val ≤
        (sample.after (opening (.lit 100) none)).token.totalSupply.val := by
  obtain ⟨p, hp, hyes⟩ := Option.map_eq_some_iff.1 (show ((sample.after (opening (.lit 100) none ++
    proposing none :: honestRun)).governance.proposals.lookup (.lit 0)).map
      (fun p => p.votesYes.val) = some 100 by decide)
  exact ⟨p, hp, hyes, total_votes_le_supply honestRun_creates
    (run_nonneg sample opening_supplyNonneg) honestRun_within hp⟩

/-- The account `1` votes, and gives all it has to the account `2`, which votes in a later ledger. -/
def doubleVote (supply : I128) : List Tx :=
  [voting (.account 1) .yes,
    signed (.advance (.lit 10) (.lit 2)),
    signed (.token (.transfer (.account 1) (.account 2) supply)),
    signed (.advance (.lit 20) (.lit 4)),
    voting (.account 2) .no]

/-- The same tokens are counted twice. -/
theorem total_votes_exceed_supply :
    Creates sample (sample.after (opening (.lit 100) none)) (proposing none) (.lit 0) ∧
    ∃ p, (sample.after (opening (.lit 100) none ++ proposing none ::
        doubleVote (.lit 100))).governance.proposals.lookup (.lit 0) = some p ∧
      (sample.after (opening (.lit 100) none)).token.totalSupply.val <
        p.votesYes.val + p.votesNo.val + p.votesAbstain.val := by
  obtain ⟨p, hp, htotal⟩ := Option.map_eq_some_iff.1 (show ((sample.after (opening (.lit 100) none ++
    proposing none :: doubleVote (.lit 100))).governance.proposals.lookup (.lit 0)).map
      (fun p => p.votesYes.val + p.votesNo.val + p.votesAbstain.val) = some 200 by decide)
  have hsupply : (sample.after (opening (.lit 100) none)).token.totalSupply.val = 100 := by decide
  exact ⟨honestRun_creates, p, hp, by rw [hsupply, htotal]; decide⟩

/-! ## Finalising -/

section Bounds

variable {txs₀ txs : List Tx} {tx₀ : Tx} {id : U64} {p : Governance.Proposal}

/-- If nobody votes on a proposal with more than they held when it was created, it can be finalised
    once its voting period is over. -/
theorem finalise_succeeds (hcreates : Creates d (d.after txs₀) tx₀ id)
    (hsupply : ∀ tx ∈ txs₀, SupplyNonneg tx)
    (hcasts : Along (step d) (CastsWithin d id (d.after txs₀).token.balance)
      (step d (d.after txs₀) tx₀) txs)
    (hready : (d.after (txs₀ ++ tx₀ :: txs)).governance.Ready)
    (hp : (d.after (txs₀ ++ tx₀ :: txs)).governance.proposals.lookup id = some p)
    (hactive : p.state = .active)
    (hend : p.endTime.val < (d.after (txs₀ ++ tx₀ :: txs)).timestamp.val) {tx : Tx}
    (hop : tx.op = .governance (.finalise id)) :
    Calls d (d.after (txs₀ ++ tx₀ :: txs)) tx (.finalise id) := by
  have hle := hcreates.turnout_le (run_nonneg d hsupply) hcasts
  rw [← (run_correspondence d _).turnout_eq hp, (run_conserved d txs₀).held_eq] at hle
  have htallies (vote : Governance.Vote) : 0 ≤ (p.tally vote).val := by
    rw [(run_correspondence d _).tally_eq id p hp]
    exact (run_correspondence d _).recorded_nonneg id vote
  obtain ⟨total, htotal⟩ := Governance.Proposal.exists_totalVotes htallies hle
  exact .of_effect hop (.finalise hready hp hactive hend htotal)

end Bounds

/-- The proposal of the account `1` can be finalised after a minute. -/
theorem finalise_succeeds_honestRun :
    Calls sample (sample.after (opening (.lit 100) none ++ proposing none :: honestRun))
      (signed (.governance (.finalise (.lit 0)))) (.finalise (.lit 0)) := by
  obtain ⟨p, hp, hstate⟩ := Option.map_eq_some_iff.1 (show ((sample.after (opening (.lit 100) none ++
    proposing none :: honestRun)).governance.proposals.lookup (.lit 0)).map
      (fun p => (p.state, p.endTime)) = some (.active, .lit 60) by decide)
  obtain ⟨hactive, hend⟩ := Prod.ext_iff.1 hstate
  dsimp only at hactive hend
  exact finalise_succeeds honestRun_creates opening_supplyNonneg honestRun_within ⟨by decide, by decide⟩
    hp hactive (by rw [hend]; decide) rfl

/-- The largest supply there can be. -/
def maxSupply : I128 := .lit 170141183460469231731687303715884105727

/-- Everything is voted with twice, and the voting period passes. -/
def stuckRun : List Tx :=
  opening maxSupply none ++ proposing none :: doubleVote maxSupply ++ [signed (.advance (.lit 61) (.lit 12))]

/-- The sum of the tallies overflows, and the proposal cannot be finalised. -/
theorem finalise_stuck :
    (∀ tx ∈ stuckRun, SupplyNonneg tx) ∧
    (sample.after stuckRun).governance.Ready ∧
    (∃ p, (sample.after stuckRun).governance.proposals.lookup (.lit 0) = some p ∧
      p.state = .active ∧ p.endTime.val < (sample.after stuckRun).timestamp.val) ∧
    ¬Calls sample (sample.after stuckRun) (signed (.governance (.finalise (.lit 0))))
      (.finalise (.lit 0)) ∧
    ((Governance.exec (sample.governanceEnv (sample.after stuckRun)
      (signed (.governance (.finalise (.lit 0))))) (.finalise (.lit 0))).run
      (sample.after stuckRun).ctx).1 = .err .arithmeticOverflow := by
  refine ⟨?_, ⟨by decide, by decide⟩, ?_, fun h => ?_, by decide⟩
  · simp [stuckRun, opening, proposing, doubleVote, voting, signed, SupplyNonneg,
      Token.Op.SupplyNonneg, maxSupply]
  · obtain ⟨p, hp, hstate⟩ := Option.map_eq_some_iff.1 (show ((sample.after
      stuckRun).governance.proposals.lookup (.lit 0)).map
        (fun p => (p.state, p.endTime)) = some (.active, .lit 60) by decide)
    obtain ⟨hactive, hend⟩ := Prod.ext_iff.1 hstate
    dsimp only at hactive hend
    exact ⟨p, hp, hactive, by rw [hend]; decide⟩
  · exact absurd h.2 (by decide)

/-! ## Two runs -/

/-- The transaction moves tokens, or allows others to. -/
def Op.movesTokens : Op → Bool
  | .token (.transfer _ _ _) => true
  | .token (.transferFrom _ _ _ _) => true
  | .token (.approve _ _ _ _) => true
  | .token (.mint _ _ _) => true
  | .token (.burn _ _ _) => true
  | .token (.burnSelf _ _) => true
  | _ => false

section TwoRuns

variable {txs₀ : List Tx} {tx₀ : Tx} {id : U64}

/-- Two votes of one voter, in two runs that have the creation of the proposal in common, are recorded
    with the same weight exactly if they are cast at the same balance. If in both runs the voter only
    votes at the balance `b`, their recorded weights are the same at all times. -/
theorem snapshot_isolation (hcreates : Creates d (d.after txs₀) tx₀ id) (voter : Address) :
    (∀ xs₁ xs₂ c₁ c₂ vote₁ vote₂,
      Calls d (d.after (txs₀ ++ tx₀ :: xs₁)) c₁ (.castVote voter id vote₁) →
      Calls d (d.after (txs₀ ++ tx₀ :: xs₂)) c₂ (.castVote voter id vote₂) →
      ∃ r₁ r₂,
        (d.after (txs₀ ++ tx₀ :: (xs₁ ++ [c₁]))).governance.voteRecords.lookup (id, voter) = some r₁ ∧
        (d.after (txs₀ ++ tx₀ :: (xs₂ ++ [c₂]))).governance.voteRecords.lookup (id, voter) = some r₂ ∧
        (r₁.weight = r₂.weight ↔
          (d.after (txs₀ ++ tx₀ :: xs₁)).token.balance voter =
            (d.after (txs₀ ++ tx₀ :: xs₂)).token.balance voter)) ∧
    ∀ b txs₁ txs₂ r₁ r₂,
      Along (step d) (CastsAt d id fun v x => v = voter → x = b) (step d (d.after txs₀) tx₀) txs₁ →
      Along (step d) (CastsAt d id fun v x => v = voter → x = b) (step d (d.after txs₀) tx₀) txs₂ →
      (d.after (txs₀ ++ tx₀ :: txs₁)).governance.voteRecords.lookup (id, voter) = some r₁ →
      (d.after (txs₀ ++ tx₀ :: txs₂)).governance.voteRecords.lookup (id, voter) = some r₂ →
      r₁.weight = r₂.weight := by
  refine ⟨fun xs₁ xs₂ c₁ c₂ vote₁ vote₂ h₁ h₂ => ?_, fun b txs₁ txs₂ r₁ r₂ h₁ h₂ hr₁ hr₂ => ?_⟩
  · obtain ⟨r₁, hr₁, hw₁⟩ := (hcreates.run_created xs₁).cast_weight h₁
    obtain ⟨r₂, hr₂, hw₂⟩ := (hcreates.run_created xs₂).cast_weight h₂
    rw [← d.after_concat, List.append_assoc, List.cons_append] at hr₁ hr₂
    exact ⟨r₁, r₂, hr₁, hr₂, by rw [hw₁, hw₂]⟩
  · rw [hcreates.run_weight h₁ voter r₁ hr₁ rfl, hcreates.run_weight h₂ voter r₂ hr₂ rfl]

end TwoRuns

/-- The account `1` votes with the same weight in a later ledger. -/
theorem snapshot_isolation_later :
    ∃ r₁ r₂,
      (sample.after (opening (.lit 100) none ++ proposing none ::
        ([] ++ [voting (.account 1) .yes]))).governance.voteRecords.lookup (.lit 0, .account 1) = some r₁ ∧
      (sample.after (opening (.lit 100) none ++ proposing none ::
        ([signed (.advance (.lit 5) (.lit 1))] ++
          [voting (.account 1) .no]))).governance.voteRecords.lookup (.lit 0, .account 1) = some r₂ ∧
      r₁.weight = r₂.weight := by
  obtain ⟨r₁, r₂, hr₁, hr₂, hiff⟩ := (snapshot_isolation honestRun_creates (.account 1)).1 []
    [signed (.advance (.lit 5) (.lit 1))] (voting (.account 1) .yes) (voting (.account 1) .no) .yes .no
    ⟨rfl, by decide⟩ ⟨rfl, by decide⟩
  exact ⟨r₁, r₂, hr₁, hr₂, hiff.2 (by decide)⟩

/-- The account `1` gives some of its tokens away. -/
def giving : Tx := signed (.token (.transfer (.account 1) (.account 2) (.lit 40)))

/-- What the account `1` gives away before its vote, but after the proposal was created, makes its vote
    weigh less. -/
theorem snapshot_isolation_fails :
    Creates sample (sample.after (opening (.lit 100) none)) (proposing none) (.lit 0) ∧
    [voting (.account 1) .yes].filter (fun tx => !tx.op.movesTokens) =
      [giving, voting (.account 1) .yes].filter (fun tx => !tx.op.movesTokens) ∧
    Calls sample (sample.after (opening (.lit 100) none ++ [proposing none]))
      (voting (.account 1) .yes) (.castVote (.account 1) (.lit 0) .yes) ∧
    Calls sample (sample.after (opening (.lit 100) none ++ [proposing none, giving]))
      (voting (.account 1) .yes) (.castVote (.account 1) (.lit 0) .yes) ∧
    (sample.after (opening (.lit 100) none ++
        [proposing none, voting (.account 1) .yes])).governance.voteRecords.lookup
        (.lit 0, .account 1) = some ⟨.yes, .lit 100⟩ ∧
    (sample.after (opening (.lit 100) none ++
        [proposing none, giving, voting (.account 1) .yes])).governance.voteRecords.lookup
        (.lit 0, .account 1) = some ⟨.yes, .lit 60⟩ :=
  ⟨honestRun_creates, rfl, ⟨rfl, by decide⟩, ⟨rfl, by decide⟩, by decide, by decide⟩

end CosmosVote.System
