import CosmosVote.Soroban.Run
import CosmosVote.Governance.Effect

/-!
# The lifecycle of a proposal

What governance does to the proposals and the votes on them is one of four things
(`Change`): nothing, the initialisation of the contract, a new proposal, or a write to
the one proposal that the call names. That write is one of eight (`Edit`).

* `WellFormed`: the proposals are numbered from `0`, each is as `create_proposal` makes
  it, and the counter of active proposals is right;
* `Discipline`: which fields of a proposal a call may change, and when;
* `lifecycle_discipline`: every call keeps to it, touches only the proposal it names, and
  does nothing at all when it returns an error.
-/

namespace CosmosVote.Governance

open Soroban

variable {ω : Type}

/-! ## Changes -/

/-- The proposals, the votes on them, and the number of active ones, are as they were. -/
structure SameBallots (s s' : Store) : Prop where
  proposals : s'.proposals = s.proposals
  hasVoted : s'.hasVoted = s.hasVoted
  voteRecords : s'.voteRecords = s.voteRecords
  activeProposalCount : s'.activeProposalCount = s.activeProposalCount

/-- The call writes votes. -/
def Op.Votes : Op → Prop
  | .castVote _ _ _ => True
  | .retractVote _ _ => True
  | .changeVote _ _ _ => True
  | _ => False

/-- What a call does to the proposal it names. -/
inductive Edit (now : U64) : Op → Proposal → Proposal → Prop
  | amended {proposer : Address} {id : U64} {title description : Text} {p : Proposal}
      (hstate : p.state = .active) :
      Edit now (.amendProposal proposer id title description) p
        { p with title := title, description := description }
  | cast {voter : Address} {id : U64} {vote : Vote} {p : Proposal} {total : I128} {count : U32}
      (hstate : p.state = .active) (hend : now.val ≤ p.endTime.val) :
      Edit now (.castVote voter id vote) p ((p.setTally vote total).setVoterCount count)
  | retracted {voter : Address} {id : U64} {vote : Vote} {p : Proposal} {total : I128}
      (hstate : p.state = .active) (hend : now.val ≤ p.endTime.val) :
      Edit now (.retractVote voter id) p (p.setTally vote total)
  | changed {voter : Address} {id : U64} {old vote : Vote} {p : Proposal} {less more : I128}
      (hstate : p.state = .active) (hend : now.val ≤ p.endTime.val) :
      Edit now (.changeVote voter id vote) p ((p.setTally old less).setTally vote more)
  | finalised {id : U64} {p : Proposal} {total : I128} {weight : ℕ → I128}
      (hstate : p.state = .active) (hend : p.endTime.val < now.val)
      (htotal : p.totalVotes = some total) :
      Edit now (.finalise id) p (p.withOutcome total weight)
  | executed {admin : Address} {id : U64} {p : Proposal} (hstate : p.state = .passed) :
      Edit now (.execute admin id) p { p with state := .executed }
  | cancelled {admin : Address} {id : U64} {reason : Option Text} {p : Proposal}
      (hstate : p.state = .active) :
      Edit now (.cancel admin id reason) p
        { p with state := .cancelled, cancellationReason := reason }
  | quorumUpdated {admin : Address} {id : U64} {quorum : I128} {p : Proposal} {window : U64}
      (hstate : p.state = .active)
      (hwindow : (p.endTime.saturatingSub p.startTime).val.tdiv 10 = window.val)
      (hnow : now.val ≤ p.startTime.val + window.val) :
      Edit now (.updateQuorum admin id quorum) p { p with quorum := quorum }

/-- What a proposal is when it is created, and stays. -/
structure Proposal.Proper (id : U64) (p : Proposal) : Prop where
  id_eq : p.id = id
  choices_eq : p.choices = []
  start_le_end : p.startTime.val ≤ p.endTime.val
  one_action : p.treasuryAction.length ≤ 1

/-- What a call of governance does to the proposals and the votes on them. -/
inductive Change (now : U64) (s : Store) (op : Op) (s' : Store) : Prop
  | config (hop : op.proposal = none) (hsame : SameBallots s s')
      (hcount : s'.proposalCount = s.proposalCount) (hstate : s'.contractState = s.contractState)
  | initialized (hop : op.proposal = none) (hsame : SameBallots s s')
      (hinit : s.contractState = .uninitialized) (hcount : s'.proposalCount.val = 0)
      (hstate : s'.contractState = .ready)
  | created {p : Proposal} (hop : op.proposal = none) (hproper : p.Proper s.proposalCount)
      (hactive : p.state = .active) (htally : ∀ vote, (p.tally vote).val = 0)
      (hproposals : s'.proposals = s.proposals.insert s.proposalCount p)
      (hvoted : s'.hasVoted = s.hasVoted) (hrecords : s'.voteRecords = s.voteRecords)
      (hcount : s.proposalCount.val + 1 = s'.proposalCount.val)
      (hopen : s.activeProposalCount.val + 1 = s'.activeProposalCount.val)
      (hready : s.contractState = .ready) (hstate : s'.contractState = s.contractState)
  | edited {id : U64} {p p' : Proposal} (hop : op.proposal = some id)
      (hp : s.proposals.lookup id = some p) (hedit : Edit now op p p')
      (hproposals : s'.proposals = s.proposals.insert id p')
      (hvotes : ∀ k : U64 × Address, k.1 ≠ id → s'.hasVoted.lookup k = s.hasVoted.lookup k ∧
        s'.voteRecords.lookup k = s.voteRecords.lookup k)
      (hquiet : ¬op.Votes → s'.hasVoted = s.hasVoted ∧ s'.voteRecords = s.voteRecords)
      (hcount : s'.proposalCount = s.proposalCount)
      (hopen : s'.activeProposalCount = if p.state = .active ∧ p'.state ≠ .active then
        s.activeProposalCount.saturatingSub (.lit 1) else s.activeProposalCount)
      (hstate : s'.contractState = s.contractState)

section Edits

variable (p : Proposal) (total : I128) (weight : ℕ → I128) (vote : Vote) (v : I128)

theorem Proposal.setTally_state : (p.setTally vote v).state = p.state := by
  cases vote <;> rfl

/-- Finalising changes no field but the state and the winning choice. -/
theorem Proposal.withOutcome_eq : p.withOutcome total weight =
    { p with
      state := (p.withOutcome total weight).state
      winningChoice := (p.withOutcome total weight).winningChoice } := by
  rw [withOutcome]
  split
  · split <;> rfl
  · split <;> rfl

/-- A proposal is finalised as passed or as rejected. -/
theorem Proposal.withOutcome_state :
    (p.withOutcome total weight).state = .passed ∨ (p.withOutcome total weight).state = .rejected := by
  rw [withOutcome]
  split
  · split
    · exact .inl rfl
    · exact .inr rfl
  · split
    · exact .inl rfl
    · exact .inr rfl

theorem Proposal.withOutcome_state_ne : (p.withOutcome total weight).state ≠ .active := by
  rcases p.withOutcome_state total weight with h | h <;> rw [h] <;> exact ProposalState.noConfusion

end Edits

/-- A write to the votes of one proposal leaves those on the others as they were. -/
theorem lookup_insert_other {V : Type} (m : Entries (U64 × Address) V) (id : U64)
    (voter : Address) (v : V) {k : U64 × Address} (hk : k.1 ≠ id) :
    (m.insert (id, voter) v).lookup k = m.lookup k :=
  Finmap.lookup_insert_of_ne m fun h => hk (by rw [h])

theorem lookup_erase_other {V : Type} (m : Entries (U64 × Address) V) (id : U64)
    (voter : Address) {k : U64 × Address} (hk : k.1 ≠ id) :
    (m.erase (id, voter)).lookup k = m.lookup k :=
  Finmap.lookup_erase_ne fun h => hk (by rw [h])

/-- Every effect is one of the changes. -/
theorem Effect.change {env : Env ω} {s s' : Store} {o o' : ω} {op : Op}
    (h : Effect env s o op s' o') : Change env.timestamp s op s' := by
  obtain ⟨⟩ := s
  cases h with
  | initializeContract hinit => exact .initialized rfl ⟨rfl, rfl, rfl, rfl⟩ hinit rfl rfl
  | createProposal _ hready _ _ _ _ hduration _ _ _ _ _ _ _ hend hcount hopen =>
    have haction (action : Option TreasuryAction) : action.toList.length ≤ 1 := by
      cases action <;> simp
    exact .created rfl ⟨rfl, rfl, by simp only [Proposal.created]; omega, haction _⟩ rfl
      (fun vote => by cases vote <;> rfl) rfl rfl rfl hcount hopen hready.1 rfl
  | amendProposal _ _ hp _ hstate =>
    exact .edited rfl hp (.amended hstate) rfl (fun _ _ => ⟨rfl, rfl⟩) (fun _ => ⟨rfl, rfl⟩) rfl
      (if_neg fun h => h.2 hstate).symm rfl
  | castVote _ _ hp hstate _ hend =>
    refine .edited rfl hp (.cast hstate hend) rfl (fun k hk => ?_) (fun h => absurd trivial h) rfl
      (if_neg fun h => h.2 ?_).symm rfl
    · exact ⟨lookup_insert_other _ _ _ _ hk, lookup_insert_other _ _ _ _ hk⟩
    · exact (Proposal.setTally_state ..).trans hstate
  | retractVote _ _ hp hstate hend =>
    refine .edited rfl hp (.retracted hstate hend) rfl (fun k hk => ?_) (fun h => absurd trivial h)
      rfl (if_neg fun h => h.2 ?_).symm rfl
    · exact ⟨lookup_insert_other _ _ _ _ hk, lookup_erase_other _ _ _ hk⟩
    · exact (Proposal.setTally_state ..).trans hstate
  | changeVote _ _ hp hstate hend =>
    refine .edited rfl hp (.changed hstate hend) rfl (fun k hk => ?_) (fun h => absurd trivial h)
      rfl (if_neg fun h => h.2 ?_).symm rfl
    · exact ⟨rfl, lookup_insert_other _ _ _ _ hk⟩
    · rw [Proposal.setTally_state, Proposal.setTally_state, hstate]
  | finalise _ hp hstate hend htotal =>
    exact .edited rfl hp (.finalised hstate hend htotal) rfl (fun _ _ => ⟨rfl, rfl⟩)
      (fun _ => ⟨rfl, rfl⟩) rfl (if_pos ⟨hstate, Proposal.withOutcome_state_ne _ _ _⟩).symm rfl
  | execute _ _ hp hstate =>
    exact .edited rfl hp (.executed hstate) rfl (fun _ _ => ⟨rfl, rfl⟩) (fun _ => ⟨rfl, rfl⟩) rfl
      (if_neg fun h => by rw [hstate] at h; exact ProposalState.noConfusion h.1).symm rfl
  | executeDisburse _ _ hp hstate =>
    exact .edited rfl hp (.executed hstate) rfl (fun _ _ => ⟨rfl, rfl⟩) (fun _ => ⟨rfl, rfl⟩) rfl
      (if_neg fun h => by rw [hstate] at h; exact ProposalState.noConfusion h.1).symm rfl
  | cancel _ _ hp hstate =>
    exact .edited rfl hp (.cancelled hstate) rfl (fun _ _ => ⟨rfl, rfl⟩) (fun _ => ⟨rfl, rfl⟩) rfl
      (if_pos ⟨hstate, ProposalState.noConfusion⟩).symm rfl
  | updateQuorum _ _ _ _ _ _ hp hstate hwindow hdeadline hnow =>
    exact .edited rfl hp (.quorumUpdated hstate hwindow (by omega)) rfl (fun _ _ => ⟨rfl, rfl⟩)
      (fun _ => ⟨rfl, rfl⟩) rfl (if_neg fun h => h.2 hstate).symm rfl
  | upgrade => exact .config rfl ⟨rfl, rfl, rfl, rfl⟩ rfl rfl
  | proposeAdmin => exact .config rfl ⟨rfl, rfl, rfl, rfl⟩ rfl rfl
  | updateVotingToken => exact .config rfl ⟨rfl, rfl, rfl, rfl⟩ rfl rfl
  | acceptAdmin => exact .config rfl ⟨rfl, rfl, rfl, rfl⟩ rfl rfl
  | cancelAdminTransfer => exact .config rfl ⟨rfl, rfl, rfl, rfl⟩ rfl rfl
  | pause => exact .config rfl ⟨rfl, rfl, rfl, rfl⟩ rfl rfl
  | unpause => exact .config rfl ⟨rfl, rfl, rfl, rfl⟩ rfl rfl
  | setMinProposalBalance => exact .config rfl ⟨rfl, rfl, rfl, rfl⟩ rfl rfl
  | setProposalCooldown => exact .config rfl ⟨rfl, rfl, rfl, rfl⟩ rfl rfl
  | setRestrictAdminVote => exact .config rfl ⟨rfl, rfl, rfl, rfl⟩ rfl rfl

/-! ## The discipline -/

/-- The fields of a proposal that never change. -/
structure Proposal.SameTerms (p p' : Proposal) : Prop where
  id : p'.id = p.id
  proposer : p'.proposer = p.proposer
  link : p'.link = p.link
  startTime : p'.startTime = p.startTime
  endTime : p'.endTime = p.endTime
  snapshotLedger : p'.snapshotLedger = p.snapshotLedger
  treasuryAction : p'.treasuryAction = p.treasuryAction
  choices : p'.choices = p.choices

theorem Proposal.SameTerms.rfl (p : Proposal) : p.SameTerms p :=
  ⟨.refl _, .refl _, .refl _, .refl _, .refl _, .refl _, .refl _, .refl _⟩

theorem Proposal.SameTerms.trans {p q r : Proposal} (h : p.SameTerms q) (h' : q.SameTerms r) :
    p.SameTerms r where
  id := h'.id.trans h.id
  proposer := h'.proposer.trans h.proposer
  link := h'.link.trans h.link
  startTime := h'.startTime.trans h.startTime
  endTime := h'.endTime.trans h.endTime
  snapshotLedger := h'.snapshotLedger.trans h.snapshotLedger
  treasuryAction := h'.treasuryAction.trans h.treasuryAction
  choices := h'.choices.trans h.choices

/-- The moves of the state of the proposal `id`, with the call that makes each. -/
inductive StateMove (id : U64) : Op → ProposalState → ProposalState → Prop
  | pass : StateMove id (.finalise id) .active .passed
  | reject : StateMove id (.finalise id) .active .rejected
  | cancel (admin : Address) (reason : Option Text) :
      StateMove id (.cancel admin id reason) .active .cancelled
  | execute (admin : Address) : StateMove id (.execute admin id) .passed .executed

/-- The vote calls on the proposal `id`. -/
inductive VoteOn (id : U64) : Op → Prop
  | cast (voter : Address) (vote : Vote) : VoteOn id (.castVote voter id vote)
  | retract (voter : Address) : VoteOn id (.retractVote voter id)
  | change (voter : Address) (vote : Vote) : VoteOn id (.changeVote voter id vote)

/-- What a call made at the time `now` may do to the proposal `id`. -/
structure Discipline (now : U64) (op : Op) (id : U64) (p p' : Proposal) : Prop where
  terms : p.SameTerms p'
  state : p'.state = p.state ∨ StateMove id op p.state p'.state
  tallies : (∀ vote, p'.tally vote = p.tally vote) ∨
    (VoteOn id op ∧ p.state = .active ∧ now.val ≤ p.endTime.val)
  quorum : p'.quorum = p.quorum ∨
    ((∃ admin quorum, op = .updateQuorum admin id quorum) ∧ p.state = .active ∧
      now.val ≤ p.startTime.val + (p.endTime.val - p.startTime.val) / 10)
  texts : (p'.title = p.title ∧ p'.description = p.description) ∨
    ((∃ proposer title description, op = .amendProposal proposer id title description) ∧
      p.state = .active)

/-- The proposals differ in the counts of the votes only. -/
def Proposal.Recount (p p' : Proposal) : Prop :=
  ∃ y n a c, p' = { p with votesYes := y, votesNo := n, votesAbstain := a, voterCount := c }

namespace Proposal.Recount

variable {p q : Proposal}

theorem refl (p : Proposal) : p.Recount p := ⟨_, _, _, _, rfl⟩

theorem setTally (h : p.Recount q) (vote : Vote) (v : I128) : p.Recount (q.setTally vote v) := by
  obtain ⟨y, n, a, c, rfl⟩ := h
  cases vote with
  | yes => exact ⟨v, n, a, c, rfl⟩
  | no => exact ⟨y, v, a, c, rfl⟩
  | abstain => exact ⟨y, n, v, c, rfl⟩

theorem setVoterCount (h : p.Recount q) (c : U32) : p.Recount (q.setVoterCount c) := by
  obtain ⟨y, n, a, _, rfl⟩ := h
  exact ⟨y, n, a, c, rfl⟩

/-- Counting a vote keeps to the discipline. -/
theorem discipline (h : p.Recount q) {now : U64} {op : Op} {id : U64} (hop : VoteOn id op)
    (hstate : p.state = .active) (hend : now.val ≤ p.endTime.val) : Discipline now op id p q := by
  obtain ⟨y, n, a, c, rfl⟩ := h
  exact ⟨⟨rfl, rfl, rfl, rfl, rfl, rfl, rfl, rfl⟩, .inl rfl, .inr ⟨hop, hstate, hend⟩, .inl rfl,
    .inl ⟨rfl, rfl⟩⟩

end Proposal.Recount

/-- A call that does nothing to a proposal keeps to the discipline. -/
theorem Discipline.refl (now : U64) (op : Op) (id : U64) (p : Proposal) :
    Discipline now op id p p :=
  ⟨⟨rfl, rfl, rfl, rfl, rfl, rfl, rfl, rfl⟩, .inl rfl, .inl fun _ => rfl, .inl rfl, .inl ⟨rfl, rfl⟩⟩

/-- The window for a new quorum is a tenth of the voting period. -/
theorem Proposal.window_eq (p : Proposal) (horder : p.startTime.val ≤ p.endTime.val) {window : U64}
    (hwindow : (p.endTime.saturatingSub p.startTime).val.tdiv 10 = window.val) :
    window.val = (p.endTime.val - p.startTime.val) / 10 := by
  have hdiff : (p.endTime.saturatingSub p.startTime).val = p.endTime.val - p.startTime.val := by
    have := p.endTime.le_hi
    have := p.startTime.lo_le
    simp only [IntRange.saturatingSub]
    omega
  rw [← hwindow, hdiff, Int.tdiv_eq_ediv_of_nonneg (by omega)]

/-- Every edit keeps to the discipline. -/
theorem Edit.discipline {now : U64} {op : Op} {id : U64} {p p' : Proposal} (h : Edit now op p p')
    (hop : op.proposal = some id) (horder : p.startTime.val ≤ p.endTime.val) :
    Discipline now op id p p' := by
  cases h with
  | amended hstate =>
    cases hop
    exact ⟨⟨rfl, rfl, rfl, rfl, rfl, rfl, rfl, rfl⟩, .inl rfl, .inl fun vote => by cases vote <;> rfl,
      .inl rfl, .inr ⟨⟨_, _, _, rfl⟩, hstate⟩⟩
  | cast hstate hend =>
    cases hop
    exact (((Proposal.Recount.refl p).setTally _ _).setVoterCount _).discipline (.cast _ _) hstate hend
  | retracted hstate hend =>
    cases hop
    exact ((Proposal.Recount.refl p).setTally _ _).discipline (.retract _) hstate hend
  | changed hstate hend =>
    cases hop
    exact (((Proposal.Recount.refl p).setTally _ _).setTally _ _).discipline (.change _ _) hstate hend
  | @finalised _ _ total weight hstate hend htotal =>
    cases hop
    have hmove : StateMove id (.finalise id) p.state (p.withOutcome total weight).state := by
      rw [hstate]
      rcases p.withOutcome_state total weight with h | h
      · rw [h]
        exact .pass
      · rw [h]
        exact .reject
    rw [p.withOutcome_eq] at hmove ⊢
    exact ⟨⟨rfl, rfl, rfl, rfl, rfl, rfl, rfl, rfl⟩, .inr hmove, .inl fun vote => by cases vote <;> rfl,
      .inl rfl, .inl ⟨rfl, rfl⟩⟩
  | executed hstate =>
    cases hop
    exact ⟨⟨rfl, rfl, rfl, rfl, rfl, rfl, rfl, rfl⟩, .inr (hstate ▸ .execute _),
      .inl fun vote => by cases vote <;> rfl, .inl rfl, .inl ⟨rfl, rfl⟩⟩
  | cancelled hstate =>
    cases hop
    exact ⟨⟨rfl, rfl, rfl, rfl, rfl, rfl, rfl, rfl⟩, .inr (hstate ▸ .cancel _ _),
      .inl fun vote => by cases vote <;> rfl, .inl rfl, .inl ⟨rfl, rfl⟩⟩
  | @quorumUpdated _ _ _ _ window hstate hwindow hnow =>
    cases hop
    exact ⟨⟨rfl, rfl, rfl, rfl, rfl, rfl, rfl, rfl⟩, .inl rfl, .inl fun vote => by cases vote <;> rfl,
      .inr ⟨⟨_, _, rfl⟩, hstate, p.window_eq horder hwindow ▸ hnow⟩, .inl ⟨rfl, rfl⟩⟩

/-- A closed proposal is not opened again. -/
theorem StateMove.ne_active {id : U64} {op : Op} {x y : ProposalState} (h : StateMove id op x y) :
    y ≠ .active := by
  cases h <;> exact ProposalState.noConfusion

/-! ## Well-formed stores -/

/-- `1` for an active proposal. -/
def Proposal.openCount (p : Proposal) : ℤ := if p.state = .active then 1 else 0

theorem Proposal.Proper.of_sameTerms {id : U64} {p p' : Proposal} (h : p.Proper id)
    (hterms : p.SameTerms p') : p'.Proper id where
  id_eq := hterms.id.trans h.id_eq
  choices_eq := hterms.choices.trans h.choices_eq
  start_le_end := by rw [hterms.startTime, hterms.endTime]; exact h.start_le_end
  one_action := by rw [hterms.treasuryAction]; exact h.one_action

/-- The proposals are numbered from `0`, and the active ones are counted. -/
structure WellFormed (s : Store) : Prop where
  isSome_iff : ∀ id, (s.proposals.lookup id).isSome ↔ id.val < s.proposalCount.val
  proper : ∀ id p, s.proposals.lookup id = some p → p.Proper id
  active_eq : s.activeProposalCount.val = s.proposals.sum fun _ p => p.openCount
  fresh : s.contractState = .uninitialized → s.proposalCount.val = 0

namespace WellFormed

variable {s s' : Store}

theorem empty : WellFormed Store.empty where
  isSome_iff id := by
    simp only [Store.empty, Finmap.lookup_empty, Option.isSome_none, Bool.false_eq_true, false_iff,
      not_lt]
    exact id.lo_le
  proper id p h := by simp [Store.empty] at h
  active_eq := (Finmap.sum_empty _).symm
  fresh _ := rfl

/-- There is no proposal yet at the number of the next one. -/
theorem next_none (hs : WellFormed s) : s.proposals.lookup s.proposalCount = none := by
  have h := (hs.isSome_iff s.proposalCount).not.2 (lt_irrefl _)
  simpa using h

/-- Where there is a proposal, the contract has been initialised. -/
theorem ready_of_lookup (hs : WellFormed s) {id : U64} {p : Proposal}
    (hp : s.proposals.lookup id = some p) : s.contractState = .ready := by
  have hlt := (hs.isSome_iff id).1 (by rw [hp]; rfl)
  cases hstate : s.contractState with
  | uninitialized =>
    rw [hs.fresh hstate] at hlt
    exact absurd id.lo_le hlt.not_ge
  | ready => rfl

theorem of_sameBallots (hs : WellFormed s) (hsame : SameBallots s s')
    (hcount : s'.proposalCount = s.proposalCount)
    (hfresh : s'.contractState = .uninitialized → s.contractState = .uninitialized) :
    WellFormed s' where
  isSome_iff := by rw [hsame.proposals, hcount]; exact hs.isSome_iff
  proper := by rw [hsame.proposals]; exact hs.proper
  active_eq := by rw [hsame.proposals, hsame.activeProposalCount]; exact hs.active_eq
  fresh h := by rw [hcount]; exact hs.fresh (hfresh h)

/-- An active proposal is counted. -/
theorem one_le (hs : WellFormed s) {id : U64} {p : Proposal} (hp : s.proposals.lookup id = some p)
    (hstate : p.state = .active) : 1 ≤ s.activeProposalCount.val := by
  have hle := Finmap.le_sum (m := s.proposals) (f := fun _ p => p.openCount)
    (fun _ p _ => by rw [Proposal.openCount]; split <;> decide) id
  rw [Finmap.termAt_of_lookup hp, Proposal.openCount, if_pos hstate] at hle
  rwa [hs.active_eq]

/-- Every change keeps the store well formed. -/
theorem of_change {now : U64} {op : Op} (hs : WellFormed s) (h : Change now s op s') :
    WellFormed s' := by
  cases h with
  | config hop hsame hcount hstate => exact hs.of_sameBallots hsame hcount (by rw [hstate]; exact id)
  | initialized hop hsame hinit hcount hstate =>
    refine hs.of_sameBallots hsame ?_ fun _ => hinit
    rw [← IntRange.val_inj, hcount, hs.fresh hinit]
  | @created p hop hproper hactive htally hproposals hvoted hrecords hcount hopen hready hstate =>
    refine ⟨fun id => ?_, fun id q hq => ?_, ?_, fun h => ?_⟩
    · rw [hproposals, Finmap.lookup_insert_eq_ite]
      split
      · rename_i h
        rw [h, Option.isSome_some, eq_self_iff_true, true_iff]
        omega
      · rename_i h
        have hne : id.val ≠ s.proposalCount.val := fun h' => h (IntRange.val_inj.1 h')
        rw [hs.isSome_iff]
        omega
    · rw [hproposals, Finmap.lookup_insert_eq_ite] at hq
      split at hq
      · rename_i h
        rw [h, ← Option.some_inj.1 hq]
        exact hproper
      · exact hs.proper id q hq
    · -- The new proposal is active, and adds one to both counts.
      rw [hproposals, Finmap.sum_insert, Finmap.termAt_of_lookup_none hs.next_none,
        ← hs.active_eq, Proposal.openCount, if_pos hactive]
      omega
    · rw [hstate, hready] at h
      exact ContractState.noConfusion h
  | @edited id p p' hop hp hedit hproposals hvotes hquiet hcount hopen hstate =>
    have hdisc := hedit.discipline hop (hs.proper id p hp).start_le_end
    refine ⟨fun id' => ?_, fun id' q hq => ?_, ?_, fun h => ?_⟩
    · rw [hproposals, Finmap.lookup_insert_eq_ite, hcount, ← hs.isSome_iff]
      split
      · rename_i h
        rw [h, hp, Option.isSome_some, Option.isSome_some]
      · rfl
    · rw [hproposals, Finmap.lookup_insert_eq_ite] at hq
      split at hq
      · rename_i h
        rw [h, ← Option.some_inj.1 hq]
        exact (hs.proper id p hp).of_sameTerms hdisc.terms
      · exact hs.proper id' q hq
    · rw [hproposals, Finmap.sum_insert, Finmap.termAt_of_lookup hp, ← hs.active_eq, hopen,
        Proposal.openCount, Proposal.openCount]
      -- The count changes when the proposal is closed: it was counted, so there is one to take off.
      rcases hdisc.state with hkeep | hmove
      · rw [hkeep, if_neg fun h => h.2 h.1]
        omega
      · rw [if_neg hmove.ne_active]
        by_cases hactive : p.state = .active
        · have hone := hs.one_le hp hactive
          have := s.activeProposalCount.le_hi
          rw [if_pos ⟨hactive, hmove.ne_active⟩, if_pos hactive]
          simp only [IntRange.saturatingSub]
          omega
        · rw [if_neg fun h => hactive h.1, if_neg hactive]
          omega
    · rw [hcount]
      exact hs.fresh (hstate ▸ h)

end WellFormed

theorem step_wellFormed (s : Store) (i : Input ω) (hs : WellFormed s) : WellFormed (step s i) :=
  step_invariant hs fun _ _ h => hs.of_change h.change

theorem run_wellFormed (is : List (Input ω)) : WellFormed (run step Store.empty is) :=
  run_invariant step_wellFormed .empty is

/-- What the effects of the calls keep, in well-formed stores, holds along every run from one, if all
    its calls meet the condition. -/
theorem run_effects_of {P : Store → Input ω → Prop} {I : Store → Prop} {s : Store} {is : List (Input ω)}
    (halong : Along step P s is) (hs : WellFormed s) (hI : I s)
    (h : ∀ t i t' o, WellFormed t → P t i → I t → Effect i.env t i.outside i.op t' o → I t') :
    I (run step s is) := by
  refine (run_invariant_of (I := fun t => WellFormed t ∧ I t) (fun t i hcond ht => ?_) halong ⟨hs, hI⟩).2
  exact ⟨step_wellFormed t i ht.1, step_invariant ht.2 fun t' o he => h t i t' o ht.1 hcond ht.2 he⟩

/-- The same, without a condition. -/
theorem run_effects {I : Store → Prop} {s : Store} (hs : WellFormed s) (hI : I s)
    (h : ∀ (t : Store) (i : Input ω) t' o, WellFormed t → I t → Effect i.env t i.outside i.op t' o → I t')
    (is : List (Input ω)) : I (run step s is) :=
  run_effects_of (P := fun _ _ => True) (fun _ _ _ _ => trivial) hs hI
    fun t i t' o ht _ => h t i t' o ht

/-- What is changed by some calls only is the same along the runs in which none of these succeeds. -/
theorem run_eq_of_none {α : Type*} {f : Store → α} {Q : Op → Prop} {s : Store} {is : List (Input ω)}
    (hkeep : ∀ (t : Store) (i : Input ω) t' o, Effect i.env t i.outside i.op t' o → ¬Q i.op → f t' = f t)
    (hnone : Along step (fun t i => ¬(Q i.op ∧ Succeeds t i)) s is) : f (run step s is) = f s := by
  refine run_invariant_of (I := fun t => f t = f s) ?_ hnone rfl
  intro t i hi ht
  by_cases hsucc : Succeeds t i
  · obtain ⟨o, he⟩ := hsucc.effect
    rw [hkeep t i _ o he fun hop => hi ⟨hop, hsucc⟩, ht]
  · rw [step_of_not_succeeds hsucc, ht]

/-! ## Errors -/

section Errors

variable (env : HostEnv)

instance : Call.ReadOnly (Storage.admin : GovernanceCall ω Address) := by
  rw [Storage.admin]; infer_instance

instance : Call.ReadOnly (Storage.votingToken : GovernanceCall ω Address) := by
  rw [Storage.votingToken]; infer_instance

instance (id : U64) : Call.ReadOnly (Storage.proposal env id : GovernanceCall ω _) :=
  ⟨fun c => by rw [Storage.run_proposal]⟩

instance (id : U64) (voter : Address) :
    Call.ReadOnly (Storage.hasVoted env id voter : GovernanceCall ω Bool) := by
  rw [Storage.hasVoted]; infer_instance

instance (id : U64) (voter : Address) :
    Call.ReadOnly (Storage.voteRecord env id voter : GovernanceCall ω _) :=
  ⟨fun c => by rw [Storage.run_voteRecord]⟩

instance (id : U64) (p : Proposal) :
    Call.NoErr (Storage.setProposal env id p : GovernanceCall ω Unit) := by
  rw [Storage.setProposal]; infer_instance

instance (id : U64) (voter : Address) (b : Bool) :
    Call.NoErr (Storage.setHasVoted env id voter b : GovernanceCall ω Unit) := by
  rw [Storage.setHasVoted]; infer_instance

instance (id : U64) (voter : Address) (r : VoteRecord) :
    Call.NoErr (Storage.setVoteRecord env id voter r : GovernanceCall ω Unit) := by
  rw [Storage.setVoteRecord]; infer_instance

instance (proposer : Address) (t : U64) :
    Call.NoErr (Storage.setLastProposalTime env proposer t : GovernanceCall ω Unit) := by
  rw [Storage.setLastProposalTime]; infer_instance

instance : Call.ReadOnly (assertReady : GovernanceCall ω Unit) := by
  rw [assertReady]; infer_instance

instance (caller : Address) : Call.ReadOnly (assertAdmin caller : GovernanceCall ω Unit) := by
  rw [assertAdmin]; infer_instance

instance (e : Event) : Call.NoErr (publish e : GovernanceCall ω Unit) := by
  rw [publish]; infer_instance

instance (id : U64) : Call.ReadOnly (findProposal id env : GovernanceCall ω Proposal) := by
  rw [findProposal]; infer_instance

instance : Call.NoErr (closeActive : GovernanceCall ω Unit) := by
  rw [closeActive]; infer_instance

instance (quorum supply : I128) :
    Call.ReadOnly (checkQuorumFloor quorum supply : GovernanceCall ω Unit) := by
  rw [checkQuorumFloor]; infer_instance

instance (token proposer : Address) (env : Env ω) :
    Call.ReadOnly (checkBalance token proposer env) := by
  rw [checkBalance]; infer_instance

instance (proposer : Address) : Call.ReadOnly (checkCooldown proposer env : GovernanceCall ω Unit) := by
  have hlast (last : Option U64) (cooldown : U64) : Call.ReadOnly (match last with
      | some last => do
        let ready ← Call.add last cooldown
        Call.rejectIf (env.timestamp.val < ready.val) .proposalCooldown
      | none => pure () : GovernanceCall ω Unit) := by
    cases last <;> infer_instance
  have : Call.ReadOnly (Storage.lastProposalTime env proposer : GovernanceCall ω _) :=
    ⟨fun c => by rw [Storage.run_lastProposalTime]⟩
  rw [checkCooldown]
  infer_instance

instance (voter : Address) (p : Proposal) :
    Call.ReadOnly (checkAdminVote voter p : GovernanceCall ω Unit) := by
  rw [checkAdminVote]; infer_instance

instance (id : U64) (p : Proposal) (env : Env ω) : Call.NoErr (disburseAttached id p env) := by
  rw [disburseAttached]
  cases p.treasuryAction.head? with
  | none => infer_instance
  | some action =>
    have hpay (treasury : Option Address) : Call.NoErr (match treasury with
        | some treasury => do
          Call.invoke (env.disburse treasury action)
          Call.update fun s => s.addDisbursement ⟨id, treasury, action⟩
        | none => pure () : GovernanceCall ω Unit) := by
      cases treasury <;> infer_instance
    dsimp only
    infer_instance

end Errors

/-- No call has written anything when it returns an error: every guard comes before the writes. -/
theorem exec_errClean (env : Env ω) (op : Op) : Call.ErrClean (exec env op) := by
  cases op
  case createProposal =>
    -- The number of the proposal is returned after the writes.
    rw [exec, createProposal]
    refine .seq ?_
    repeat refine .bind fun _ => ?_
    exact .of_noErr
  all_goals
    simp only [exec, initializeContract, amendProposal, castVote, retractVote, changeVote, finalise,
      execute, cancel, upgrade, updateQuorum, proposeAdmin, updateVotingToken, acceptAdmin,
      cancelAdminTransfer, pause, unpause, setMinProposalBalance, setProposalCooldown,
      setRestrictAdminVote]
    repeat refine .bind fun _ => ?_
    exact .of_noErr

/-! ## The lifecycle -/

variable {s s' : Store}

/-- A change does to an existing proposal what the discipline allows. -/
theorem Change.discipline {now : U64} {op : Op} (hs : WellFormed s) (h : Change now s op s')
    {id : U64} {p : Proposal} (hp : s.proposals.lookup id = some p) :
    ∃ p', s'.proposals.lookup id = some p' ∧ Discipline now op id p p' := by
  cases h with
  | config _ hsame => exact ⟨p, by rw [hsame.proposals, hp], .refl ..⟩
  | initialized _ hsame => exact ⟨p, by rw [hsame.proposals, hp], .refl ..⟩
  | created _ _ _ _ hproposals =>
    -- The number of the new proposal has not been used.
    have hne : id ≠ s.proposalCount := by
      rintro rfl
      rw [hs.next_none] at hp
      cases hp
    exact ⟨p, by rw [hproposals, Finmap.lookup_insert_of_ne _ hne, hp], .refl ..⟩
  | @edited id' q q' hop hq hedit hproposals =>
    by_cases hne : id = id'
    · obtain rfl : q = p := by
        rw [hne, hq] at hp
        exact Option.some_inj.1 hp
      rw [← hne] at hop
      exact ⟨q', by rw [hproposals, hne, Finmap.lookup_insert],
        hedit.discipline hop (hs.proper id q hp).start_le_end⟩
    · exact ⟨p, by rw [hproposals, Finmap.lookup_insert_of_ne _ hne, hp], .refl ..⟩

/-- A call that names a proposal touches no other one, nor the votes on it. -/
theorem Change.frame {now : U64} {op : Op} (h : Change now s op s') {id id' : U64}
    (hop : op.proposal = some id) (hne : id' ≠ id) :
    s'.proposals.lookup id' = s.proposals.lookup id' ∧
    ∀ voter, s'.hasVoted.lookup (id', voter) = s.hasVoted.lookup (id', voter) ∧
      s'.voteRecords.lookup (id', voter) = s.voteRecords.lookup (id', voter) := by
  cases h with
  | config hop' => rw [hop] at hop'; cases hop'
  | initialized hop' => rw [hop] at hop'; cases hop'
  | created hop' => rw [hop] at hop'; cases hop'
  | edited hop' _ _ hproposals hvotes =>
    obtain rfl := Option.some_inj.1 (hop.symm.trans hop')
    exact ⟨by rw [hproposals, Finmap.lookup_insert_of_ne _ hne], fun voter => hvotes _ hne⟩

/-- A call that writes no votes leaves them as they were. -/
theorem Change.quiet {now : U64} {op : Op} (h : Change now s op s') (hop : ¬op.Votes) :
    s'.hasVoted = s.hasVoted ∧ s'.voteRecords = s.voteRecords := by
  cases h with
  | config _ hsame => exact ⟨hsame.hasVoted, hsame.voteRecords⟩
  | initialized _ hsame => exact ⟨hsame.hasVoted, hsame.voteRecords⟩
  | created _ _ _ _ _ hvoted hrecords => exact ⟨hvoted, hrecords⟩
  | edited _ _ _ _ _ hquiet => exact hquiet hop

/-- The contract stays initialised. -/
theorem Change.ready {now : U64} {op : Op} (h : Change now s op s')
    (hready : s.contractState = .ready) : s'.contractState = .ready := by
  cases h with
  | config _ _ _ hstate => exact hstate.trans hready
  | initialized _ _ _ _ hstate => exact hstate
  | created _ _ _ _ _ _ _ _ _ _ hstate => exact hstate.trans hready
  | edited _ _ _ _ _ _ _ _ hstate => exact hstate.trans hready

/-- The voting token stays the same while a proposal is active. -/
theorem Effect.votingToken {env : Env ω} {op : Op} {o o' : ω} (h : Effect env s o op s' o')
    (hready : s.contractState = .ready) (hactive : 1 ≤ s.activeProposalCount.val) :
    s'.votingToken = s.votingToken := by
  obtain ⟨⟩ := s
  cases h with
  | initializeContract hinit => rw [hready] at hinit; cases hinit
  | updateVotingToken _ _ hnone => omega
  | _ => rfl

/-- An active proposal was active before, or has just been created. -/
theorem Change.active {now : U64} {op : Op} (hs : WellFormed s) (h : Change now s op s') {id : U64}
    {p p' : Proposal} (hp : s.proposals.lookup id = some p) (hp' : s'.proposals.lookup id = some p')
    (hactive : p'.state = .active) : p.state = .active := by
  obtain ⟨q, hq, hdisc⟩ := h.discipline hs hp
  obtain rfl := Option.some_inj.1 (hq.symm.trans hp')
  rcases hdisc.state with h | h
  · rw [← h, hactive]
  · exact absurd hactive h.ne_active

/-- While a proposal is active, the voting token cannot be replaced. -/
theorem Effect.keeps_votingToken {env : Env ω} {op : Op} {o o' : ω} (h : Effect env s o op s' o')
    (hs : WellFormed s) (hready : s.contractState = .ready) {id : U64} {p : Proposal} {token : Address}
    (hp : s.proposals.lookup id = some p) (htoken : p.state = .active → s.votingToken = some token) :
    ∃ p', s'.proposals.lookup id = some p' ∧ (p'.state = .active → s'.votingToken = some token) := by
  obtain ⟨p', hp', _⟩ := h.change.discipline hs hp
  refine ⟨p', hp', fun hactive => ?_⟩
  have hopen := h.change.active hs hp hp' hactive
  exact (h.votingToken hready (hs.one_le hp hopen)).trans (htoken hopen)

/-- The terms of a proposal are the same along every run. -/
theorem run_sameTerms {id : U64} {p : Proposal} (hs : WellFormed s)
    (hp : s.proposals.lookup id = some p) (is : List (Input ω)) :
    ∃ p', (run step s is).proposals.lookup id = some p' ∧ p.SameTerms p' := by
  refine run_effects (I := fun t => ∃ p', t.proposals.lookup id = some p' ∧ p.SameTerms p') hs
    ⟨p, hp, .rfl p⟩ ?_ is
  rintro t i t' o ht ⟨q, hq, hterms⟩ he
  obtain ⟨q', hq', hdisc⟩ := he.change.discipline ht hq
  exact ⟨q', hq', hterms.trans hdisc.terms⟩

/-- In every reachable state, every call keeps to the discipline of the proposals, touches only the
    one it names, and does nothing when it returns an error: the code has written nothing then, and
    there is nothing for the host to roll back. -/
theorem lifecycle_discipline (is : List (Input ω)) (i : Input ω) :
    (∀ id p, (run step Store.empty is).proposals.lookup id = some p →
      ∃ p', (step (run step Store.empty is) i).proposals.lookup id = some p' ∧
        Discipline i.env.timestamp i.op id p p') ∧
    (∀ id, i.op.proposal = some id → ∀ id', id' ≠ id →
      (step (run step Store.empty is) i).proposals.lookup id' =
        (run step Store.empty is).proposals.lookup id' ∧
      ∀ voter, (step (run step Store.empty is) i).hasVoted.lookup (id', voter) =
          (run step Store.empty is).hasVoted.lookup (id', voter) ∧
        (step (run step Store.empty is) i).voteRecords.lookup (id', voter) =
          (run step Store.empty is).voteRecords.lookup (id', voter)) ∧
    ∀ e c, (exec i.env i.op).run ⟨run step Store.empty is, i.outside⟩ = (.err e, c) →
      c = ⟨run step Store.empty is, i.outside⟩ ∧
        step (run step Store.empty is) i = run step Store.empty is := by
  have hs := run_wellFormed is
  refine ⟨fun id p hp => ?_, fun id hop id' hne => ?_, fun e c h => ⟨?_, ?_⟩⟩
  · rcases step_cases (run step Store.empty is) i with ⟨o, _, he⟩ | he
    · exact he.change.discipline hs hp
    · exact ⟨p, by rw [he, hp], .refl ..⟩
  · rcases step_cases (run step Store.empty is) i with ⟨o, _, he⟩ | he
    · exact he.change.frame hop hne
    · rw [he]
      exact ⟨rfl, fun _ => ⟨rfl, rfl⟩⟩
  · -- The error came before any write, so that even without the host nothing would have changed.
    have hclean := (exec_errClean i.env i.op).eq ⟨run step Store.empty is, i.outside⟩ e
    rw [h] at hclean
    exact hclean rfl
  · rw [step, Call.commit_of_not_ok fun a s' h' => ?_]
    rw [h] at h'
    cases h'

/-! ## A small contract -/

/-- A call that everyone has signed. Every account holds `100` voting tokens, which are also the supply,
    and none has delegated them. -/
def signed (timestamp : U64) (op : Op) : Input Unit where
  env :=
    { timestamp
      sequence := .lit 1
      auth := fun _ => true
      ttl := .ignored
      token := fun _ _ => ⟨some (.lit 100), fun _ => some (.lit 100), fun _ _ => some (.lit 100),
        fun _ => some none⟩
      disburse := fun _ _ _ => none }
  outside := ()
  op := op

/-- The account `9` is the admin, a tenth of the supply is the least quorum, and the account `1` makes
    the first proposal, with a voting period of a minute. -/
def opening : List (Input Unit) :=
  [signed (.lit 0) (.initializeContract (.account 9) (.contract 3) (.lit 0) (.lit 0) (.lit 1000) false none),
    signed (.lit 0) (.createProposal (.account 1) [84] [68] (.lit 10) (.lit 60) none none)]

/-- The first proposal. -/
def opened : Proposal :=
  .created (.lit 0) (.account 1) [84] [68] none (.lit 10) (.lit 0) (.lit 60) (.lit 1) none

end CosmosVote.Governance
