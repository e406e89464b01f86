import CosmosVote.Governance.Lifecycle

/-!
# Who can change what governance stores

Each part of what governance stores has somebody who has to authorise its changes: the voter
for their vote, the proposer for the text of a proposal, and for almost everything else the admin,
who is the one that is stored when the call is made (`Store.ByAdmin`), whoever the call names.
`finalise` needs nobody, but the end of the voting period.

* `Op.admin`: the calls of the admin, with whom they name; `Effect.byAdmin`: that is the admin who
  is stored;
* `Authorised`: what a call may change, and by whose authority;
* `governance_authority`: every call keeps to it, in every reachable state after the
  initialisation, of which there is one.
-/

namespace CosmosVote.Governance

open Soroban

variable {ω : Type}

/-- The admin that a call of the admin names. -/
def Op.admin : Op → Option Address
  | .execute admin _ => some admin
  | .cancel admin _ _ => some admin
  | .upgrade admin _ => some admin
  | .updateQuorum admin _ _ => some admin
  | .proposeAdmin admin _ => some admin
  | .updateVotingToken admin _ => some admin
  | .cancelAdminTransfer admin => some admin
  | .pause admin => some admin
  | .unpause admin => some admin
  | .setMinProposalBalance admin _ => some admin
  | .setProposalCooldown admin _ => some admin
  | .setRestrictAdminVote admin _ => some admin
  | _ => none

/-- The admin has authorised the call. -/
def Store.ByAdmin (s : Store) (env : HostEnv) : Prop := ∃ admin, s.admin = some admin ∧ env.auth admin = true

/-- The configuration is as it was, the voting token and the pause included. -/
structure SameConfig (s s' : Store) : Prop where
  votingToken : s'.votingToken = s.votingToken
  treasuryContract : s'.treasuryContract = s.treasuryContract
  minProposalBalance : s'.minProposalBalance = s.minProposalBalance
  proposalCooldown : s'.proposalCooldown = s.proposalCooldown
  minQuorumBps : s'.minQuorumBps = s.minQuorumBps
  restrictAdminVote : s'.restrictAdminVote = s.restrictAdminVote
  paused : s'.paused = s.paused
  version : s'.version = s.version

/-- What a call may change, and by whose authority. -/
structure Authorised (env : HostEnv) (op : Op) (s s' : Store) : Prop where
  votes : ∀ id voter, s'.hasVoted.lookup (id, voter) ≠ s.hasVoted.lookup (id, voter) ∨
    s'.voteRecords.lookup (id, voter) ≠ s.voteRecords.lookup (id, voter) → env.auth voter = true
  texts : ∀ id p p', s.proposals.lookup id = some p → s'.proposals.lookup id = some p' →
    p'.title ≠ p.title ∨ p'.description ≠ p.description → env.auth p.proposer = true
  state : ∀ id p p', s.proposals.lookup id = some p → s'.proposals.lookup id = some p' →
    p'.state ≠ p.state → s.ByAdmin env ∧ (p'.state = .cancelled ∨ p'.state = .executed) ∨
      (p.state = .active ∧ (p'.state = .passed ∨ p'.state = .rejected) ∧ p.endTime.val < env.timestamp.val)
  quorum : ∀ id p p', s.proposals.lookup id = some p → s'.proposals.lookup id = some p' →
    p'.quorum ≠ p.quorum → s.ByAdmin env
  config : ¬SameConfig s s' → s.ByAdmin env
  disbursements : s'.disbursements ≠ s.disbursements → s.ByAdmin env
  pendingAdmin : s'.pendingAdmin ≠ s.pendingAdmin → s.ByAdmin env ∨
    ∃ pending, op = .acceptAdmin pending ∧ s.pendingAdmin = some pending ∧ env.auth pending = true ∧
      s'.pendingAdmin = none
  /-- The calls of the admin neither count votes nor record them. -/
  uncounted : ∀ admin, op.admin = some admin → s'.hasVoted = s.hasVoted ∧ s'.voteRecords = s.voteRecords ∧
    ∀ id p, s.proposals.lookup id = some p →
      ∃ p', s'.proposals.lookup id = some p' ∧ ∀ vote, p'.tally vote = p.tally vote

section Calls

/-- What changes nothing needs no authority. -/
theorem Authorised.refl (env : HostEnv) (op : Op) (s : Store) : Authorised env op s s := by
  have hsame {α : Type} {id : U64} {p p' : Proposal} (f : Proposal → α) (hp : s.proposals.lookup id = some p)
      (hp' : s.proposals.lookup id = some p') : f p' = f p := by
    rw [Option.some_inj.1 (hp.symm.trans hp')]
  exact
    { votes := fun _ _ hne => (hne.elim (· rfl) (· rfl)).elim
      texts := fun _ _ _ hp hp' hne => (hne.elim (· (hsame _ hp hp')) (· (hsame _ hp hp'))).elim
      state := fun _ _ _ hp hp' hne => absurd (hsame _ hp hp') hne
      quorum := fun _ _ _ hp hp' hne => absurd (hsame _ hp hp') hne
      config := fun hne => absurd ⟨rfl, rfl, rfl, rfl, rfl, rfl, rfl, rfl⟩ hne
      disbursements := fun hne => absurd rfl hne
      pendingAdmin := fun hne => absurd rfl hne
      uncounted := fun _ _ => ⟨rfl, rfl, fun _ p hp => ⟨p, hp, fun _ => rfl⟩⟩ }

variable {s s' : Store} {env : Env ω} {op : Op} {o o' : ω} {id : U64} {voter admin : Address}

/-- A call of the admin is made by the one who is stored. -/
theorem Effect.byAdmin (h : Effect env s o op s' o') (hop : op.admin = some admin) :
    s.admin = some admin ∧ env.auth admin = true := by
  cases h with
  | execute hauth hadmin | executeDisburse hauth hadmin | cancel hauth hadmin | upgrade hauth hadmin
  | updateQuorum hauth hadmin | proposeAdmin hauth hadmin | updateVotingToken hauth hadmin
  | cancelAdminTransfer hauth hadmin | pause hauth hadmin | unpause hauth hadmin
  | setMinProposalBalance hauth hadmin | setProposalCooldown hauth hadmin
  | setRestrictAdminVote hauth hadmin => exact Option.some_inj.1 hop ▸ ⟨hadmin, hauth⟩
  | _ => cases hop

/-- The vote of an address that has not authorised the call stays as it is. -/
theorem Effect.same_vote (h : Effect env s o op s' o') (hauth : env.auth voter ≠ true) (id : U64) :
    s'.hasVoted.lookup (id, voter) = s.hasVoted.lookup (id, voter) ∧
      s'.voteRecords.lookup (id, voter) = s.voteRecords.lookup (id, voter) := by
  -- The calls that write votes write those of a voter who has authorised them.
  have hne {v : Address} (hv : env.auth v = true) (id' : U64) : (id, voter) ≠ (id', v) := by
    rintro ⟨⟩
    exact hauth hv
  obtain ⟨⟩ := s
  cases h with
  | castVote hv =>
    exact ⟨Finmap.lookup_insert_of_ne _ (hne hv _), Finmap.lookup_insert_of_ne _ (hne hv _)⟩
  | retractVote hv => exact ⟨Finmap.lookup_insert_of_ne _ (hne hv _), Finmap.lookup_erase_ne (hne hv _)⟩
  | changeVote hv => exact ⟨rfl, Finmap.lookup_insert_of_ne _ (hne hv _)⟩
  | _ => exact ⟨rfl, rfl⟩

/-- A call that is not one of the admin leaves the configuration. -/
theorem Effect.sameConfig (h : Effect env s o op s' o') (hready : s.contractState = .ready)
    (hop : op.admin = none) : SameConfig s s' := by
  obtain ⟨⟩ := s
  cases h with
  | initializeContract hinit => cases hinit.symm.trans hready
  | updateVotingToken => cases hop
  | pause => cases hop
  | unpause => cases hop
  | setMinProposalBalance => cases hop
  | setProposalCooldown => cases hop
  | setRestrictAdminVote => cases hop
  | _ => exact ⟨rfl, rfl, rfl, rfl, rfl, rfl, rfl, rfl⟩

/-- A call that is not one of the admin asks no treasury for anything. -/
theorem Effect.same_disbursements (h : Effect env s o op s' o') (hop : op.admin = none) :
    s'.disbursements = s.disbursements := by
  rcases h.outside with ⟨_, hsame⟩ | ⟨x, hx⟩
  · exact hsame
  · obtain ⟨admin, rfl⟩ := hx.op_eq
    cases hop

/-- A call that is not one of the admin leaves the pending admin, or makes them the admin. -/
theorem Effect.pendingAdmin (h : Effect env s o op s' o') (hop : op.admin = none) :
    s'.pendingAdmin = s.pendingAdmin ∨
      ∃ pending, op = .acceptAdmin pending ∧ s.pendingAdmin = some pending ∧ env.auth pending = true ∧
        s'.pendingAdmin = none := by
  obtain ⟨⟩ := s
  cases h with
  | acceptAdmin hauth hpending => exact .inr ⟨_, rfl, hpending, hauth, rfl⟩
  | proposeAdmin => cases hop
  | cancelAdminTransfer => cases hop
  | _ => exact .inl rfl

/-- The proposer of a proposal amends it. -/
theorem Effect.proposer (h : Effect env s o op s' o') {p : Proposal} (hp : s.proposals.lookup id = some p)
    (hop : ∃ proposer title description, op = .amendProposal proposer id title description) :
    env.auth p.proposer = true := by
  obtain ⟨proposer, title, description, rfl⟩ := hop
  cases h with
  | amendProposal hauth _ hq hproposer =>
    rw [hp] at hq
    rwa [Option.some_inj.1 hq, hproposer]

/-- A proposal is finalised after its voting period. -/
theorem Effect.voting_ended (h : Effect env s o (.finalise id) s' o') {p : Proposal}
    (hp : s.proposals.lookup id = some p) : p.endTime.val < env.timestamp.val := by
  cases h with
  | finalise _ hq _ hend =>
    rw [hp] at hq
    rwa [Option.some_inj.1 hq]

/-- What only the calls of the admin change is changed by the admin. -/
theorem Effect.byAdmin_of_not (h : Effect env s o op s' o') {P : Prop} (hP : op.admin = none → P)
    (hnot : ¬P) : s.ByAdmin env.toHostEnv := by
  cases hop : op.admin with
  | none => exact absurd (hP hop) hnot
  | some admin => exact ⟨admin, h.byAdmin hop⟩

/-- The state of a proposal is changed by the admin, or by its finalisation. -/
theorem Effect.state_of_move (h : Effect env s o op s' o') {p p' : Proposal}
    (hp : s.proposals.lookup id = some p) (hmove : StateMove id op p.state p'.state) :
    s.ByAdmin env.toHostEnv ∧ (p'.state = .cancelled ∨ p'.state = .executed) ∨
      (p.state = .active ∧ (p'.state = .passed ∨ p'.state = .rejected) ∧
        p.endTime.val < env.timestamp.val) := by
  generalize hx : p.state = x at hmove ⊢
  generalize p'.state = y at hmove ⊢
  cases hmove with
  | pass => exact .inr ⟨rfl, .inl rfl, h.voting_ended hp⟩
  | reject => exact .inr ⟨rfl, .inr rfl, h.voting_ended hp⟩
  | cancel admin => exact .inl ⟨⟨admin, h.byAdmin rfl⟩, .inl rfl⟩
  | execute admin => exact .inl ⟨⟨admin, h.byAdmin rfl⟩, .inr rfl⟩

/-- A call of the admin does not vote. -/
theorem Op.not_votes_of_admin (hop : op.admin = some admin) : ¬op.Votes := by
  intro hvotes
  cases op with
  | castVote => cases hop
  | retractVote => cases hop
  | changeVote => cases hop
  | _ => exact hvotes

/-- The calls of the admin leave the votes and the tallies. -/
theorem Effect.uncounted (h : Effect env s o op s' o') (hs : WellFormed s) (hop : op.admin = some admin) :
    s'.hasVoted = s.hasVoted ∧ s'.voteRecords = s.voteRecords ∧
      ∀ id p, s.proposals.lookup id = some p →
        ∃ p', s'.proposals.lookup id = some p' ∧ ∀ vote, p'.tally vote = p.tally vote := by
  obtain ⟨hvoted, hrecords⟩ := h.change.quiet (Op.not_votes_of_admin hop)
  refine ⟨hvoted, hrecords, fun id p hp => ?_⟩
  obtain ⟨p', hp', hdisc⟩ := h.change.discipline hs hp
  refine ⟨p', hp', ?_⟩
  rcases hdisc.tallies with hsame | ⟨hvote, _⟩
  · exact hsame
  · cases hvote <;> cases hop

/-- Every call that succeeds after the initialisation is authorised to change what it changes. -/
theorem Effect.authorised (h : Effect env s o op s' o') (hs : WellFormed s)
    (hready : s.contractState = .ready) : Authorised env.toHostEnv op s s' := by
  have hdisc {id : U64} {p p' : Proposal} (hp : s.proposals.lookup id = some p)
      (hp' : s'.proposals.lookup id = some p') : Discipline env.timestamp op id p p' := by
    obtain ⟨q, hq, hdisc⟩ := h.change.discipline hs hp
    rwa [Option.some_inj.1 (hp'.symm.trans hq)]
  refine
    { votes := fun id voter hne => ?_
      texts := fun id p p' hp hp' hne => ?_
      state := fun id p p' hp hp' hne => h.state_of_move hp ((hdisc hp hp').state.resolve_left hne)
      quorum := fun id p p' hp hp' hne => ?_
      config := h.byAdmin_of_not (h.sameConfig hready)
      disbursements := h.byAdmin_of_not h.same_disbursements
      pendingAdmin := fun hne => ?_
      uncounted := fun admin hop => h.uncounted hs hop }
  · by_contra hauth
    obtain ⟨hvoted, hrecords⟩ := h.same_vote hauth id
    exact hne.elim (· hvoted) (· hrecords)
  · rcases (hdisc hp hp').texts with ⟨htitle, hdescription⟩ | ⟨hop, _⟩
    · exact (hne.elim (· htitle) (· hdescription)).elim
    · exact h.proposer hp hop
  · obtain ⟨⟨admin, quorum, rfl⟩, _⟩ := (hdisc hp hp').quorum.resolve_left hne
    exact ⟨admin, h.byAdmin rfl⟩
  · cases hop : op.admin with
    | none => exact .inr ((h.pendingAdmin hop).resolve_left hne)
    | some admin => exact .inl ⟨admin, h.byAdmin hop⟩

end Calls

/-! ## Initialisation -/

/-- The call initialises the contract. -/
def Initialises (s : Store) (i : Input ω) : Prop :=
  (∃ admin token minBalance cooldown bps restrict treasury,
    i.op = .initializeContract admin token minBalance cooldown bps restrict treasury) ∧ Succeeds s i

theorem Initialises.state {s : Store} {i : Input ω} (h : Initialises s i) :
    s.contractState = .uninitialized ∧ (step s i).contractState = .ready := by
  obtain ⟨⟨_, _, _, _, _, _, _, hop⟩, hsucc⟩ := h
  obtain ⟨o, he⟩ := hsucc.effect_of hop
  generalize step s i = s' at he
  cases he with
  | initializeContract hinit => exact ⟨hinit, rfl⟩

/-- Once initialised, the contract stays so. -/
theorem run_ready {s : Store} (hready : s.contractState = .ready) (is : List (Input ω)) :
    (run step s is).contractState = .ready :=
  run_invariant (I := fun t : Store => t.contractState = .ready)
    (fun _ _ ht => step_invariant ht fun _ _ he => he.change.ready ht) hready is

/-- The contract is not initialised again. -/
theorem Initialises.not_again {s : Store} {i j : Input ω} {xs : List (Input ω)} (hi : Initialises s i) :
    ¬Initialises (run step s (i :: xs)) j := by
  intro hj
  have hready := run_ready hi.state.2 xs
  rw [← run_cons, hj.state.1] at hready
  cases hready

/-- In every reachable state in which governance is initialised, and whatever is called next: what changes
    has been authorised by whom it needs, and a call of the admin that succeeds names the admin who is
    stored, who has authorised it. In no run is governance initialised twice. -/
theorem governance_authority (is : List (Input ω)) :
    ((run step Store.empty is).contractState = .ready → ∀ i : Input ω,
      Authorised i.env.toHostEnv i.op (run step Store.empty is) (step (run step Store.empty is) i) ∧
      ∀ admin, i.op.admin = some admin → Succeeds (run step Store.empty is) i →
        (run step Store.empty is).admin = some admin ∧ i.env.auth admin = true) ∧
    ∀ xs i ys j zs, is = xs ++ i :: (ys ++ j :: zs) → Initialises (run step Store.empty xs) i →
      ¬Initialises (run step Store.empty (xs ++ i :: ys)) j := by
  refine ⟨fun hready i => ⟨?_, fun admin hop hi => ?_⟩, fun xs i ys j zs _ hi => ?_⟩
  · have hs := run_wellFormed is
    exact step_invariant (.refl ..) fun _ _ he => he.authorised hs hready
  · obtain ⟨o, he⟩ := hi.effect
    exact he.byAdmin hop
  · rw [run_append]
    exact hi.not_again

end CosmosVote.Governance
