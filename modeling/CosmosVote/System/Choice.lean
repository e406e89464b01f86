import CosmosVote.System.Snapshot

/-!
# Who sets the choice of a vote

`cast_vote` refuses a voter who has delegated, and an admin who votes on their own proposal while
that is restricted (`MayVote`). `change_vote` checks neither: it is enough that the voter had
been allowed to vote once.

* `Disqualifies`: the calls after which a voter who was allowed to vote no longer is;
* `MayVote.step`: no other call does this;
* `choice_eligibility`: `cast_vote` is always refused to those who may not vote, and
  `change_vote` is if no call has disqualified the voter while they had a vote on the proposal that
  could still be changed.
-/

namespace CosmosVote.System

open Soroban

/-! ## Calls of the two contracts -/

/-- Only the delegation of an account itself ends that it has none. -/
theorem delegation_none {env : HostEnv} {s s' : Token.Store} {op : Token.Op} (h : Token.Effect env s op s')
    {a : Address} (hnone : s.delegations.lookup a = none) :
    s'.delegations.lookup a = none ∨ ∃ to_, op = .delegate a to_ := by
  cases h with
  | @delegate owner to_ =>
    by_cases howner : a = owner
    · exact .inr ⟨to_, by rw [howner]⟩
    · exact .inl ((Finmap.lookup_insert_of_ne _ howner).trans hnone)
  | @undelegate owner =>
    by_cases howner : a = owner
    · exact .inl (howner ▸ Finmap.lookup_erase _ _)
    · exact .inl ((Finmap.lookup_erase_ne howner).trans hnone)
  | _ => exact .inl hnone

/-- The voter is the admin, and the admin is not to vote on their own proposals. -/
def Restricted (s : Governance.Store) (voter : Address) : Prop :=
  s.restrictAdminVote = true ∧ s.admin = some voter

/-- A voter who becomes restricted has just become the admin, or the restriction has just been turned
    on. -/
theorem restricted_of_effect {ω : Type} {env : Governance.Env ω} {s s' : Governance.Store}
    {op : Governance.Op} {o o' : ω} (h : Governance.Effect env s o op s' o')
    (hready : s.contractState = .ready) {voter : Address} (h' : Restricted s' voter) :
    Restricted s voter ∨ (op = .acceptAdmin voter ∧ s.restrictAdminVote = true) ∨
      ∃ admin, op = .setRestrictAdminVote admin true ∧ s.admin = some voter := by
  obtain ⟨hrestrict, hadmin⟩ := h'
  obtain ⟨⟩ := s
  cases h with
  | initializeContract hinit => cases hinit.symm.trans hready
  | acceptAdmin =>
    obtain rfl := Option.some_inj.1 hadmin
    exact .inr (.inl ⟨rfl, hrestrict⟩)
  | setRestrictAdminVote =>
    obtain rfl : _ = true := hrestrict
    exact .inr (.inr ⟨_, rfl, hadmin⟩)
  | _ => exact .inl ⟨hrestrict, hadmin⟩

/-! ## Those who may vote -/

/-- The voter has not delegated, and is not an admin who is restricted on their own proposal. -/
structure MayVote (w : World) (id : U64) (voter : Address) : Prop where
  delegation : w.token.delegations.lookup voter = none
  unrestricted : ∀ p, w.governance.proposals.lookup id = some p →
    ¬(Restricted w.governance voter ∧ p.proposer = voter)

/-- The call succeeds, and after it a voter who might vote on the proposal `id` no longer may: they
    have delegated, or the restriction now covers them. -/
inductive Disqualifies (d : Deployment) (w : World) (tx : Tx) (id : U64) (voter : Address) : Prop
  | delegate {to_ : Address} (hop : tx.op = .token (.delegate voter to_))
      (h : Token.Succeeds w.token ⟨d.hostEnv w tx none, .delegate voter to_⟩)
  | acceptAdmin (h : Calls d w tx (.acceptAdmin voter)) (hrestrict : w.governance.restrictAdminVote = true)
      (hproposer : ∃ p, w.governance.proposals.lookup id = some p ∧ p.proposer = voter)
  | restrict {admin : Address} (h : Calls d w tx (.setRestrictAdminVote admin true))
      (hadmin : w.governance.admin = some voter)
      (hproposer : ∃ p, w.governance.proposals.lookup id = some p ∧ p.proposer = voter)

variable {d : Deployment} {w : World} {tx : Tx} {id : U64} {voter : Address}

theorem delegation_step (hnone : w.token.delegations.lookup voter = none)
    (hnot : ¬Disqualifies d w tx id voter) :
    (step d w tx).token.delegations.lookup voter = none := by
  rcases step_token d w tx with hsame | ⟨c, hc, he⟩
  · rwa [hsame]
  · rcases delegation_none he hnone with h | ⟨to_, hop⟩
    · exact h
    · cases hc with
      | nested => cases hop
      | direct htx =>
        obtain rfl := hop
        have hsucceeds : Token.Succeeds w.token ⟨d.hostEnv w tx none, .delegate voter to_⟩ := by
          rw [Token.Succeeds, Token.exec_ok_iff.2 he]
        exact absurd (.delegate htx hsucceeds) hnot

/-- A voter who may vote on a proposal still may after every call that does not disqualify them. -/
theorem MayVote.step (h : MayVote w id voter) {token : Address} (hcreated : Created token id w.governance)
    (hnot : ¬Disqualifies d w tx id voter) : MayVote (step d w tx) id voter := by
  refine ⟨delegation_step h.delegation hnot, fun p' hp' ⟨hrestricted, hproposer⟩ => ?_⟩
  obtain ⟨p, hp, _⟩ := hcreated.exists_proposal
  rcases step_governance d w tx with hsame | ⟨op, o, hop, he⟩
  · rw [hsame] at hp' hrestricted
    exact h.unrestricted p' hp' ⟨hrestricted, hproposer⟩
  · obtain ⟨q, hq, hdisc⟩ := he.change.discipline hcreated.wellFormed hp
    obtain rfl := Option.some_inj.1 (hp'.symm.trans hq)
    have hproposer := hdisc.terms.proposer.symm.trans hproposer
    have hcalls : Calls d w tx op := .of_effect hop he
    rcases restricted_of_effect he hcreated.ready hrestricted with hold | ⟨rfl, hrestrict⟩ | ⟨admin, rfl, hadmin⟩
    · exact h.unrestricted p hp ⟨hold, hproposer⟩
    · exact hnot (.acceptAdmin hcalls hrestrict ⟨p, hp, hproposer⟩)
    · exact hnot (.restrict hcalls hadmin ⟨p, hp, hproposer⟩)

/-- A call that disqualifies a voter leaves one who may not vote. -/
theorem Disqualifies.not_mayVote (h : Disqualifies d w tx id voter) :
    ¬MayVote (System.step d w tx) id voter := by
  intro hmay
  cases h with
  | @delegate to_ hop h =>
    have htoken : (System.step d w tx).token =
        Token.step w.token ⟨d.hostEnv w tx none, .delegate voter to_⟩ := by
      rw [System.step, hop]
    have hnone := hmay.delegation
    have he := h.effect
    rw [htoken] at hnone
    generalize Token.step w.token ⟨d.hostEnv w tx none, .delegate voter to_⟩ = t' at he hnone
    cases he with
    | delegate => cases (Finmap.lookup_insert _).symm.trans hnone
  | acceptAdmin hcalls hrestrict hproposer =>
    obtain ⟨p, hp, hproposer⟩ := hproposer
    have hnot := hmay.unrestricted p
    obtain ⟨o, he⟩ := hcalls.effect
    generalize (System.step d w tx).governance = s' at he hnot
    cases he with
    | acceptAdmin => exact hnot hp ⟨⟨hrestrict, rfl⟩, hproposer⟩
  | restrict hcalls hadmin hproposer =>
    obtain ⟨p, hp, hproposer⟩ := hproposer
    have hnot := hmay.unrestricted p
    obtain ⟨o, he⟩ := hcalls.effect
    generalize (System.step d w tx).governance = s' at he hnot
    cases he with
    | setRestrictAdminVote => exact hnot hp ⟨⟨rfl, hadmin⟩, hproposer⟩

/-- A vote is only cast by those who may vote. -/
theorem Created.mayVote (h : Created d.token id w.governance) {vote : Governance.Vote}
    (hcast : Calls d w tx (.castVote voter id vote)) : MayVote w id voter := by
  obtain ⟨o, he⟩ := hcast.effect
  obtain ⟨q, hq, htoken'⟩ := h.exists_proposal
  generalize (System.step d w tx).governance = s' at he
  cases he with
  | castVote _ _ hp hactive _ _ _ _ hallowed htoken hdelegate =>
    obtain rfl := Option.some_inj.1 (hp.symm.trans hq)
    obtain rfl := Option.some_inj.1 (htoken.symm.trans (htoken' hactive))
    refine ⟨?_, ?_⟩
    · -- The token that is asked for the delegation is that of the deployment.
      exact Option.some_inj.1 ((view_getDelegation ..).symm.trans hdelegate)
    · rintro p hp' ⟨⟨hrestrict, hadmin⟩, hproposer⟩
      obtain rfl := Option.some_inj.1 (hp.symm.trans hp')
      obtain ⟨admin, ha, hnot⟩ := hallowed hrestrict
      obtain rfl := Option.some_inj.1 (hadmin.symm.trans ha)
      exact hnot ⟨rfl, hproposer⟩

/-- The proposal is active, and its voting period is not over. -/
def VotingOpen (w : World) (id : U64) : Prop :=
  ∃ p, w.governance.proposals.lookup id = some p ∧ p.state = .active ∧ w.timestamp.val ≤ p.endTime.val

/-- The voter has a vote on the proposal that can still be changed. -/
structure HasOpenVote (w : World) (id : U64) (voter : Address) : Prop where
  votingOpen : VotingOpen w id
  record : (w.governance.voteRecords.lookup (id, voter)).isSome

variable (d) in
/-- If the voter has such a vote, the call does not disqualify them. -/
def KeepsVoter (id : U64) (voter : Address) (w : World) (tx : Tx) : Prop :=
  HasOpenVote w id voter → ¬Disqualifies d w tx id voter

/-- What is open after a call was open before it. -/
theorem VotingOpen.of_step (hopen : VotingOpen (step d w tx) id) (h : Created d.token id w.governance) :
    VotingOpen w id := by
  obtain ⟨p', hp', hactive', hend'⟩ := hopen
  obtain ⟨p, hp, _⟩ := h.exists_proposal
  have hend := (step_timestamp_le d w tx).trans hend'
  rcases step_governance d w tx with hsame | ⟨op, o, _, he⟩
  · rw [hsame] at hp'
    exact ⟨p', hp', hactive', hend⟩
  · obtain ⟨q, hq, hdisc⟩ := he.change.discipline h.wellFormed hp
    obtain rfl := Option.some_inj.1 (hp'.symm.trans hq)
    exact ⟨p, hp, he.change.active h.wellFormed hp hp' hactive', hdisc.terms.endTime ▸ hend⟩

/-- A voter who has such a vote may vote, after every call that does not disqualify them. -/
theorem HasOpenVote.mayVote (hvote : HasOpenVote (step d w tx) id voter) (hcreated : Created d.token id w.governance)
    (h : HasOpenVote w id voter → MayVote w id voter) (hkeeps : KeepsVoter d id voter w tx) :
    MayVote (step d w tx) id voter := by
  have hopen := hvote.votingOpen.of_step hcreated
  obtain ⟨r, hr⟩ := Option.isSome_iff_exists.1 hvote.record
  -- The vote was there before, or the voter has just been allowed to cast it.
  rcases hcreated.weight hr with ⟨r', hr', _⟩ | ⟨hcast, _⟩
  · have hold : HasOpenVote w id voter := ⟨hopen, by rw [hr']; rfl⟩
    exact (h hold).step hcreated (hkeeps hold)
  · refine (hcreated.mayVote hcast).step hcreated fun hdisqualifies => ?_
    cases hdisqualifies with
    | delegate hop => cases hcast.1.symm.trans hop
    | acceptAdmin hcalls => cases hcast.1.symm.trans hcalls.1
    | restrict hcalls => cases hcast.1.symm.trans hcalls.1

/-- A proposal was created to be voted on with the token. A vote on it is only cast by a voter who may
    vote; and only changed by one, if no call has disqualified the voter since then, while they had a
    vote on it, it was active, and its voting period was not over. After a call that disqualifies a voter,
    they may not vote. -/
theorem choice_eligibility {txs₀ txs : List Tx} {tx₀ : Tx} (hcreates : Creates d (d.after txs₀) tx₀ id)
    {vote : Governance.Vote} :
    (Calls d (d.after (txs₀ ++ tx₀ :: txs)) tx (.castVote voter id vote) →
      MayVote (d.after (txs₀ ++ tx₀ :: txs)) id voter) ∧
    (Along (step d) (KeepsVoter d id voter) (step d (d.after txs₀) tx₀) txs →
      Calls d (d.after (txs₀ ++ tx₀ :: txs)) tx (.changeVote voter id vote) →
      MayVote (d.after (txs₀ ++ tx₀ :: txs)) id voter) ∧
    (Disqualifies d (d.after (txs₀ ++ tx₀ :: txs)) tx id voter →
      ¬MayVote (step d (d.after (txs₀ ++ tx₀ :: txs)) tx) id voter) := by
  refine ⟨(hcreates.run_created txs).mayVote, fun halong hchange => ?_, fun h => h.not_mayVote⟩
  obtain ⟨hcreated, hnone⟩ := hcreates.created (run_wellFormed d txs₀) (run_correspondence d txs₀)
  have hmay : HasOpenVote (d.after (txs₀ ++ tx₀ :: txs)) id voter →
      MayVote (d.after (txs₀ ++ tx₀ :: txs)) id voter := by
    rw [d.after_cons]
    refine (run_invariant_of
      (I := fun w => Created d.token id w.governance ∧ (HasOpenVote w id voter → MayVote w id voter))
      (fun w tx hkeeps hw => ⟨hw.1.step tx, fun hvote => hvote.mayVote hw.1 hw.2 hkeeps⟩) halong
      ⟨hcreated, fun hvote => ?_⟩).2
    have hsome := hvote.record
    rw [hnone] at hsome
    cases hsome
  obtain ⟨o, he⟩ := hchange.effect
  generalize (step d (d.after (txs₀ ++ tx₀ :: txs)) tx).governance = s' at he
  cases he with
  | changeVote _ _ hp hactive hend _ _ hr => exact hmay ⟨⟨_, hp, hactive, hend⟩, by rw [hr]; rfl⟩

/-- The account `1` changes its vote on the first proposal. -/
def changing (vote : Governance.Vote) : Tx := signed (.governance (.changeVote (.account 1) (.lit 0) vote))

/-- The account `1`, which has voted on its proposal, may still vote. -/
theorem choice_eligibility_changing :
    Calls sample (sample.after (proposed ++ [voting (.account 1) .yes])) (changing .no)
        (.changeVote (.account 1) (.lit 0) .no) ∧
      MayVote (sample.after (proposed ++ [voting (.account 1) .yes])) (.lit 0) (.account 1) := by
  have hcalls : Calls sample (sample.after (proposed ++ [voting (.account 1) .yes])) (changing .no)
      (.changeVote (.account 1) (.lit 0) .no) := ⟨rfl, by decide⟩
  have halong : Along (step sample) (KeepsVoter sample (.lit 0) (.account 1))
      (step sample (sample.after (opening (.lit 100) none)) (proposing none)) [voting (.account 1) .yes] := by
    refine .cons ?_ along_nil
    intro hvote
    have hsome := hvote.record
    rw [(honestRun_creates.created (run_wellFormed ..) (run_correspondence ..)).2] at hsome
    cases hsome
  exact ⟨hcalls, (choice_eligibility honestRun_creates).2.1 halong hcalls⟩

/-- The account `1` votes, and then delegates to the account `2`. -/
def delegating : List Tx :=
  proposed ++ [voting (.account 1) .yes, signed (.token (.delegate (.account 1) (.account 2)))]

/-- The account `1` votes, becomes the admin, and restricts the votes of the admin. -/
def restricting : List Tx := proposed ++ [voting (.account 1) .yes,
  signed (.governance (.proposeAdmin (.account 9) (.account 1))),
  signed (.governance (.acceptAdmin (.account 1))),
  signed (.governance (.setRestrictAdminVote (.account 1) true))]

/-- Neither may it vote then, and both times it can change its vote. -/
theorem choice_not_checked :
    (Calls sample (sample.after delegating) (changing .no) (.changeVote (.account 1) (.lit 0) .no) ∧
      ¬MayVote (sample.after delegating) (.lit 0) (.account 1)) ∧
    Calls sample (sample.after restricting) (changing .no) (.changeVote (.account 1) (.lit 0) .no) ∧
      ¬MayVote (sample.after restricting) (.lit 0) (.account 1) := by
  refine ⟨⟨⟨rfl, by decide⟩, fun h => absurd h.delegation (by decide)⟩, ⟨rfl, by decide⟩, fun h => ?_⟩
  obtain ⟨p, hp, hproposer⟩ := Option.map_eq_some_iff.1 (show ((sample.after
    restricting).governance.proposals.lookup (.lit 0)).map (fun p => p.proposer) =
      some (.account 1) by decide)
  exact h.unrestricted p hp ⟨⟨by decide, by decide⟩, hproposer⟩

end CosmosVote.System
