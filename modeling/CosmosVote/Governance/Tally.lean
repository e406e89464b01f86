import CosmosVote.Governance.Lifecycle

/-!
# Tallies and records

Every vote is stored three times: in a tally of the proposal, as the record of the
voter, and as the flag of the voter. `TallyCorrespondence` says that the three agree:
each tally is the sum of the weights recorded for its choice (`Store.recorded`), and
the flag of a voter is set exactly when they have a record. It holds in every
reachable state, whatever the voting token answers.
-/

namespace CosmosVote.Governance

open Soroban

variable {ω : Type}

/-- What the record of a voter, if there is one, adds to the tally of `vote`. -/
def counted (r : Option VoteRecord) (vote : Vote) : ℤ :=
  r.elim 0 fun r => if r.vote = vote then r.weight.val else 0

/-- What a stored record adds to the tally of `vote` on the proposal `id`. -/
def share (id : U64) (vote : Vote) (k : U64 × Address) (r : VoteRecord) : ℤ :=
  if k.1 = id then counted (some r) vote else 0

/-- The sum of the weights recorded for `vote` on the proposal `id`. -/
def Store.recorded (s : Store) (id : U64) (vote : Vote) : ℤ := s.voteRecords.sum (share id vote)

/-- The tallies, the records and the flags of the votes agree. -/
structure TallyCorrespondence (s : Store) : Prop where
  tally_eq : ∀ id p, s.proposals.lookup id = some p →
    ∀ vote, (p.tally vote).val = s.recorded id vote
  voted_iff : ∀ id voter, s.voted id voter = true ↔ (s.voteRecords.lookup (id, voter)).isSome
  weight_pos : ∀ id voter r, s.voteRecords.lookup (id, voter) = some r → 0 < r.weight.val
  on_proposal : ∀ id voter, (s.voteRecords.lookup (id, voter)).isSome →
    (s.proposals.lookup id).isSome

theorem counted_self (r : VoteRecord) : counted (some r) r.vote = r.weight.val := if_pos rfl

theorem counted_of_ne {r : VoteRecord} {vote : Vote} (h : vote ≠ r.vote) : counted (some r) vote = 0 :=
  if_neg h.symm

theorem counted_nonneg {r : Option VoteRecord} (h : ∀ r', r = some r' → 0 < r'.weight.val)
    (vote : Vote) : 0 ≤ counted r vote := by
  cases r with
  | none => exact le_rfl
  | some r =>
    by_cases hvote : vote = r.vote
    · rw [hvote, counted_self]
      exact (h r rfl).le
    · rw [counted_of_ne hvote]

theorem termAt_share (m : Entries (U64 × Address) VoteRecord) (id : U64) (vote : Vote)
    (k : U64 × Address) :
    m.termAt (share id vote) k = if k.1 = id then counted (m.lookup k) vote else 0 := by
  rw [Finmap.termAt]
  cases m.lookup k with
  | none => exact (ite_self 0).symm
  | some r => rfl

namespace TallyCorrespondence

variable {s s' : Store}

theorem empty : TallyCorrespondence Store.empty where
  tally_eq id p h := by simp [Store.empty] at h
  voted_iff id voter := by simp [Store.voted, Store.empty]
  weight_pos id voter r h := by simp [Store.empty] at h
  on_proposal id voter h := by simp [Store.empty] at h

theorem share_nonneg (hs : TallyCorrespondence s) (id : U64) (vote : Vote) (k : U64 × Address)
    (r : VoteRecord) (h : s.voteRecords.lookup k = some r) : 0 ≤ share id vote k r := by
  rw [share]
  split
  · exact counted_nonneg (fun r' hr' => Option.some_inj.1 hr' ▸ hs.weight_pos k.1 k.2 r h) vote
  · exact le_rfl

theorem recorded_nonneg (hs : TallyCorrespondence s) (id : U64) (vote : Vote) :
    0 ≤ s.recorded id vote :=
  Finmap.sum_nonneg (hs.share_nonneg id vote)

/-- A recorded weight is part of its tally. -/
theorem weight_le (hs : TallyCorrespondence s) {id : U64} {voter : Address} {r : VoteRecord}
    (hr : s.voteRecords.lookup (id, voter) = some r) : r.weight.val ≤ s.recorded id r.vote := by
  have h := Finmap.le_sum (hs.share_nonneg id r.vote) (id, voter)
  rwa [termAt_share, if_pos rfl, hr, counted_self] at h

/-- A voter without a flag has no record. -/
theorem lookup_none (hs : TallyCorrespondence s) {id : U64} {voter : Address}
    (h : s.voted id voter = false) : s.voteRecords.lookup (id, voter) = none := by
  have hsome := (hs.voted_iff id voter).not.1 (by rw [h]; exact Bool.false_ne_true)
  simpa using hsome

/-- A change that writes no votes keeps the correspondence. -/
theorem of_quiet (hs : TallyCorrespondence s) (hw : WellFormed s) {now : U64} {op : Op}
    (h : Change now s op s') (hquiet : ¬op.Votes) : TallyCorrespondence s' := by
  have hrecords := h.quiet hquiet
  refine ⟨fun id p hp vote => ?_, ?_, ?_, fun id voter hr => ?_⟩
  · rw [Store.recorded, hrecords.2]
    cases h with
    | config _ hsame =>
      rw [hsame.proposals] at hp
      exact hs.tally_eq id p hp vote
    | initialized _ hsame =>
      rw [hsame.proposals] at hp
      exact hs.tally_eq id p hp vote
    | @created q _ _ _ htally hproposals =>
      rw [hproposals, Finmap.lookup_insert_eq_ite] at hp
      split at hp
      · -- There are no records for a proposal before it is made.
        rename_i hid
        have hnone : s.voteRecords.sum (share id vote) = s.voteRecords.sum fun _ _ => (0 : ℤ) :=
          Finmap.sum_congr fun k r hr => by
            rw [share, if_neg]
            intro hk
            have := hs.on_proposal k.1 k.2 (by rw [hr]; rfl)
            rw [hk, hid, hw.next_none] at this
            cases this
        rw [hnone, ← Option.some_inj.1 hp, htally, Finmap.sum_zero]
      · exact hs.tally_eq id p hp vote
    | @edited id' q q' hop hq hedit hproposals =>
      rw [hproposals, Finmap.lookup_insert_eq_ite] at hp
      split at hp
      · rename_i hid
        have hkeep : q'.tally vote = q.tally vote := by
          rcases (hedit.discipline hop (hw.proper id' q hq).start_le_end).tallies with h | ⟨h, _⟩
          · exact h vote
          · exact absurd (by cases h <;> trivial) hquiet
        rw [← Option.some_inj.1 hp, hkeep, hid]
        exact hs.tally_eq id' q hq vote
      · exact hs.tally_eq id p hp vote
  · simp only [Store.voted, hrecords.1, hrecords.2]
    exact hs.voted_iff
  · rw [hrecords.2]
    exact hs.weight_pos
  · rw [hrecords.2] at hr
    obtain ⟨p, hp⟩ := Option.isSome_iff_exists.1 (hs.on_proposal id voter hr)
    obtain ⟨p', hp', _⟩ := h.discipline hw hp
    rw [hp', Option.isSome_some]

/-- A write to the vote of one voter keeps the correspondence, if the tallies follow the record. -/
theorem of_vote (hs : TallyCorrespondence s) {id : U64} (voter : Address) {p p' : Proposal}
    {old new : Option VoteRecord} (hp : s.proposals.lookup id = some p)
    (hproposals : s'.proposals = s.proposals.insert id p')
    (hold : s.voteRecords.lookup (id, voter) = old) (hnew : s'.voteRecords.lookup (id, voter) = new)
    (hvoted : s'.voted id voter = new.isSome) (hpos : ∀ r, new = some r → 0 < r.weight.val)
    (hoff : ∀ k, k ≠ (id, voter) → s'.voted k.1 k.2 = s.voted k.1 k.2 ∧
      s'.voteRecords.lookup k = s.voteRecords.lookup k)
    (htally : ∀ vote, (p'.tally vote).val =
      (p.tally vote).val - counted old vote + counted new vote) : TallyCorrespondence s' := by
  have hsum (id' : U64) (vote : Vote) : s'.recorded id' vote = s.recorded id' vote -
      (if id = id' then counted old vote else 0) + if id = id' then counted new vote else 0 := by
    rw [Store.recorded, Finmap.sum_eq_of_eq_off (fun k hk => (hoff k hk).2), termAt_share,
      termAt_share, hold, hnew]
    rfl
  refine ⟨fun id' q hq vote => ?_, fun id' v => ?_, fun id' v r hr => ?_, fun id' v hr => ?_⟩
  · rw [hproposals, Finmap.lookup_insert_eq_ite] at hq
    split at hq
    · rename_i hid
      rw [← Option.some_inj.1 hq, htally, hs.tally_eq id p hp, hsum, if_pos hid.symm,
        if_pos hid.symm, hid]
    · rename_i hid
      rw [hs.tally_eq id' q hq, hsum, if_neg (Ne.symm hid), if_neg (Ne.symm hid), sub_zero, add_zero]
  · by_cases hk : (id', v) = (id, voter)
    · obtain ⟨rfl, rfl⟩ := Prod.ext_iff.1 hk
      rw [hnew, hvoted]
    · obtain ⟨h₁, h₂⟩ := hoff _ hk
      dsimp only at h₁
      rw [h₁, h₂]
      exact hs.voted_iff id' v
  · by_cases hk : (id', v) = (id, voter)
    · rw [hk, hnew] at hr
      exact hpos r hr
    · rw [(hoff _ hk).2] at hr
      exact hs.weight_pos id' v r hr
  · rw [hproposals, Finmap.lookup_insert_eq_ite]
    split
    · rfl
    · rename_i hid
      rw [(hoff (id', v) fun h => hid (congrArg Prod.fst h)).2] at hr
      exact hs.on_proposal id' v hr

/-- What a call does keeps the correspondence. -/
theorem of_effect (hs : TallyCorrespondence s) (hw : WellFormed s) {env : Env ω} {op : Op} {o o' : ω}
    (h : Effect env s o op s' o') : TallyCorrespondence s' := by
  by_cases hquiet : ¬op.Votes
  · exact hs.of_quiet hw h.change hquiet
  · cases h with
    | @castVote voter _ id vote p weight total _ _ _ hp _ _ _ _ hvoted _ _ _ _ hpos htotal =>
      refine hs.of_vote voter hp rfl (hs.lookup_none hvoted) (Finmap.lookup_insert _) ?_ ?_
        (fun k hk => ?_) fun w => ?_
      · simp [Store.voted, Store.setHasVoted, Store.setVoteRecord, Store.setProposal, Store.emit]
      · rintro r hr
        rw [← Option.some_inj.1 hr]
        exact hpos
      · simp [Store.voted, Store.setHasVoted, Store.setVoteRecord, Store.setProposal, Store.emit, hk]
      · -- Only the tally of the vote grows, by the weight of the new record.
        rw [Proposal.tally_setVoterCount, Proposal.tally_setTally]
        by_cases hvote : w = vote
        · rw [if_pos hvote, hvote, ← htotal, counted_self ⟨vote, weight⟩]
          exact congrArg (· + weight.val) (sub_zero _).symm
        · rw [if_neg hvote, counted_of_ne hvote, add_zero]
          exact (sub_zero _).symm
    | @retractVote voter id p r total _ _ hp _ _ _ hvoted hr htotal =>
      refine hs.of_vote voter hp rfl hr (Finmap.lookup_erase _ _) ?_ ?_ (fun k hk => ?_) fun w => ?_
      · simp [Store.voted, Store.setHasVoted, Store.removeVoteRecord, Store.setProposal, Store.emit]
      · exact fun _ h => by cases h
      · simp [Store.voted, Store.setHasVoted, Store.removeVoteRecord, Store.setProposal, Store.emit, hk]
      · -- Only the tally of the old vote shrinks, by the weight of the old record.
        rw [Proposal.tally_setTally]
        by_cases hvote : w = r.vote
        · rw [if_pos hvote, hvote, ← htotal, counted_self]
          exact (add_zero _).symm
        · rw [if_neg hvote, counted_of_ne hvote, sub_zero]
          exact (add_zero _).symm
    | @changeVote voter id vote p r less more _ _ hp _ _ _ hvoted hr hne hless hmore =>
      refine hs.of_vote voter hp rfl hr (Finmap.lookup_insert _) hvoted ?_ (fun k hk => ?_) fun w => ?_
      · rintro r' hr'
        rw [← Option.some_inj.1 hr']
        exact hs.weight_pos id voter r hr
      · simp [Store.voted, Store.setVoteRecord, Store.setProposal, Store.emit, hk]
      · -- The weight goes from the tally of the old vote to that of the new one.
        rw [Proposal.tally_setTally, Proposal.tally_setTally]
        by_cases hvote : w = vote
        · rw [if_pos hvote, hvote, ← hmore, counted_of_ne (Ne.symm hne), sub_zero,
            counted_self ⟨vote, r.weight⟩]
        · rw [if_neg hvote, counted_of_ne (r := ⟨vote, r.weight⟩) hvote, add_zero]
          by_cases hold : w = r.vote
          · rw [if_pos hold, hold, ← hless, counted_self]
          · rw [if_neg hold, counted_of_ne hold, sub_zero]
    | _ => exact absurd id hquiet

end TallyCorrespondence

/-! ## Weights -/

/-- A recorded weight was recorded before, or is what the voting token has just answered for a vote
    that is being cast. -/
theorem Effect.weight {env : Env ω} {s s' : Store} {op : Op} {o o' : ω}
    (h : Effect env s o op s' o') {id : U64} {voter : Address} {r : VoteRecord}
    (hr : s'.voteRecords.lookup (id, voter) = some r) :
    (∃ r', s.voteRecords.lookup (id, voter) = some r' ∧ r'.weight = r.weight) ∨
    ∃ token p, op = .castVote voter id r.vote ∧ s.proposals.lookup id = some p ∧
      p.state = .active ∧ s.votingToken = some token ∧
      (env.token token o).balanceAt voter p.snapshotLedger.toU64 = some r.weight := by
  cases h with
  | @castVote v token id' vote p weight _ _ _ _ hp hstate _ _ _ _ _ htoken _ hweight =>
    by_cases hk : (id, voter) = (id', v)
    · obtain ⟨rfl, rfl⟩ := Prod.ext_iff.1 hk
      obtain rfl := Option.some_inj.1 ((Finmap.lookup_insert _).symm.trans hr)
      exact .inr ⟨token, p, rfl, hp, hstate, htoken, hweight⟩
    · exact .inl ⟨r, (Finmap.lookup_insert_of_ne _ hk).symm.trans hr, rfl⟩
  | @retractVote v id' =>
    by_cases hk : (id, voter) = (id', v)
    · rw [hk] at hr
      exact absurd (hr.symm.trans (Finmap.lookup_erase _ _)) (Option.some_ne_none r)
    · exact .inl ⟨r, (Finmap.lookup_erase_ne hk).symm.trans hr, rfl⟩
  | @changeVote v id' vote p r' _ _ _ _ _ _ _ _ _ hr' =>
    by_cases hk : (id, voter) = (id', v)
    · rw [hk] at hr ⊢
      obtain rfl := Option.some_inj.1 ((Finmap.lookup_insert _).symm.trans hr)
      exact .inl ⟨r', hr', rfl⟩
    · exact .inl ⟨r, (Finmap.lookup_insert_of_ne _ hk).symm.trans hr, rfl⟩
  | _ => exact .inl ⟨r, hr, rfl⟩

/-! ## Voters -/

/-- The addresses with a record on the proposal `id`. -/
def Store.voters (s : Store) (id : U64) : Finset Address :=
  (s.voteRecords.keys.filter fun k => k.1 = id).image Prod.snd

theorem Store.mem_voters {s : Store} {id : U64} {voter : Address} :
    voter ∈ s.voters id ↔ (s.voteRecords.lookup (id, voter)).isSome := by
  rw [voters, Finset.mem_image, ← Finmap.mem_keys_iff]
  constructor
  · rintro ⟨⟨id', v⟩, hk, rfl⟩
    obtain ⟨hmem, rfl⟩ := Finset.mem_filter.1 hk
    exact hmem
  · intro h
    exact ⟨(id, voter), Finset.mem_filter.2 ⟨h, rfl⟩, rfl⟩

/-- What is recorded for a vote, voter by voter. -/
theorem Store.recorded_eq_sum_voters (s : Store) (id : U64) (vote : Vote) :
    s.recorded id vote =
      ∑ voter ∈ s.voters id, counted (s.voteRecords.lookup (id, voter)) vote := by
  have hinj : Set.InjOn Prod.snd (s.voteRecords.keys.filter fun k => k.1 = id : Set (U64 × Address)) := by
    intro a ha b hb hab
    rw [Finset.mem_coe, Finset.mem_filter] at ha hb
    exact Prod.ext (ha.2.trans hb.2.symm) hab
  rw [voters, Finset.sum_image hinj, Finset.sum_filter, recorded, Finmap.sum]
  refine Finset.sum_congr rfl fun k _ => ?_
  rw [termAt_share]
  split
  · rename_i h
    rw [← h]
  · rfl

/-! ## Runs -/

theorem step_correspondence {s : Store} (hs : WellFormed s) (ht : TallyCorrespondence s)
    (i : Input ω) : TallyCorrespondence (step s i) :=
  step_invariant ht fun _ _ h => ht.of_effect hs h

theorem run_correspondence_of {s : Store} (hs : WellFormed s) (ht : TallyCorrespondence s)
    (is : List (Input ω)) : WellFormed (run step s is) ∧ TallyCorrespondence (run step s is) :=
  run_invariant (I := fun t => WellFormed t ∧ TallyCorrespondence t)
    (fun t i h => ⟨step_wellFormed t i h.1, step_correspondence h.1 h.2 i⟩) ⟨hs, ht⟩ is

theorem run_correspondence (is : List (Input ω)) :
    TallyCorrespondence (run step Store.empty is) :=
  (run_correspondence_of .empty .empty is).2

/-- In every reachable state, each tally of a proposal is the sum of the weights that its voters
    have recorded for that vote, each voter once; a voter is flagged exactly when they have a
    record; and every recorded weight is positive, and no more than the tally it would be
    subtracted from. -/
theorem tally_correspondence (is : List (Input ω)) (id : U64) :
    (∀ p, (run step Store.empty is).proposals.lookup id = some p → ∀ vote,
      (p.tally vote).val = ∑ voter ∈ (run step Store.empty is).voters id,
        counted ((run step Store.empty is).voteRecords.lookup (id, voter)) vote ∧
      0 ≤ (p.tally vote).val) ∧
    (∀ voter, (run step Store.empty is).voted id voter = true ↔
      ∃ r, (run step Store.empty is).voteRecords.lookup (id, voter) = some r) ∧
    ∀ voter r, (run step Store.empty is).voteRecords.lookup (id, voter) = some r →
      0 < r.weight.val ∧ ∀ p, (run step Store.empty is).proposals.lookup id = some p →
        r.weight.val ≤ (p.tally r.vote).val := by
  have hs := run_correspondence is
  refine ⟨fun p hp vote => ⟨?_, ?_⟩, fun voter => ?_, fun voter r hr => ⟨?_, fun p hp => ?_⟩⟩
  · rw [hs.tally_eq id p hp, Store.recorded_eq_sum_voters]
  · rw [hs.tally_eq id p hp]
    exact hs.recorded_nonneg id vote
  · rw [hs.voted_iff, Option.isSome_iff_exists]
  · exact hs.weight_pos id voter r hr
  · rw [hs.tally_eq id p hp]
    exact hs.weight_le hr

end CosmosVote.Governance
