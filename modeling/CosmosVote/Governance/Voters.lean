import CosmosVote.Governance.Tally

/-!
# The count of the voters

`cast_vote` counts a voter of a proposal, but `retract_vote` does not take them off the count
again. So the count is above the number of those who have a vote on the proposal by the
number of votes that have been retracted (`Store.surplus`).

* `step_surplus`: a retraction adds one to the surplus, and no other call changes it;
* `voter_count_iff`: the count, which `cancel` publishes, is right exactly if no vote on the
  proposal has ever been retracted.
-/

namespace CosmosVote.Governance

open Soroban

variable {ω : Type}

/-- The count of the voters of the proposal `id`: none, if there is no such proposal. -/
def Store.voterCount (s : Store) (id : U64) : ℤ :=
  (s.proposals.lookup id).elim 0 fun p => p.voterCount.val

/-- By how much the count of the voters is too high. -/
def Store.surplus (s : Store) (id : U64) : ℤ := s.voterCount id - (s.voters id).card

/-- The call retracts a vote on the proposal `id`. -/
def Retracts (id : U64) (s : Store) (i : Input ω) : Prop :=
  (∃ voter, i.op = .retractVote voter id) ∧ Succeeds s i

section Voters

variable {s s' : Store} {id id' : U64} {voter : Address} {p p' : Proposal} {r : VoteRecord}

theorem Store.voters_eq (h : s'.voteRecords = s.voteRecords) (id : U64) : s'.voters id = s.voters id := by
  rw [voters, h, voters]

/-- A voter whose vote is recorded is one of the voters of that proposal. -/
theorem Store.voters_insert (h : s'.voteRecords = s.voteRecords.insert (id', voter) r) (id : U64) :
    s'.voters id = if id = id' then insert voter (s.voters id) else s.voters id := by
  ext v
  rw [mem_voters, h, Finmap.lookup_insert_eq_ite]
  by_cases hid : id = id'
  · subst hid
    rw [if_pos rfl, Finset.mem_insert, mem_voters]
    by_cases hv : v = voter <;> simp [hv]
  · rw [if_neg hid, if_neg fun hk => hid (Prod.ext_iff.1 hk).1, mem_voters]

/-- A voter whose vote is removed is not. -/
theorem Store.voters_erase (h : s'.voteRecords = s.voteRecords.erase (id', voter)) (id : U64) :
    s'.voters id = if id = id' then (s.voters id).erase voter else s.voters id := by
  ext v
  rw [mem_voters, h]
  by_cases hid : id = id'
  · subst hid
    rw [if_pos rfl, Finset.mem_erase, mem_voters]
    by_cases hv : v = voter
    · rw [hv, Finmap.lookup_erase]
      simp
    · rw [Finmap.lookup_erase_ne fun hk => hv (Prod.ext_iff.1 hk).2]
      simp [hv]
  · rw [if_neg hid, Finmap.lookup_erase_ne fun hk => hid (Prod.ext_iff.1 hk).1, mem_voters]

theorem Store.voterCount_insert (h : s'.proposals = s.proposals.insert id' p') (id : U64) :
    s'.voterCount id = if id = id' then p'.voterCount.val else s.voterCount id := by
  rw [voterCount, h, Finmap.lookup_insert_eq_ite, voterCount]
  split <;> rfl

theorem Store.voterCount_of_lookup (hp : s.proposals.lookup id = some p) :
    s.voterCount id = p.voterCount.val := by
  rw [voterCount, hp, Option.elim_some]

theorem Store.surplus_of_eq (hcount : s'.voterCount id = s.voterCount id)
    (hrecords : s'.voteRecords = s.voteRecords) : s'.surplus id = s.surplus id := by
  rw [surplus, hcount, voters_eq hrecords, surplus]

/-- A write to a proposal that leaves its count and the votes as they are. -/
theorem Store.surplus_write (hp : s.proposals.lookup id' = some p)
    (hproposals : s'.proposals = s.proposals.insert id' p') (hcount : p'.voterCount = p.voterCount)
    (hrecords : s'.voteRecords = s.voteRecords) : s'.surplus id = s.surplus id := by
  refine surplus_of_eq ?_ hrecords
  rw [voterCount_insert hproposals]
  split
  · rename_i hid
    rw [hid, hcount, voterCount_of_lookup hp]
  · rfl

end Voters

theorem Proposal.setTally_voterCount (p : Proposal) (vote : Vote) (v : I128) :
    (p.setTally vote v).voterCount = p.voterCount := by
  cases vote <;> rfl

variable {s s' : Store} {env : Env ω} {op : Op} {o o' : ω} {id : U64}

/-- A vote that is retracted stays counted. -/
theorem Effect.surplus_succ {voter : Address} (h : Effect env s o (.retractVote voter id) s' o') :
    s'.surplus id = s.surplus id + 1 := by
  cases h with
  | retractVote _ _ hp _ _ _ _ hr =>
    have hmem : voter ∈ s.voters id := Store.mem_voters.2 (by rw [hr]; rfl)
    have hcard := Finset.card_erase_add_one hmem
    rw [Store.surplus, Store.voterCount_insert (s := s) rfl, if_pos rfl, Proposal.setTally_voterCount,
      Store.voters_erase (s := s) rfl, if_pos rfl, Store.surplus, Store.voterCount_of_lookup hp]
    omega

/-- No other call changes the surplus. -/
theorem Effect.surplus_eq (h : Effect env s o op s' o') (hs : WellFormed s) (ht : TallyCorrespondence s)
    (hop : ∀ voter, op ≠ .retractVote voter id) : s'.surplus id = s.surplus id := by
  cases h with
  | createProposal =>
    -- Neither the proposal nor any vote on it was there before.
    refine Store.surplus_of_eq ?_ rfl
    rw [Store.voterCount_insert (s := s) rfl]
    split
    · rename_i hid
      rw [hid, Store.voterCount, hs.next_none]
      rfl
    · rfl
  | @castVote voter _ id' vote p weight total count _ _ hp _ _ _ _ hvoted _ _ _ _ _ _ hcount =>
    rw [Store.surplus, Store.voterCount_insert (s := s) rfl, Store.voters_insert (s := s) rfl, Store.surplus]
    by_cases hid : id = id'
    · subst hid
      have hnot : voter ∉ s.voters id := by
        rw [Store.mem_voters, ht.lookup_none hvoted]
        exact Bool.false_ne_true
      have hcard := Finset.card_insert_of_notMem hnot
      rw [if_pos rfl, if_pos rfl, hcard, Store.voterCount_of_lookup hp]
      simp only [Proposal.setVoterCount]
      omega
    · rw [if_neg hid, if_neg hid]
  | @retractVote voter id' _ _ _ _ _ hp =>
    have hid : id ≠ id' := fun hid => hop voter (by rw [hid])
    rw [Store.surplus, Store.voterCount_insert (s := s) rfl, Store.voters_erase (s := s) rfl, if_neg hid, if_neg hid,
      Store.surplus]
  | @changeVote voter id' vote p r _ _ _ _ hp _ _ _ _ hr =>
    -- The voter has been counted, and is not counted again.
    have hmem : voter ∈ s.voters id' := Store.mem_voters.2 (by rw [hr]; rfl)
    rw [Store.surplus, Store.voterCount_insert (s := s) rfl, Store.voters_insert (s := s) rfl, Store.surplus]
    by_cases hid : id = id'
    · rw [if_pos hid, if_pos hid, hid, Finset.insert_eq_self.2 hmem, Proposal.setTally_voterCount,
        Proposal.setTally_voterCount, Store.voterCount_of_lookup hp]
    · rw [if_neg hid, if_neg hid]
  | amendProposal _ _ hp => exact Store.surplus_write hp rfl rfl rfl
  | @finalise id' p total _ hp =>
    exact Store.surplus_write hp rfl (by rw [p.withOutcome_eq]) rfl
  | execute _ _ hp => exact Store.surplus_write hp rfl rfl rfl
  | executeDisburse _ _ hp => exact Store.surplus_write hp rfl rfl rfl
  | cancel _ _ hp => exact Store.surplus_write hp rfl rfl rfl
  | updateQuorum _ _ _ _ _ _ hp => exact Store.surplus_write hp rfl rfl rfl
  | _ => rfl

/-- Only a retraction changes the surplus. -/
theorem step_surplus (hs : WellFormed s) (ht : TallyCorrespondence s) (i : Input ω) (id : U64) :
    Retracts id s i ∧ (step s i).surplus id = s.surplus id + 1 ∨
      ¬Retracts id s i ∧ (step s i).surplus id = s.surplus id := by
  by_cases hretracts : Retracts id s i
  · obtain ⟨⟨voter, hop⟩, hi⟩ := hretracts
    obtain ⟨o, he⟩ := hi.effect_of hop
    exact .inl ⟨⟨⟨voter, hop⟩, hi⟩, he.surplus_succ⟩
  · refine .inr ⟨hretracts, ?_⟩
    rcases step_cases s i with ⟨o, hrun, he⟩ | hsame
    · refine he.surplus_eq hs ht fun voter hop => hretracts ⟨⟨voter, hop⟩, ?_⟩
      rw [Succeeds, hrun]
    · rw [hsame]

/-- In every reachable state, the count of the voters of a proposal is the number of those who have a
    vote on it, that is, whose flag is set, exactly if no vote on it has been retracted so far. A call
    that cancels the proposal publishes this count. -/
theorem voter_count_iff {is : List (Input ω)} {p : Proposal}
    (hp : (run step Store.empty is).proposals.lookup id = some p) :
    (p.voterCount.val = ((run step Store.empty is).voters id).card ↔
      Along step (fun s i => ¬Retracts id s i) Store.empty is) ∧
    (∀ voter, voter ∈ (run step Store.empty is).voters id ↔
      (run step Store.empty is).voted id voter = true) ∧
    ∀ (i : Input ω) admin reason, i.op = .cancel admin id reason → Succeeds (run step Store.empty is) i →
      (step (run step Store.empty is) i).events =
        (run step Store.empty is).events ++ [.proposalCancelled id admin p.voterCount] := by
  refine ⟨?_, fun voter => ?_, fun i admin reason hop hi => ?_⟩
  · have hsurplus : (run step Store.empty is).surplus id = Store.empty.surplus id ↔
        Along step (fun s i => ¬Retracts id s i) Store.empty is := by
      refine (run_eq_iff (I := fun s : Store => WellFormed s ∧ TallyCorrespondence s)
        (f := fun s : Store => s.surplus id) (P := Retracts id) (Q := fun _ _ => True)
        (fun _ _ _ _ => trivial) ⟨.empty, .empty⟩ ?_ ?_).2
      · rintro s i - ⟨hs, ht⟩
        exact ⟨step_wellFormed s i hs, step_correspondence hs ht i⟩
      · rintro s i - ⟨hs, ht⟩
        exact (step_surplus hs ht i id).imp_left fun h => ⟨h.1, by omega⟩
    have hempty : Store.empty.surplus id = 0 := rfl
    rw [← hsurplus, hempty, Store.surplus, Store.voterCount_of_lookup hp]
    omega
  · rw [Store.mem_voters, (run_correspondence is).voted_iff]
  · obtain ⟨o, he⟩ := hi.effect_of hop
    generalize step (run step Store.empty is) i = s' at he ⊢
    cases he with
    | cancel _ _ hq =>
      obtain rfl := Option.some_inj.1 (hp.symm.trans hq)
      rfl

/-- The account `1` votes on its proposal. -/
def polled : List (Input Unit) := opening ++ [signed (.lit 1) (.castVote (.account 1) (.lit 0) .yes)]

/-- The count is one, and the account `1` is the only voter. -/
theorem voter_count_iff_polled :
    ((opened.setTally .yes (.lit 100)).setVoterCount (.lit 1)).voterCount.val =
        ((run step Store.empty polled).voters (.lit 0)).card ↔
      Along step (fun s i => ¬Retracts (.lit 0) s i) Store.empty polled :=
  (voter_count_iff (by decide)).1

/-- The account `1` takes the vote back, and the admin cancels the proposal. -/
def retracted : List (Input Unit) := polled ++
  [signed (.lit 2) (.retractVote (.account 1) (.lit 0)),
    signed (.lit 3) (.cancel (.account 9) (.lit 0) none)]

/-- Nobody has a vote on it, and one voter is counted and published. -/
theorem voter_count_stale :
    (∃ p, (run step Store.empty retracted).proposals.lookup (.lit 0) = some p ∧ p.voterCount.val = 1) ∧
    (∀ voter, (run step Store.empty retracted).voted (.lit 0) voter = false) ∧
    Event.proposalCancelled (.lit 0) (.account 9) (.lit 1) ∈ (run step Store.empty retracted).events := by
  refine ⟨Option.map_eq_some_iff.1 (show Option.map (fun p : Proposal => p.voterCount.val) _ = some 1 by decide),
    fun voter => ?_, by decide⟩
  have hnone : (run step Store.empty retracted).voters (.lit 0) = ∅ := by decide
  rw [Bool.eq_false_iff, ne_eq, (run_correspondence retracted).voted_iff, ← Store.mem_voters, hnone]
  exact Finset.notMem_empty voter

end CosmosVote.Governance
