import CosmosVote.Governance.Batch
import CosmosVote.Governance.Order

/-!
# How to vote

What becomes of a proposal when some voters vote in another way, while the token answers the same.

* `Store.Approves.of_bounds`: a decision does not get worse for a proposal with more turnout, with more weight
  for it, or with less weight against it;
* `support_monotone`: so those who are for it never do it harm by voting for it;
* `boycott_or_oppose`: those who are against it have two ways to defeat it, and need no other one. It is not
  always the better one to vote no: a vote adds to the turnout, whatever it is.
-/

namespace CosmosVote.Governance

open Soroban

variable {ω : Type}

/-- The vote of the voter on the proposal `id` is recorded. -/
def Store.VotedFor (s : Store) (id : U64) (voter : Address) (vote : Vote) : Prop :=
  ∃ r, s.voteRecords.lookup (id, voter) = some r ∧ r.vote = vote

/-- Whoever has voted on the proposal `id` has the weight `weight`. -/
def Store.Weighed (s : Store) (id : U64) (weight : Address → Option I128) : Prop :=
  ∀ voter r, s.voteRecords.lookup (id, voter) = some r → weight voter = some r.weight

/-- The votes of `s'` are no worse for the proposal `id` than those of `s`: nobody who votes for it in `s`, or
    votes at all, does not do so in `s'`, and nobody is against it but in `s`. -/
structure Favours (id : U64) (s s' : Store) : Prop where
  voted : s.voters id ⊆ s'.voters id
  yes : ∀ voter, s.VotedFor id voter .yes → s'.VotedFor id voter .yes
  no : ∀ voter, s'.VotedFor id voter .no → s.VotedFor id voter .no

/-- The proposal `id` is finalised, in the state `state`. -/
def FinalisedAs (id : U64) (state : ProposalState) (s : Store) (i : Input ω) : Prop :=
  i.op = .finalise id ∧ Succeeds s i ∧ ∃ p, (step s i).proposals.lookup id = some p ∧ p.state = state

/-! ## Sums over the voters -/

section Sums

variable {s s' : Store} {id : U64} {weight : Address → Option I128} {voter : Address} {vote : Vote}

/-- What all voters add up to is no more than what they add up to in `s'`, if this is so for each of them. -/
theorem Store.sum_voters_le {f : Option VoteRecord → ℤ} (hnone : f none = 0)
    (h : ∀ voter, f (s.voteRecords.lookup (id, voter)) ≤ f (s'.voteRecords.lookup (id, voter))) :
    ∑ voter ∈ s.voters id, f (s.voteRecords.lookup (id, voter)) ≤
      ∑ voter ∈ s'.voters id, f (s'.voteRecords.lookup (id, voter)) := by
  have hzero (t : Store) (voter : Address) (hvoter : voter ∉ t.voters id) :
      f (t.voteRecords.lookup (id, voter)) = 0 := by
    rw [mem_voters, Option.not_isSome_iff_eq_none] at hvoter
    rw [hvoter, hnone]
  have hleft : s.voters id ⊆ s.voters id ∪ s'.voters id := Finset.subset_union_left
  have hright : s'.voters id ⊆ s.voters id ∪ s'.voters id := Finset.subset_union_right
  rw [Finset.sum_subset hleft fun voter _ => hzero s voter, Finset.sum_subset hright fun voter _ => hzero s' voter]
  exact Finset.sum_le_sum fun voter _ => h voter

/-- What a voter counts for. -/
theorem Store.Weighed.counted_eq (h : s.Weighed id weight) (hvoted : s.VotedFor id voter vote) :
    (weight voter).map IntRange.val = some (counted (s.voteRecords.lookup (id, voter)) vote) := by
  obtain ⟨r, hr, rfl⟩ := hvoted
  rw [h voter r hr, hr, counted_self]
  rfl

theorem counted_of_not (h : ¬s.VotedFor id voter vote) : counted (s.voteRecords.lookup (id, voter)) vote = 0 := by
  cases hr : s.voteRecords.lookup (id, voter) with
  | none => rfl
  | some r => exact counted_of_ne fun hvote => h ⟨r, hr, hvote.symm⟩

/-- If everybody who votes for an answer in `s` does so in `s'`, it has no less weight there. -/
theorem Store.recorded_le (hs : s.Weighed id weight) (hs' : s'.Weighed id weight) (ht : TallyCorrespondence s')
    (h : ∀ voter, s.VotedFor id voter vote → s'.VotedFor id voter vote) :
    s.recorded id vote ≤ s'.recorded id vote := by
  rw [recorded_eq_sum_voters, recorded_eq_sum_voters]
  refine sum_voters_le (f := fun r => counted r vote) rfl fun voter => ?_
  by_cases hvoted : s.VotedFor id voter vote
  · have hsame := (hs.counted_eq hvoted).symm.trans (hs'.counted_eq (h voter hvoted))
    exact (Option.some_inj.1 hsame).le
  · rw [counted_of_not hvoted]
    exact counted_nonneg (fun r hr => ht.weight_pos id voter r hr) vote

/-- If everybody who votes in `s` does so in `s'`, the turnout is no less there. -/
theorem Store.turnout_mono (hs : s.Weighed id weight) (hs' : s'.Weighed id weight) (ht : TallyCorrespondence s')
    (h : s.voters id ⊆ s'.voters id) : s.turnout id ≤ s'.turnout id := by
  refine sum_voters_le (f := weightOf) rfl fun voter => ?_
  cases hr : s.voteRecords.lookup (id, voter) with
  | none =>
    cases hr' : s'.voteRecords.lookup (id, voter) with
    | none => exact le_rfl
    | some r' => exact (ht.weight_pos id voter r' hr').le
  | some r =>
    obtain ⟨r', hr'⟩ := Option.isSome_iff_exists.1 (mem_voters.1 (h (mem_voters.2 (by rw [hr]; rfl))))
    have hsame := (hs voter r hr).symm.trans (hs' voter r' hr')
    rw [hr']
    exact (congrArg IntRange.val (Option.some_inj.1 hsame)).le

end Sums

/-- To cast a vote that is not against it never does a proposal harm. -/
theorem Effect.favours {env : Env ω} {s s' : Store} {o o' : ω} {id : U64} {voter : Address} {vote : Vote}
    (h : Effect env s o (.castVote voter id vote) s' o') (ht : TallyCorrespondence s) (hvote : vote ≠ .no) :
    Favours id s s' := by
  cases h with
  | castVote _ _ hp _ _ _ _ hvoted =>
    have hkeep {v : Address} {r r' : VoteRecord} (hr : s.voteRecords.lookup (id, v) = some r) :
        (s.voteRecords.insert (id, voter) r').lookup (id, v) = some r := by
      refine (Finmap.lookup_insert_of_ne _ fun hk => ?_).trans hr
      -- The voter had no vote before.
      rw [hk, ht.lookup_none hvoted] at hr
      cases hr
    refine ⟨fun v hv => ?_, fun v ⟨r, hr, hyes⟩ => ⟨r, hkeep hr, hyes⟩, fun v ⟨r, hr, hno⟩ => ⟨r, ?_, hno⟩⟩
    · obtain ⟨r, hr⟩ := Option.isSome_iff_exists.1 (Store.mem_voters.1 hv)
      exact Store.mem_voters.2 (Option.isSome_of_eq_some (hkeep hr))
    · change (s.voteRecords.insert (id, voter) _).lookup (id, v) = some r at hr
      rw [Finmap.lookup_insert_eq_ite] at hr
      split at hr
      · obtain rfl := Option.some_inj.1 hr
        exact absurd hno hvote
      · exact hr

/-! ## Decisions -/

section Decisions

variable {s s' : Store} {id : U64} {p : Proposal} {quorum : I128} {i : Input ω}

/-- With more turnout, more weight for it and less against it, a proposal is still approved. -/
theorem Store.Approves.of_bounds (h : s.Approves id quorum) (hturnout : s.turnout id ≤ s'.turnout id)
    (hyes : s.recorded id .yes ≤ s'.recorded id .yes) (hno : s'.recorded id .no ≤ s.recorded id .no) :
    s'.Approves id quorum :=
  ⟨h.1.trans hturnout, (hno.trans_lt h.2).trans_le hyes⟩

/-- What a proposal is finalised as is decided by its recorded votes. -/
theorem finalisedAs_iff (hs : WellFormed s) (ht : TallyCorrespondence s) (hp : s.proposals.lookup id = some p)
    (hop : i.op = .finalise id) (hi : Succeeds s i) :
    (FinalisedAs id .passed s i ↔ s.Approves id p.quorum) ∧
      (FinalisedAs id .rejected s i ↔ ¬s.Approves id p.quorum) := by
  obtain ⟨o, he⟩ := hi.effect_of hop
  obtain ⟨p', hp', hfinal⟩ := he.finalised_proposal hs hp
  rw [ht.approves_iff hp]
  have hstate (state : ProposalState) : FinalisedAs id state s i ↔ p'.state = state := by
    constructor
    · rintro ⟨_, _, q, hq, hstate⟩
      obtain rfl := Option.some_inj.1 (hp'.symm.trans hq)
      exact hstate
    · exact fun h => ⟨hop, hi, p', hp', h⟩
  rw [hstate, hstate]
  by_cases happroved : p.Approved
  · rw [hfinal.passed happroved]
    exact ⟨iff_of_true rfl happroved, iff_of_false ProposalState.noConfusion fun h => h happroved⟩
  · rw [hfinal.rejected happroved]
    exact ⟨iff_of_false ProposalState.noConfusion happroved, iff_of_true rfl happroved⟩

end Decisions

/-! ## Runs of votes -/

section Runs

variable {s₀ : Store} {id : U64} {p₀ : Proposal} {view : Address → TokenView} {is : List (Input ω)}

/-- While a proposal is voted on, everybody who votes has the weight that the token answers. -/
theorem run_weighed (hp : s₀.proposals.lookup id = some p₀) (h : Along step (VotesOn id view) s₀ is)
    (hs : s₀.Weighed id (s₀.weigh view p₀)) : (run step s₀ is).Weighed id (s₀.weigh view p₀) := by
  refine (run_invariant_of
    (I := fun t => (∃ p, Polling id s₀ p₀ t p) ∧ t.Weighed id (s₀.weigh view p₀)) ?_ h ⟨⟨p₀, .refl hp⟩, hs⟩).2
  rintro t i hi ⟨⟨p, hpolling⟩, ht⟩
  obtain ⟨hpolling', _, hballot⟩ := hi.step hpolling
  refine ⟨hpolling', fun voter r hr => ?_⟩
  have hrecord := congrArg Ballot.record (hballot voter)
  rw [Store.ballot, hr] at hrecord
  split at hrecord
  · rename_i hvoter
    have hop := hi.op
    generalize i.op = op at hop hvoter hrecord
    cases hop with
    | cast =>
      obtain rfl := Option.some_inj.1 hvoter
      obtain ⟨w, hw, rfl⟩ := Option.map_eq_some_iff.1 hrecord.symm
      exact hw
    | retract => cases hrecord
    | change =>
      obtain ⟨r', hr', rfl⟩ := Option.map_eq_some_iff.1 hrecord.symm
      exact ht voter r' hr'
  · exact ht voter r hrecord.symm

/-- Whoever does not act keeps their ballot. -/
theorem run_ballot_other (hp : s₀.proposals.lookup id = some p₀) (h : Along step (VotesOn id view) s₀ is)
    {voter : Address} (hnot : ∀ i ∈ is, i.op.voter ≠ some voter) :
    (run step s₀ is).ballot id voter = s₀.ballot id voter := by
  have hown : own Op.voter (some voter) (is.map Input.op) = [] := by
    rw [own, List.filter_eq_nil_iff]
    intro op hop
    obtain ⟨i, hi, rfl⟩ := List.mem_map.1 hop
    rw [decide_eq_true_eq]
    exact hnot i hi
  rw [run_ballot hp h, hown]
  rfl

/-- The quorum stays, so that the votes decide by it. -/
theorem run_decides (hs : WellFormed s₀) (ht : TallyCorrespondence s₀) (hp : s₀.proposals.lookup id = some p₀)
    (h : Along step (VotesOn id view) s₀ is) {i : Input ω} (hop : i.op = .finalise id)
    (hi : Succeeds (run step s₀ is) i) :
    (FinalisedAs id .passed (run step s₀ is) i ↔ (run step s₀ is).Approves id p₀.quorum) ∧
      (FinalisedAs id .rejected (run step s₀ is) i ↔ ¬(run step s₀ is).Approves id p₀.quorum) := by
  obtain ⟨p, hpolling⟩ := run_polling hp h
  obtain ⟨hs', ht'⟩ := run_correspondence_of hs ht is
  have hquorum : p.quorum = p₀.quorum := by
    obtain ⟨_, _, _, _, rfl⟩ := hpolling.recount
    rfl
  rw [← hquorum]
  exact finalisedAs_iff hs' ht' hpolling.lookup hop hi

end Runs

/-- From every reachable state, take two runs of votes on a proposal that succeed, while the token answers the
    same, and weighs those who have voted before as it did then. If everybody who votes for it in the one does
    so in the other, everybody who votes in the one does so in the other, and nobody votes against it in the
    other who does not in the one, then if the proposal passes after the one, it passes after the other. -/
theorem support_monotone (is : List (Input ω)) {id : U64} {p : Proposal} {view : Address → TokenView}
    {xs ys : List (Input ω)} (hp : (run step Store.empty is).proposals.lookup id = some p)
    (hweighed : (run step Store.empty is).Weighed id ((run step Store.empty is).weigh view p))
    (hxs : Along step (VotesOn id view) (run step Store.empty is) xs)
    (hys : Along step (VotesOn id view) (run step Store.empty is) ys)
    (hfavours : Favours id (run step Store.empty (is ++ xs)) (run step Store.empty (is ++ ys))) {i j : Input ω}
    (hi : FinalisedAs id .passed (run step Store.empty (is ++ xs)) i) (hop : j.op = .finalise id)
    (hj : Succeeds (run step Store.empty (is ++ ys)) j) :
    FinalisedAs id .passed (run step Store.empty (is ++ ys)) j := by
  have hs := run_wellFormed is
  have ht := run_correspondence is
  have htx := run_correspondence (is ++ xs)
  have hty := run_correspondence (is ++ ys)
  simp only [run_append] at hfavours hi hj htx hty ⊢
  have hx := run_weighed hp hxs hweighed
  have hy := run_weighed hp hys hweighed
  have happroves := (run_decides hs ht hp hxs hi.1 hi.2.1).1.1 hi
  refine (run_decides hs ht hp hys hop hj).1.2 (happroves.of_bounds ?_ ?_ ?_)
  · exact Store.turnout_mono hx hy hty hfavours.voted
  · exact Store.recorded_le hx hy hty hfavours.yes
  · exact Store.recorded_le hy hx htx hfavours.no

/-- The account `1` votes for the first proposal, and then the account `2` abstains. -/
def supported : List (Input Unit) :=
  [signed (.lit 1) (.castVote (.account 1) (.lit 0) .yes), signed (.lit 2) (.castVote (.account 2) (.lit 0) .abstain)]

/-- Every account has a hundred tokens. -/
def hundred : TokenView := ⟨some (.lit 100), fun _ => some (.lit 100), fun _ _ => some (.lit 100), fun _ => some none⟩

theorem weighed_opening :
    (run step Store.empty opening).Weighed (.lit 0) ((run step Store.empty opening).weigh (fun _ => hundred) opened) :=
  fun _ _ hr => absurd hr (Option.not_mem_none _)

theorem support_monotone_supported :
    FinalisedAs (.lit 0) .passed (run step Store.empty (opening ++ supported))
      (signed (.lit 61) (.finalise (.lit 0))) := by
  have hys : Along step (VotesOn (.lit 0) fun _ => hundred) (run step Store.empty opening) supported :=
    .cons ⟨.cast .., by decide, fun _ => rfl⟩ (.cons ⟨.cast .., by decide, fun _ => rfl⟩ along_nil)
  have hxs : Along step (VotesOn (.lit 0) fun _ => hundred) (run step Store.empty opening) (supported.take 1) :=
    .cons ⟨.cast .., by decide, fun _ => rfl⟩ along_nil
  have hfavours : Favours (.lit 0) (run step Store.empty (opening ++ supported.take 1))
      (run step Store.empty (opening ++ supported)) := by
    obtain ⟨o, he⟩ := (by decide : Succeeds (run step Store.empty (opening ++ supported.take 1))
      (signed (.lit 2) (.castVote (.account 2) (.lit 0) .abstain))).effect
    exact he.favours (run_correspondence _) Vote.noConfusion
  have hi : FinalisedAs (.lit 0) .passed (run step Store.empty (opening ++ supported.take 1))
      (signed (.lit 61) (.finalise (.lit 0))) :=
    ⟨rfl, by decide, _, rfl, by decide⟩
  exact support_monotone opening rfl weighed_opening hxs hys hfavours hi rfl (by decide)

/-- From every reachable state, a coalition votes on a proposal, and nobody else does, and the votes succeed,
    while the token answers the same, and weighs those who have voted before as it did then. If there is any way
    for them to have the proposal rejected, then it is rejected if none of them leaves a vote, or it is rejected
    if all who voted, and perhaps more of them, vote no. -/
theorem boycott_or_oppose (is : List (Input ω)) {id : U64} {p : Proposal} {view : Address → TokenView}
    {coalition : Set Address} {xs ys zs : List (Input ω)}
    (hp : (run step Store.empty is).proposals.lookup id = some p)
    (hweighed : (run step Store.empty is).Weighed id ((run step Store.empty is).weigh view p))
    (hxs : Along step (VotesOn id view) (run step Store.empty is) xs)
    (hys : Along step (VotesOn id view) (run step Store.empty is) ys)
    (hzs : Along step (VotesOn id view) (run step Store.empty is) zs)
    (hby : ∀ i ∈ xs ++ ys ++ zs, ∀ voter, i.op.voter = some voter → voter ∈ coalition)
    (hboycott : ∀ voter ∈ coalition, voter ∉ (run step Store.empty (is ++ xs)).voters id)
    (hoppose : ∀ voter ∈ coalition, ∀ vote, (run step Store.empty (is ++ zs)).VotedFor id voter vote → vote = .no)
    (hall : ∀ voter ∈ coalition, voter ∈ (run step Store.empty (is ++ ys)).voters id →
      voter ∈ (run step Store.empty (is ++ zs)).voters id) {i j k : Input ω}
    (hi : i.op = .finalise id ∧ Succeeds (run step Store.empty (is ++ xs)) i)
    (hj : FinalisedAs id .rejected (run step Store.empty (is ++ ys)) j)
    (hk : k.op = .finalise id ∧ Succeeds (run step Store.empty (is ++ zs)) k) :
    FinalisedAs id .rejected (run step Store.empty (is ++ xs)) i ∨
      FinalisedAs id .rejected (run step Store.empty (is ++ zs)) k := by
  have hs := run_wellFormed is
  have ht := run_correspondence is
  have hty := run_correspondence (is ++ ys)
  have htz := run_correspondence (is ++ zs)
  simp only [run_append] at hboycott hoppose hall hi hj hk hty htz ⊢
  have hx := run_weighed hp hxs hweighed
  have hy := run_weighed hp hys hweighed
  have hz := run_weighed hp hzs hweighed
  rw [(run_decides hs ht hp hxs hi.1 hi.2).2, (run_decides hs ht hp hzs hk.1 hk.2).2]
  by_contra happroves
  obtain ⟨happroves, happroves'⟩ := not_or.1 happroves
  rw [not_not] at happroves happroves'
  -- The others have the same votes in all three runs.
  have hother {ws : List (Input ω)} (hws : Along step (VotesOn id view) (run step Store.empty is) ws)
      (hsub : ws ⊆ xs ++ ys ++ zs) {voter : Address} (hvoter : voter ∉ coalition) :
      (run step (run step Store.empty is) ws).voteRecords.lookup (id, voter) =
        (run step Store.empty is).voteRecords.lookup (id, voter) :=
    congrArg Ballot.record (run_ballot_other hp hws fun i hi h => hvoter (hby i (hsub hi) voter h))
  have hotherx {voter : Address} (hvoter : voter ∉ coalition) := hother hxs (fun _ h => by simp [h]) hvoter
  have hothery {voter : Address} (hvoter : voter ∉ coalition) := hother hys (fun _ h => by simp [h]) hvoter
  have hotherz {voter : Address} (hvoter : voter ∉ coalition) := hother hzs (fun _ h => by simp [h]) hvoter
  have hrejected := (run_decides hs ht hp hys hj.1 hj.2.1).2.1 hj
  refine hrejected ⟨happroves.1.trans (Store.turnout_mono hx hy hty ?_), lt_of_lt_of_le ?_
    (Store.recorded_le hz hy hty ?_)⟩
  · intro voter hvoter
    have hout : voter ∉ coalition := fun h => hboycott voter h hvoter
    rwa [Store.mem_voters, hothery hout, ← hotherx hout, ← Store.mem_voters]
  · refine (Store.recorded_le hy hz htz ?_).trans_lt happroves'.2
    rintro voter ⟨r, hr, hvote⟩
    by_cases hin : voter ∈ coalition
    · obtain ⟨r', hr'⟩ := Option.isSome_iff_exists.1 (Store.mem_voters.1
        (hall voter hin (Store.mem_voters.2 (Option.isSome_of_eq_some hr))))
      exact ⟨r', hr', hoppose voter hin r'.vote ⟨r', hr', rfl⟩⟩
    · exact ⟨r, by rw [hotherz hin, ← hothery hin, hr], hvote⟩
  · rintro voter ⟨r, hr, hvote⟩
    have hout : voter ∉ coalition := fun h => Vote.noConfusion (hoppose voter h .yes ⟨r, hr, hvote⟩)
    exact ⟨r, by rw [hothery hout, ← hotherz hout, hr], hvote⟩

/-- The account `2` votes against the first proposal. -/
def opposed : List (Input Unit) := [signed (.lit 1) (.castVote (.account 2) (.lit 0) .no)]

theorem boycott_or_oppose_opposed :
    FinalisedAs (.lit 0) .rejected (run step Store.empty opening) (signed (.lit 61) (.finalise (.lit 0))) ∨
      FinalisedAs (.lit 0) .rejected (run step Store.empty (opening ++ opposed))
        (signed (.lit 61) (.finalise (.lit 0))) := by
  have hys : Along step (VotesOn (.lit 0) fun _ => hundred) (run step Store.empty opening) opposed :=
    .cons ⟨.cast .., by decide, fun _ => rfl⟩ along_nil
  have hj : FinalisedAs (.lit 0) .rejected (run step Store.empty (opening ++ opposed))
      (signed (.lit 61) (.finalise (.lit 0))) := ⟨rfl, by decide, _, rfl, by decide⟩
  have hby : ∀ i ∈ [] ++ opposed ++ opposed, ∀ voter, i.op.voter = some voter →
      voter ∈ ({.account 2} : Set Address) := by
    intro i hi voter hvoter
    obtain rfl : i = signed (.lit 1) (.castVote (.account 2) (.lit 0) .no) := by simpa [opposed] using hi
    exact (Option.some_inj.1 hvoter).symm
  have hoppose : ∀ voter ∈ ({.account 2} : Set Address), ∀ vote,
      (run step Store.empty (opening ++ opposed)).VotedFor (.lit 0) voter vote → vote = .no := by
    rintro _ rfl _ ⟨r, hr, rfl⟩
    obtain rfl : (⟨.no, .lit 100⟩ : VoteRecord) = r := Option.some_inj.1 hr
    rfl
  exact boycott_or_oppose opening rfl weighed_opening along_nil hys hys hby (fun _ _ => Finset.notMem_empty _) hoppose
    (fun _ _ h => h) ⟨rfl, by decide⟩ hj ⟨rfl, by decide⟩

end CosmosVote.Governance
