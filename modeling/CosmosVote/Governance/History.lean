import CosmosVote.Governance.Disbursement
import CosmosVote.Governance.Outcome

/-!
# Where the votes come from

A vote that is recorded was cast (`Casts`), and a proposal that is there was created
(`Creates`), by a call of the run. Between the two, while the proposal is active, the voting
token cannot be replaced.

* `exists_casts`: the call that cast a recorded vote, after which it stays recorded, with the
  weight it was cast with;
* `exists_creates`: the call that created a proposal;
* `voting_token_consistency`: every vote on a proposal was weighed by the token that was
  configured when it was created.
-/

namespace CosmosVote.Governance

open Soroban

variable {ω : Type}

/-- The call casts a vote, which the token weighs at the snapshot of the proposal. -/
structure Casts (s : Store) (i : Input ω) (id : U64) (voter token : Address) (weight : I128) : Prop where
  op_eq : ∃ vote, i.op = .castVote voter id vote
  succeeds : Succeeds s i
  votingToken : s.votingToken = some token
  weighed : ∃ p, s.proposals.lookup id = some p ∧ p.state = .active ∧
    (i.env.token token i.outside).balanceAt voter p.snapshotLedger.toU64 = some weight

/-- The call creates the proposal `id`, while this voting token is configured. -/
structure Creates (s : Store) (i : Input ω) (id : U64) (token : Address) : Prop where
  op_eq : ∃ proposer title description quorum duration link action,
    i.op = .createProposal proposer title description quorum duration link action
  succeeds : Succeeds s i
  id_eq : id = s.proposalCount
  votingToken : s.votingToken = some token

/-! ## Votes -/

section Votes

variable {s s' : Store} {id : U64} {voter : Address} {r r' : VoteRecord}

/-- A vote that stays recorded keeps its weight. -/
theorem Effect.weight_eq {env : Env ω} {op : Op} {o o' : ω} (h : Effect env s o op s' o')
    (ht : TallyCorrespondence s) (hr : s.voteRecords.lookup (id, voter) = some r)
    (hr' : s'.voteRecords.lookup (id, voter) = some r') : r'.weight = r.weight := by
  rcases h.weight hr' with ⟨q, hq, hweight⟩ | ⟨_, _, rfl, _⟩
  · obtain rfl := Option.some_inj.1 (hr.symm.trans hq)
    exact hweight.symm
  · -- A vote can only be cast by a voter who has none.
    cases h with
    | castVote _ _ _ _ _ _ _ hvoted =>
      rw [ht.lookup_none hvoted] at hr
      cases hr

/-- A vote that is new has just been cast. -/
theorem casts_of_new {i : Input ω} (hnone : s.voteRecords.lookup (id, voter) = none)
    (hr : (step s i).voteRecords.lookup (id, voter) = some r) :
    ∃ token, Casts s i id voter token r.weight := by
  rcases step_cases s i with ⟨o, hrun, he⟩ | hsame
  · rcases he.weight hr with ⟨q, hq, _⟩ | ⟨token, p, hop, hp, hactive, htoken, hweight⟩
    · rw [hnone] at hq
      cases hq
    · exact ⟨token, ⟨r.vote, hop⟩, by rw [Succeeds, hrun], htoken, p, hp, hactive, hweight⟩
  · rw [hsame, hnone] at hr
    cases hr

/-- A vote that stays recorded along a run keeps its weight. -/
theorem run_weight_eq (hs : WellFormed s) (ht : TallyCorrespondence s) {is : List (Input ω)}
    (hsome : ∀ zs, zs <+: is → ((run step s zs).voteRecords.lookup (id, voter)).isSome)
    (hr : s.voteRecords.lookup (id, voter) = some r)
    (hr' : (run step s is).voteRecords.lookup (id, voter) = some r') : r'.weight = r.weight := by
  refine (run_effects_of (I := fun t : Store => TallyCorrespondence t ∧
    ∀ q, t.voteRecords.lookup (id, voter) = some q → q.weight = r.weight)
    (.of_states (P := fun t : Store => (t.voteRecords.lookup (id, voter)).isSome) hsome) hs
    ⟨ht, fun q hq => by rw [Option.some_inj.1 (hr.symm.trans hq)]⟩ ?_).2 r' hr'
  rintro t i t' o hs hsome ⟨ht, hweight⟩ he
  refine ⟨ht.of_effect hs he, fun q' hq' => ?_⟩
  obtain ⟨q, hq⟩ := Option.isSome_iff_exists.1 hsome
  exact (he.weight_eq ht hq hq').trans (hweight q hq)

/-- A recorded vote was cast by a call of the run, and since then it has been recorded, with the weight
    it was cast with. -/
theorem exists_casts (hs : WellFormed s) (ht : TallyCorrespondence s) {is : List (Input ω)}
    (hnone : s.voteRecords.lookup (id, voter) = none)
    (hr : (run step s is).voteRecords.lookup (id, voter) = some r) :
    ∃ xs i ys token, is = xs ++ i :: ys ∧ Casts (run step s xs) i id voter token r.weight ∧
      ∀ zs, zs <+: ys → ∃ q, (run step s (xs ++ i :: zs)).voteRecords.lookup (id, voter) = some q ∧
        q.weight = r.weight := by
  obtain ⟨xs, i, ys, rfl, hbefore, hafter⟩ := exists_last_step
    (P := fun t : Store => (t.voteRecords.lookup (id, voter)).isSome) (by rw [hnone]; exact Bool.false_ne_true)
    (show ((run step s is).voteRecords.lookup (id, voter)).isSome by rw [hr]; rfl)
  have hbefore : (run step s xs).voteRecords.lookup (id, voter) = none := by simpa using hbefore
  obtain ⟨q, hq⟩ := Option.isSome_iff_exists.1 (hafter [] (List.nil_prefix))
  obtain ⟨hs', ht'⟩ := run_correspondence_of hs ht (xs ++ [i])
  -- The weight is the same in every state from then on.
  have hweight {zs : List (Input ω)} (hzs : zs <+: ys) {q' : VoteRecord}
      (hq' : (run step s (xs ++ i :: zs)).voteRecords.lookup (id, voter) = some q') :
      q'.weight = q.weight := by
    rw [← List.singleton_append, ← List.append_assoc, run_append] at hq'
    refine run_weight_eq hs' ht' (fun ws hws => ?_) hq hq'
    rw [← run_append, List.append_assoc, List.singleton_append]
    exact hafter ws (hws.trans hzs)
  have hlast := hweight (List.prefix_refl ys) hr
  rw [run_concat] at hq
  obtain ⟨token, hcasts⟩ := casts_of_new hbefore hq
  refine ⟨xs, i, ys, token, rfl, hlast ▸ hcasts, fun zs hzs => ?_⟩
  obtain ⟨q', hq'⟩ := Option.isSome_iff_exists.1 (hafter zs hzs)
  exact ⟨q', hq', (hweight hzs hq').trans hlast.symm⟩

end Votes

/-! ## Proposals -/

section Proposals

variable {is xs ys zs ws : List (Input ω)} {i : Input ω} {id : U64} {p : Proposal} {token : Address}

/-- Every proposal was created by a call of the run. -/
theorem exists_creates (hp : (run step Store.empty is).proposals.lookup id = some p) :
    ∃ xs i ys token, is = xs ++ i :: ys ∧ Creates (run step Store.empty xs) i id token := by
  obtain ⟨xs, i, ys, rfl, hbefore, hafter⟩ := exists_first_step
    (P := fun s : Store => (s.proposals.lookup id).isSome) (by simp [Store.empty])
    (show ((run step Store.empty is).proposals.lookup id).isSome by rw [hp]; rfl)
  have hnone : (run step Store.empty xs).proposals.lookup id = none := by simpa using hbefore
  obtain ⟨q, hq⟩ := Option.isSome_iff_exists.1 hafter
  rcases step_cases (run step Store.empty xs) i with ⟨o, hrun, he⟩ | hsame
  · obtain ⟨hid, _, _, _, _, _, _, _, hop, _⟩ := he.attached hnone hq
    have hsucceeds : Succeeds (run step Store.empty xs) i := by rw [Succeeds, hrun]
    rw [hop] at he
    generalize step (run step Store.empty xs) i = s' at he
    cases he with
    | createProposal _ _ _ _ _ _ _ _ htoken =>
      exact ⟨xs, i, ys, _, rfl, ⟨_, _, _, _, _, _, _, hop⟩, hsucceeds, hid, htoken⟩
  · rw [hsame, hnone] at hq
    cases hq

/-- What the call that creates a proposal leaves. -/
theorem Creates.created {s : Store} (h : Creates s i id token) :
    (step s i).contractState = .ready ∧ (step s i).votingToken = some token ∧
      ∃ p, (step s i).proposals.lookup id = some p := by
  obtain ⟨⟨_, _, _, _, _, _, _, hop⟩, hsucceeds, hid, htoken⟩ := h
  obtain ⟨o, he⟩ := hsucceeds.effect_of hop
  generalize step s i = s' at he ⊢
  cases he with
  | createProposal _ hready =>
    rw [hid]
    exact ⟨hready.1, htoken, _, Finmap.lookup_insert _⟩

/-- There is no such proposal before the call that creates it. -/
theorem Creates.precedes (h : Creates (run step Store.empty xs) i id token)
    (hp : (run step Store.empty zs).proposals.lookup id = some p) (heq : xs ++ i :: ys = zs ++ ws) :
    ∃ ts, zs = xs ++ i :: ts := by
  have hzs : zs <+: xs ++ i :: ys := heq ▸ List.prefix_append zs ws
  have hxs : xs ++ [i] <+: xs ++ i :: ys := (List.prefix_append_right_inj xs).2 (by simp)
  rcases List.prefix_or_prefix_of_prefix hxs hzs with ⟨ts, hts⟩ | hle
  · exact ⟨ts, by rw [← hts, List.append_assoc, List.singleton_append]⟩
  · rcases List.prefix_concat_iff.1 hle with rfl | ⟨ts, rfl⟩
    · exact ⟨[], rfl⟩
    · -- Proposals stay, so that it would be there already.
      obtain ⟨q, hq, _⟩ := run_sameTerms (run_wellFormed zs) hp ts
      rw [← run_append, h.id_eq, (run_wellFormed (zs ++ ts)).next_none] at hq
      cases hq

/-- While a proposal is active, the voting token is the same along every run. -/
theorem run_keeps_votingToken {s : Store} (hs : WellFormed s) (hready : s.contractState = .ready)
    (hp : s.proposals.lookup id = some p) (htoken : p.state = .active → s.votingToken = some token)
    (is : List (Input ω)) :
    ∃ p', (run step s is).proposals.lookup id = some p' ∧
      (p'.state = .active → (run step s is).votingToken = some token) := by
  refine (run_effects (I := fun t : Store => t.contractState = .ready ∧
    ∃ p', t.proposals.lookup id = some p' ∧ (p'.state = .active → t.votingToken = some token)) hs
    ⟨hready, p, hp, htoken⟩ ?_ is).2
  rintro t i t' o ht ⟨hready, q, hq, htoken⟩ he
  exact ⟨he.change.ready hready, he.keeps_votingToken ht hready hq htoken⟩

/-- Whenever a proposal is active, the voting token is the one it was created with. -/
theorem Creates.votingToken_eq (h : Creates (run step Store.empty xs) i id token)
    (hp : (run step Store.empty (xs ++ i :: ys)).proposals.lookup id = some p) (hactive : p.state = .active) :
    (run step Store.empty (xs ++ i :: ys)).votingToken = some token := by
  obtain ⟨hready, htoken, q, hq⟩ := h.created
  have hs := step_wellFormed _ i (run_wellFormed xs)
  rw [run_append, run_cons] at hp ⊢
  obtain ⟨p', hp', hkeep⟩ := run_keeps_votingToken hs hready hq (fun _ => htoken) ys
  obtain rfl := Option.some_inj.1 (hp.symm.trans hp')
  exact hkeep hactive

/-- Every proposal was created by a call of the run, with a voting token configured that is the same for
    every vote on it that is recorded, which was weighed by it, and for every change of its quorum,
    which was compared with its supply. -/
theorem voting_token_consistency (hp : (run step Store.empty is).proposals.lookup id = some p) :
    ∃ xs i ys token, is = xs ++ i :: ys ∧ Creates (run step Store.empty xs) i id token ∧
      (∀ voter r, (run step Store.empty is).voteRecords.lookup (id, voter) = some r →
        ∃ zs j ws, is = zs ++ j :: ws ∧ Casts (run step Store.empty zs) j id voter token r.weight) ∧
      ∀ zs j ws admin quorum, is = zs ++ j :: ws → j.op = .updateQuorum admin id quorum →
        Succeeds (run step Store.empty zs) j →
        (run step Store.empty zs).votingToken = some token ∧
          ∃ supply, (j.env.token token j.outside).totalSupply = some supply ∧ quorum.val ≤ supply.val := by
  obtain ⟨xs, i, ys, token, rfl, hcreates⟩ := exists_creates hp
  have htoken {zs ws : List (Input ω)} {q : Proposal} (hzs : xs ++ i :: ys = zs ++ ws)
      (hq : (run step Store.empty zs).proposals.lookup id = some q) (hactive : q.state = .active) :
      (run step Store.empty zs).votingToken = some token := by
    obtain ⟨ts, rfl⟩ := hcreates.precedes hq hzs
    exact hcreates.votingToken_eq hq hactive
  refine ⟨xs, i, ys, token, rfl, hcreates, fun voter r hr => ?_, fun zs j ws admin quorum his hop hj => ?_⟩
  · obtain ⟨zs, j, ws, token', his, hcasts, _⟩ := exists_casts .empty .empty (Finmap.lookup_empty _) hr
    obtain ⟨q, hq, hactive, _⟩ := hcasts.weighed
    obtain rfl := Option.some_inj.1 (hcasts.votingToken.symm.trans (htoken his hq hactive))
    exact ⟨zs, j, ws, his, hcasts⟩
  · obtain ⟨o, he⟩ := hj.effect_of hop
    generalize step (run step Store.empty zs) j = s' at he
    cases he with
    | updateQuorum _ _ _ hasked hsupply hle hq hactive =>
      obtain rfl := Option.some_inj.1 (hasked.symm.trans (htoken his hq hactive))
      exact ⟨hasked, _, hsupply, hle⟩

/-- The account `1` votes on its proposal, and the admin changes the quorum. -/
def voted : List (Input Unit) := opening ++
  [signed (.lit 1) (.castVote (.account 1) (.lit 0) .yes),
    signed (.lit 2) (.updateQuorum (.account 9) (.lit 0) (.lit 20))]

/-- Both are done with the token that was configured at first. -/
theorem voting_token_consistency_voted :
    ∃ xs i ys token, voted = xs ++ i :: ys ∧ Creates (run step Store.empty xs) i (.lit 0) token ∧
      (∀ voter r, (run step Store.empty voted).voteRecords.lookup (.lit 0, voter) = some r →
        ∃ zs j ws, voted = zs ++ j :: ws ∧
          Casts (run step Store.empty zs) j (.lit 0) voter token r.weight) ∧
      ∀ zs j ws admin quorum, voted = zs ++ j :: ws → j.op = .updateQuorum admin (.lit 0) quorum →
        Succeeds (run step Store.empty zs) j →
        (run step Store.empty zs).votingToken = some token ∧
          ∃ supply, (j.env.token token j.outside).totalSupply = some supply ∧ quorum.val ≤ supply.val := by
  refine voting_token_consistency (p := ?_) ?_
  · exact { (opened.setTally .yes (.lit 100)).setVoterCount (.lit 1) with quorum := .lit 20 }
  · decide

end Proposals

end CosmosVote.Governance
