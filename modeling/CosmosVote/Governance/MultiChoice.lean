import CosmosVote.Governance.Lifecycle
import CosmosVote.Selection

/-!
# Proposals with several choices

`finalise` elects one of the choices of a proposal that has any, if the participation meets the quorum. No
entry point creates such a proposal or counts the votes for a choice, so that what follows is about a store
with any choices and any votes for them.

* `isLeast_bestChoice`: the loop of `finalise` finds the first of the choices with the most votes;
* `run_undecided`: as long as a proposal is open, none of its choices has won;
* `finalise_choices`: what a `finalise` that succeeds makes of a proposal with choices.
-/

namespace CosmosVote.Governance

open Soroban

variable {ω : Type}

/-! ## The election -/

/-- The first choice, and then those that the loop goes through. -/
theorem choices_eq_range {n : ℕ} (hn : 0 < n) : 0 :: List.range' 1 (n - 1) = List.range n := by
  obtain ⟨k, rfl⟩ := Nat.exists_eq_succ_of_ne_zero hn.ne'
  rw [List.range_eq_range', List.range'_succ, Nat.succ_sub_one]

/-- First past the post. -/
theorem isLeast_bestChoice (votes : ℕ → I128) {n : ℕ} (hn : 0 < n) :
    IsLeast (Selection.leading (fun i => (votes i).val) n) (bestChoice votes n) := by
  obtain ⟨best, hbest, hscan⟩ := Selection.foldl_keep votes IntRange.val 0 (List.range' 1 (n - 1))
  rw [choices_eq_range hn] at hbest
  have hfirst : bestChoice votes n = best := congrArg Prod.fst hscan
  rw [hfirst]
  exact Selection.isLeast_leading hbest

/-! ## Open proposals -/

/-- No choice of an open proposal has won. -/
def Store.Undecided (s : Store) : Prop :=
  ∀ id p, s.proposals.lookup id = some p → p.state = .active → p.winningChoice = none

variable {s s' : Store}

theorem Store.Undecided.write (hs : s.Undecided) {id : U64} {q : Proposal}
    (h : s'.proposals = s.proposals.insert id q) (hq : q.state = .active → q.winningChoice = none) :
    s'.Undecided := by
  intro id' p hp
  rw [h, Finmap.lookup_insert_eq_ite] at hp
  split at hp
  · rw [← Option.some_inj.1 hp]
    exact hq
  · exact hs id' p hp

theorem Proposal.setTally_winningChoice (p : Proposal) (vote : Vote) (v : I128) :
    (p.setTally vote v).winningChoice = p.winningChoice := by
  cases vote <;> rfl

/-- What is written is closed, or its choice is the one from before. -/
theorem Effect.undecided {env : Env ω} {o o' : ω} {op : Op} (h : Effect env s o op s' o') (hs : s.Undecided) :
    s'.Undecided := by
  cases h with
  | createProposal => exact hs.write rfl fun _ => rfl
  | amendProposal _ _ hp _ hstate =>
    have hnone := hs _ _ hp hstate
    exact hs.write rfl fun _ => hnone
  | castVote _ _ hp hstate =>
    exact hs.write rfl fun _ => (Proposal.setTally_winningChoice ..).trans (hs _ _ hp hstate)
  | retractVote _ _ hp hstate =>
    exact hs.write rfl fun _ => (Proposal.setTally_winningChoice ..).trans (hs _ _ hp hstate)
  | changeVote _ _ hp hstate =>
    refine hs.write rfl fun _ => ?_
    rw [Proposal.setTally_winningChoice, Proposal.setTally_winningChoice, hs _ _ hp hstate]
  | finalise => exact hs.write rfl fun h => absurd h (Proposal.withOutcome_state_ne _ _ _)
  | execute => exact hs.write rfl ProposalState.noConfusion
  | executeDisburse => exact hs.write rfl ProposalState.noConfusion
  | cancel => exact hs.write rfl ProposalState.noConfusion
  | updateQuorum _ _ _ _ _ _ hp hstate =>
    have hnone := hs _ _ hp hstate
    exact hs.write rfl fun _ => hnone
  | _ => exact hs

theorem run_undecided (hs : s.Undecided) (is : List (Input ω)) : (run step s is).Undecided :=
  run_invariant (fun _ _ hs => step_invariant hs fun _ _ he => he.undecided hs) hs is

/-! ## The decision -/

/-- With choices, the participation decides. -/
theorem Proposal.withOutcome_choices {p : Proposal} (hchoices : p.choices ≠ []) (total : I128) (weight : ℕ → I128) :
    p.withOutcome total weight =
      if p.quorum.val ≤ p.votesYes.val then
        { p with winningChoice := some (bestChoice weight p.choices.length), state := .passed }
      else { p with state := .rejected } := if_pos hchoices

/-- After any run from a store with any proposals and any votes for their choices: a `finalise` that succeeds
    passes a proposal with choices if the participation meets the quorum, and the first of the choices with
    the most votes has won; otherwise it rejects the proposal, and no choice has won. -/
theorem finalise_choices (s : Store) (is : List (Input ω)) {i : Input ω} {id : U64} {p : Proposal}
    (hop : i.op = .finalise id) (hi : Succeeds (run step s is) i)
    (hp : (run step s is).proposals.lookup id = some p) (hchoices : p.choices ≠ []) :
    ∃ q, (run step s (is ++ [i])).proposals.lookup id = some q ∧
      (p.quorum.val ≤ p.votesYes.val → q.state = .passed ∧ ∃ best, q.winningChoice = some best ∧
        IsLeast (Selection.leading (fun j => ((run step s is).choiceWeight id j).val) p.choices.length) best) ∧
      (p.votesYes.val < p.quorum.val → q.state = .rejected ∧ q.winningChoice = p.winningChoice ∧
        (s.Undecided → q.winningChoice = none)) := by
  have hopen (hs : s.Undecided) := run_undecided hs is id p hp
  rw [run_concat]
  obtain ⟨o, he⟩ := hi.effect_of hop
  generalize run step s is = t at hp hopen he ⊢
  generalize step t i = t' at he ⊢
  cases he with
  | finalise hready hp' hstate hend htotal =>
    cases hp.symm.trans hp'
    refine ⟨_, Finmap.lookup_insert _, fun hquorum => ?_, fun hquorum => ?_⟩
    · rw [Proposal.withOutcome_choices hchoices, if_pos hquorum]
      exact ⟨rfl, _, rfl, isLeast_bestChoice _ (List.length_pos_of_ne_nil hchoices)⟩
    · rw [Proposal.withOutcome_choices hchoices, if_neg hquorum.not_ge]
      exact ⟨rfl, rfl, fun hs => hopen hs hstate⟩

/-- The first proposal as one with four choices. Two of them have the most votes, and one has none. -/
def poll : Store :=
  { run step Store.empty opening with
    proposals := (∅ : Entries U64 Proposal).insert (.lit 0)
      { opened with votesYes := .lit 60, choices := [[65], [66], [67], [68]] }
    choiceVotes := (((∅ : Entries (U64 × ℕ) I128).insert (.lit 0, 0) (.lit 10)).insert
      (.lit 0, 1) (.lit 25)).insert (.lit 0, 3) (.lit 25) }

/-- The first of the two has won. -/
theorem finalise_choices_poll :
    ∃ q, (run step poll [signed (.lit 61) (.finalise (.lit 0))]).proposals.lookup (.lit 0) = some q ∧
      q.state = .passed ∧ q.winningChoice = some 1 := by
  obtain ⟨q, hq, hpass, _⟩ := finalise_choices poll [] (i := signed (.lit 61) (.finalise (.lit 0)))
    (p := { opened with votesYes := .lit 60, choices := [[65], [66], [67], [68]] }) rfl (by decide) rfl (by decide)
  obtain ⟨hstate, best, hbest, hleast⟩ := hpass (by decide)
  have hfirst : bestChoice (poll.choiceWeight (.lit 0)) 4 = 1 := by decide
  rw [hleast.unique (isLeast_bestChoice _ (by decide))] at hbest
  exact ⟨q, hq, hstate, hbest.trans (congrArg some hfirst)⟩

end CosmosVote.Governance
