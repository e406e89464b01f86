import CosmosVote.Governance.Tally

/-!
# The outcome of a proposal

`finalise` decides once, on the tallies. `Decided` says that the state of a proposal
still is the decision that its tallies and its quorum ask for; it is kept because
after the decision none of them changes (`Settled`). With the correspondence of the
tallies and the records, the decision is the one that the recorded votes ask for
(`outcome_soundness`).
-/

namespace CosmosVote.Governance

open Soroban

variable {ω : Type}

/-! ## The decision -/

/-- The tallies decide for the proposal. -/
def Proposal.Approved (p : Proposal) : Prop :=
  p.quorum.val ≤ p.votesYes.val + p.votesNo.val + p.votesAbstain.val ∧ p.votesNo.val < p.votesYes.val

/-- The state of the proposal is what its tallies decide. -/
structure Proposal.Decided (p : Proposal) : Prop where
  approved : p.state = .passed ∨ p.state = .executed → p.Approved
  rejected : p.state = .rejected → ¬p.Approved

theorem Proposal.totalVotes_eq {p : Proposal} {total : I128} (h : p.totalVotes = some total) :
    total.val = p.votesYes.val + p.votesNo.val + p.votesAbstain.val := by
  rw [totalVotes, Option.bind_eq_some_iff] at h
  obtain ⟨v, hv, htotal⟩ := h
  rw [IntRange.checkedAdd_eq_some] at hv htotal
  rw [← htotal, ← hv]

/-- The sum of the tallies is found, if it fits. -/
theorem Proposal.exists_totalVotes {p : Proposal} (h : ∀ vote, 0 ≤ (p.tally vote).val) {total : I128}
    (hle : p.votesYes.val + p.votesNo.val + p.votesAbstain.val ≤ total.val) :
    ∃ sum, p.totalVotes = some sum := by
  have hyes := h .yes
  have hno := h .no
  have habstain := h .abstain
  have hhi := total.le_hi
  simp only [tally] at hyes hno habstain
  -- No tally is negative, so the first sum is at most the whole.
  obtain ⟨v, hv, hval⟩ : ∃ v : I128, p.votesYes.checkedAdd p.votesNo = some v ∧ _ :=
    IntRange.exists_fit (by omega) (by omega)
  obtain ⟨sum, hsum, _⟩ : ∃ sum : I128, v.checkedAdd p.votesAbstain = some sum ∧ _ :=
    IntRange.exists_fit (by omega) (by omega)
  exact ⟨sum, by rw [totalVotes, hv, Option.bind_some, hsum]⟩

/-- An open or a cancelled proposal is not decided on. -/
theorem Proposal.Decided.of_state {p : Proposal} (h : p.state = .active ∨ p.state = .cancelled) :
    p.Decided := by
  refine ⟨fun h' => ?_, fun h' => ?_⟩
  · rcases h with h | h <;> rcases h' with h' | h' <;> rw [h] at h' <;> cases h'
  · rcases h with h | h <;> rw [h] at h' <;> cases h'

/-- What is finalised is decided on by its tallies. -/
theorem Proposal.withOutcome_decided {p : Proposal} {total : I128} {weight : ℕ → I128}
    (hchoices : p.choices = []) (htotal : p.totalVotes = some total) :
    (p.withOutcome total weight).Decided := by
  rw [withOutcome, if_neg fun h => h hchoices, totalVotes_eq htotal]
  split
  · rename_i h
    exact ⟨fun _ => h, fun h' => by cases h'⟩
  · rename_i h
    refine ⟨fun h' => ?_, fun _ => h⟩
    rcases h' with h' | h' <;> cases h'

/-- Every edit leaves a proposal decided on as its tallies ask for. -/
theorem Edit.decided {now : U64} {op : Op} {p p' : Proposal} (h : Edit now op p p')
    (hchoices : p.choices = []) (hp : p.Decided) : p'.Decided := by
  cases h with
  | amended hstate => exact .of_state (.inl hstate)
  | cast hstate => exact .of_state (.inl ((Proposal.setTally_state ..).trans hstate))
  | retracted hstate => exact .of_state (.inl ((Proposal.setTally_state ..).trans hstate))
  | changed hstate =>
    exact .of_state (.inl (by rw [Proposal.setTally_state, Proposal.setTally_state, hstate]))
  | finalised _ _ htotal => exact Proposal.withOutcome_decided hchoices htotal
  | executed hstate => exact ⟨fun _ => hp.approved (.inl hstate), fun h => by cases h⟩
  | cancelled => exact .of_state (.inr rfl)
  | quorumUpdated hstate => exact .of_state (.inl hstate)

variable {s s' : Store}

/-- Every change leaves every proposal decided on as its tallies ask for. -/
theorem Change.decided {now : U64} {op : Op} (hs : WellFormed s) (h : Change now s op s')
    (hdec : ∀ id p, s.proposals.lookup id = some p → p.Decided) {id : U64} {p : Proposal}
    (hp : s'.proposals.lookup id = some p) : p.Decided := by
  cases h with
  | config _ hsame =>
    rw [hsame.proposals] at hp
    exact hdec id p hp
  | initialized _ hsame =>
    rw [hsame.proposals] at hp
    exact hdec id p hp
  | created _ _ hactive _ hproposals =>
    rw [hproposals, Finmap.lookup_insert_eq_ite] at hp
    split at hp
    · exact .of_state (.inl (Option.some_inj.1 hp ▸ hactive))
    · exact hdec id p hp
  | @edited id' q q' _ hq hedit hproposals =>
    rw [hproposals, Finmap.lookup_insert_eq_ite] at hp
    split at hp
    · rw [← Option.some_inj.1 hp]
      exact hedit.decided (hs.proper id' q hq).choices_eq (hdec id' q hq)
    · exact hdec id p hp

theorem run_decided (is : List (Input ω)) {id : U64} {p : Proposal}
    (hp : (run step Store.empty is).proposals.lookup id = some p) : p.Decided := by
  refine run_effects (I := fun s => ∀ id p, s.proposals.lookup id = some p → p.Decided) .empty ?_ ?_ is id
    p hp
  · intro id p h
    simp [Store.empty] at h
  · intro s i s' o hs hdec he id p hp
    exact he.change.decided hs hdec hp

/-! ## After the decision -/

/-- In `s'`, the proposal `id` is closed, with the tallies and the quorum of `p` and the records of
    `s`. -/
structure Settled (id : U64) (s : Store) (p : Proposal) (s' : Store) (p' : Proposal) : Prop where
  lookup : s'.proposals.lookup id = some p'
  closed : p'.state ≠ .active
  tallies : ∀ vote, p'.tally vote = p.tally vote
  quorum : p'.quorum = p.quorum
  records : ∀ voter, s'.voteRecords.lookup (id, voter) = s.voteRecords.lookup (id, voter)

/-- The votes on a closed proposal do not change. -/
theorem Change.records_of_closed {now : U64} {op : Op} (h : Change now s op s') {id : U64}
    {p : Proposal} (hp : s.proposals.lookup id = some p) (hclosed : p.state ≠ .active)
    (voter : Address) : s'.voteRecords.lookup (id, voter) = s.voteRecords.lookup (id, voter) := by
  cases h with
  | config _ hsame => rw [hsame.voteRecords]
  | initialized _ hsame => rw [hsame.voteRecords]
  | created _ _ _ _ _ _ hrecords => rw [hrecords]
  | @edited id' q q' hop hq hedit _ hvotes hquiet =>
    by_cases hid : id = id'
    · have hq' : q = p := by
        rw [hid, hq] at hp
        exact Option.some_inj.1 hp
      rw [(hquiet ?_).2]
      -- A call that writes votes would have found the proposal active.
      intro hvotes
      cases hedit with
      | cast hstate => exact hclosed (hq' ▸ hstate)
      | retracted hstate => exact hclosed (hq' ▸ hstate)
      | changed hstate => exact hclosed (hq' ▸ hstate)
      | _ => exact hvotes
    · exact (hvotes (id, voter) hid).2

/-- A closed proposal stays settled along every run. -/
theorem run_settled {id : U64} {p : Proposal} (hs : WellFormed s)
    (hp : s.proposals.lookup id = some p) (hclosed : p.state ≠ .active) (is : List (Input ω)) :
    ∃ p', Settled id s p (run step s is) p' := by
  refine run_effects (I := fun t => ∃ p', Settled id s p t p') hs
    ⟨p, hp, hclosed, fun _ => rfl, rfl, fun _ => rfl⟩ ?_ is
  rintro t i t' o ht ⟨q, hset⟩ he
  obtain ⟨q', hq', hdisc⟩ := he.change.discipline ht hset.lookup
  -- Each of these could only change while the proposal is active.
  refine ⟨q', hq', ?_, fun vote => ?_, ?_, fun voter => ?_⟩
  · rcases hdisc.state with h | h
    · rw [h]
      exact hset.closed
    · exact h.ne_active
  · rcases hdisc.tallies with h | ⟨_, h, _⟩
    · rw [h, hset.tallies]
    · exact absurd h hset.closed
  · rcases hdisc.quorum with h | ⟨_, h, _⟩
    · rw [h, hset.quorum]
    · exact absurd h hset.closed
  · rw [he.change.records_of_closed hset.lookup hset.closed, hset.records]

/-- The change that decides on a proposal is a `finalise`, after its voting period. -/
theorem Change.finalised {now : U64} {op : Op} (h : Change now s op s') {id : U64} {p' : Proposal}
    (hbefore : ∀ p, s.proposals.lookup id = some p → p.state = .active ∨ p.state = .cancelled)
    (hp' : s'.proposals.lookup id = some p') (hafter : p'.state ≠ .active ∧ p'.state ≠ .cancelled) :
    op = .finalise id ∧ p'.endTime.val < now.val := by
  have hfalse (h : s.proposals.lookup id = some p') : False :=
    (hbefore p' h).elim hafter.1 hafter.2
  cases h with
  | config _ hsame => exact (hfalse (hsame.proposals ▸ hp')).elim
  | initialized _ hsame => exact (hfalse (hsame.proposals ▸ hp')).elim
  | created _ _ hactive _ hproposals =>
    rw [hproposals, Finmap.lookup_insert_eq_ite] at hp'
    split at hp'
    · exact absurd (Option.some_inj.1 hp' ▸ hactive) hafter.1
    · exact (hfalse hp').elim
  | @edited id' q q' hop hq hedit hproposals =>
    rw [hproposals, Finmap.lookup_insert_eq_ite] at hp'
    split at hp'
    · rename_i hid
      obtain rfl := Option.some_inj.1 hp'
      have hopen := hbefore q (hid ▸ hq)
      -- Of the edits, the others leave the proposal open, cancel it, or found it decided.
      cases hedit with
      | amended hstate => exact absurd hstate hafter.1
      | cast hstate => exact absurd ((Proposal.setTally_state ..).trans hstate) hafter.1
      | retracted hstate => exact absurd ((Proposal.setTally_state ..).trans hstate) hafter.1
      | changed hstate =>
        rw [Proposal.setTally_state, Proposal.setTally_state] at hafter
        exact absurd hstate hafter.1
      | finalised _ hend =>
        cases hop
        rw [hid, q.withOutcome_eq]
        exact ⟨rfl, hend⟩
      | executed hstate => rcases hopen with h | h <;> rw [hstate] at h <;> cases h
      | cancelled => exact absurd rfl hafter.2
      | quorumUpdated hstate => exact absurd hstate hafter.1
    · exact (hfalse hp').elim

/-- A proposal that is decided on was finalised, after its voting period. -/
theorem exists_finalise {is : List (Input ω)} {id : U64} {p : Proposal}
    (hp : (run step Store.empty is).proposals.lookup id = some p)
    (hstate : p.state ≠ .active ∧ p.state ≠ .cancelled) :
    ∃ xs i ys, is = xs ++ i :: ys ∧ i.op = .finalise id ∧ Succeeds (run step Store.empty xs) i ∧
      p.endTime.val < i.env.timestamp.val := by
  -- The first step after which it is decided on is the one that decides.
  obtain ⟨xs, i, ys, rfl, hbefore, q, hq, hafter⟩ := exists_first_step
    (P := fun s : Store => ∃ q, s.proposals.lookup id = some q ∧ q.state ≠ .active ∧ q.state ≠ .cancelled)
    (by rintro ⟨q, hq, _⟩; simp [Store.empty] at hq) ⟨p, hp, hstate⟩
  rw [run_append, run_cons] at hp
  obtain ⟨p', hp', hterms⟩ := run_sameTerms (step_wellFormed _ i (run_wellFormed xs)) hq ys
  obtain rfl := Option.some_inj.1 (hp.symm.trans hp')
  rcases step_cases (run step Store.empty xs) i with ⟨o, hrun, he⟩ | he
  · have hopen (q₀ : Proposal) (hq₀ : (run step Store.empty xs).proposals.lookup id = some q₀) :
        q₀.state = .active ∨ q₀.state = .cancelled := by
      by_contra hne
      exact hbefore ⟨q₀, hq₀, not_or.1 hne⟩
    obtain ⟨hop, hend⟩ := he.change.finalised hopen hq hafter
    exact ⟨xs, i, ys, rfl, hop, by rw [Succeeds, hrun], hterms.endTime ▸ hend⟩
  · exact absurd ⟨q, he ▸ hq, hafter⟩ hbefore

/-! ## The votes behind the decision -/

/-- The weight of a record, if there is one. -/
def weightOf (r : Option VoteRecord) : ℤ := r.elim 0 fun r => r.weight.val

/-- The sum of all weights recorded on the proposal `id`. -/
def Store.turnout (s : Store) (id : U64) : ℤ :=
  ∑ voter ∈ s.voters id, weightOf (s.voteRecords.lookup (id, voter))

/-- The recorded votes decide for the proposal `id`, with that quorum. -/
def Store.Approves (s : Store) (id : U64) (quorum : I128) : Prop :=
  quorum.val ≤ s.turnout id ∧ s.recorded id .no < s.recorded id .yes

theorem weightOf_eq (r : Option VoteRecord) :
    weightOf r = counted r .yes + counted r .no + counted r .abstain := by
  rcases r with _ | ⟨_ | _ | _, w⟩ <;> simp [weightOf, counted]

theorem Store.turnout_eq (s : Store) (id : U64) :
    s.turnout id = s.recorded id .yes + s.recorded id .no + s.recorded id .abstain := by
  rw [turnout, recorded_eq_sum_voters, recorded_eq_sum_voters, recorded_eq_sum_voters,
    ← Finset.sum_add_distrib, ← Finset.sum_add_distrib]
  exact Finset.sum_congr rfl fun voter _ => weightOf_eq _

/-- The sum of the tallies is what is recorded. -/
theorem TallyCorrespondence.turnout_eq (hs : TallyCorrespondence s) {id : U64} {p : Proposal}
    (hp : s.proposals.lookup id = some p) :
    p.votesYes.val + p.votesNo.val + p.votesAbstain.val = s.turnout id := by
  rw [Store.turnout_eq, ← hs.tally_eq id p hp, ← hs.tally_eq id p hp, ← hs.tally_eq id p hp]
  rfl

/-- If every voter has an entry in a map that covers their weight, its sum covers all weights. -/
theorem Store.turnout_le {V : Type} {m : Entries Address V} {g : Address → V → ℤ} {id : U64}
    (hg : ∀ a v, m.lookup a = some v → 0 ≤ g a v)
    (h : ∀ voter r, s.voteRecords.lookup (id, voter) = some r → r.weight.val ≤ m.termAt g voter) :
    s.turnout id ≤ m.sum g := by
  refine le_trans (Finset.sum_le_sum fun voter hvoter => ?_) (Finmap.sum_termAt_le hg (s.voters id))
  obtain ⟨r, hr⟩ := Option.isSome_iff_exists.1 (mem_voters.1 hvoter)
  rw [hr]
  exact h voter r hr

/-- The recorded votes and the tallies decide in the same way. -/
theorem TallyCorrespondence.approves_iff (hs : TallyCorrespondence s) {id : U64} {p : Proposal}
    (hp : s.proposals.lookup id = some p) : s.Approves id p.quorum ↔ p.Approved := by
  rw [Store.Approves, ← hs.turnout_eq hp, ← hs.tally_eq id p hp, ← hs.tally_eq id p hp]
  rfl

/-- In every reachable state, a proposal that passed was finalised after its voting period, and its
    recorded votes meet its quorum and are for it; one that was rejected was finalised after its
    voting period, and its recorded votes do not. From a successful `finalise` on, the records, the
    tallies and the quorum stay as they are. -/
theorem outcome_soundness (is : List (Input ω)) (id : U64) :
    (∀ p, (run step Store.empty is).proposals.lookup id = some p →
      (p.state = .passed ∨ p.state = .executed →
        (∃ xs i ys, is = xs ++ i :: ys ∧ i.op = .finalise id ∧ Succeeds (run step Store.empty xs) i ∧
          p.endTime.val < i.env.timestamp.val) ∧
        (run step Store.empty is).Approves id p.quorum) ∧
      (p.state = .rejected →
        (∃ xs i ys, is = xs ++ i :: ys ∧ i.op = .finalise id ∧ Succeeds (run step Store.empty xs) i ∧
          p.endTime.val < i.env.timestamp.val) ∧
        ¬(run step Store.empty is).Approves id p.quorum)) ∧
    ∀ xs i ys, is = xs ++ i :: ys → i.op = .finalise id → Succeeds (run step Store.empty xs) i →
      ∃ p p', (step (run step Store.empty xs) i).proposals.lookup id = some p ∧
        Settled id (step (run step Store.empty xs) i) p (run step Store.empty is) p' := by
  refine ⟨fun p hp => ⟨fun hstate => ⟨exists_finalise hp ?_, ?_⟩, fun hstate =>
    ⟨exists_finalise hp ?_, ?_⟩⟩, fun xs i ys his hop hi => ?_⟩
  · rcases hstate with h | h <;> rw [h] <;> exact ⟨ProposalState.noConfusion, ProposalState.noConfusion⟩
  · rw [(run_correspondence is).approves_iff hp]
    exact (run_decided is hp).approved hstate
  · rw [hstate]
    exact ⟨ProposalState.noConfusion, ProposalState.noConfusion⟩
  · rw [(run_correspondence is).approves_iff hp]
    exact (run_decided is hp).rejected hstate
  · have hs := step_wellFormed _ i (run_wellFormed xs)
    rw [his, run_append, run_cons]
    obtain ⟨o, he⟩ := hi.effect_of hop
    generalize step (run step Store.empty xs) i = s' at hs he ⊢
    cases he with
    | finalise hready hp hstate hend htotal =>
      obtain ⟨p', hset⟩ := run_settled hs (Finmap.lookup_insert _)
        (Proposal.withOutcome_state_ne _ _ _) ys
      exact ⟨_, p', Finmap.lookup_insert _, hset⟩

end CosmosVote.Governance
