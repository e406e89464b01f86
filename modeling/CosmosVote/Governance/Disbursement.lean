import CosmosVote.Governance.Lifecycle

/-!
# The disbursement of a proposal

`execute` asks the configured treasury for the disbursement attached to a proposal, and
leaves it out if no treasury is configured. A proposal is executed once, so what has been
disbursed for it is a matter of its state (`Paid`): nothing until it is executed, and
then what is attached to it (`Proposal.due`).
-/

namespace CosmosVote.Governance

open Soroban

variable {ω : Type}

/-- What has been disbursed for the proposal `id`. -/
def Store.disbursementsOf (s : Store) (id : U64) : List Disbursement :=
  s.disbursements.filter fun x => x.proposal = id

/-- What is to be disbursed for a proposal, by the treasury if there is one. -/
def Proposal.due (id : U64) (p : Proposal) (treasury : Option Address) : List Disbursement :=
  if p.state = .executed then
    (p.treasuryAction.head?.bind fun action => treasury.map fun t => ⟨id, t, action⟩).toList
  else []

/-- For every proposal has been disbursed what is due. -/
def Paid (s : Store) : Prop :=
  ∀ id, s.disbursementsOf id = (s.proposals.lookup id).elim [] fun p => p.due id s.treasuryContract

section Due

variable {id : U64} {p : Proposal} {treasury : Option Address}

theorem Proposal.due_of_ne (h : p.state ≠ .executed) : p.due id treasury = [] := if_neg h

theorem Proposal.due_of_none (h : p.treasuryAction = [] ∨ treasury = none) : p.due id treasury = [] := by
  rw [due]
  split
  · rcases h with h | h
    · rw [h]
      rfl
    · rw [h]
      cases p.treasuryAction.head? <;> rfl
  · rfl

theorem Proposal.due_of_executed {action : TreasuryAction} (hstate : p.state = .executed)
    (haction : p.treasuryAction.head? = some action) :
    p.due id treasury = (treasury.map fun t => ⟨id, t, action⟩).toList := by
  rw [due, if_pos hstate, haction, Option.bind_some]

/-- At most one disbursement is due. -/
theorem Proposal.length_due_le (id : U64) (p : Proposal) (treasury : Option Address) :
    (p.due id treasury).length ≤ 1 := by
  rw [due]
  split
  · cases (p.treasuryAction.head?.bind fun action => treasury.map fun t => (⟨id, t, action⟩ : Disbursement))
      <;> simp
  · exact Nat.zero_le 1

theorem Proposal.mem_due {x : Disbursement} (h : x ∈ p.due id treasury) :
    p.state = .executed ∧ p.treasuryAction.head? = some x.action ∧ treasury = some x.treasury := by
  rw [due] at h
  split at h
  · rename_i hstate
    rw [Option.mem_toList, Option.bind_eq_some_iff] at h
    obtain ⟨action, haction, h⟩ := h
    obtain ⟨t, ht, rfl⟩ := Option.map_eq_some_iff.1 h
    exact ⟨hstate, haction, ht⟩
  · cases h

end Due

/-- What is attached to a proposal is all there is. -/
theorem Proposal.Proper.treasuryAction_eq {id : U64} {p : Proposal} (h : p.Proper id)
    {action : TreasuryAction} (haction : p.treasuryAction.head? = some action) :
    p.treasuryAction = [action] := by
  obtain ⟨rest, hrest⟩ := List.head?_eq_some_iff.1 haction
  have hone := h.one_action
  rw [hrest, List.length_cons] at hone
  obtain rfl : rest = [] := List.eq_nil_of_length_eq_zero (by omega)
  exact hrest

namespace Paid

variable {s s' : Store}

theorem empty : Paid Store.empty := fun _ => rfl

/-- A write to one proposal, with the disbursements that become due by it. -/
theorem write (hs : Paid s) {id : U64} {p : Proposal} (xs : List Disbursement)
    (hproposals : s'.proposals = s.proposals.insert id p)
    (htreasury : s'.treasuryContract = s.treasuryContract) (hxs : ∀ x ∈ xs, x.proposal = id)
    (hdisbursements : s'.disbursements = s.disbursements ++ xs)
    (hdue : p.due id s.treasuryContract =
      ((s.proposals.lookup id).elim [] fun q => q.due id s.treasuryContract) ++ xs) : Paid s' := by
  intro id'
  rw [Store.disbursementsOf, hdisbursements, List.filter_append, hproposals,
    Finmap.lookup_insert_eq_ite, htreasury]
  have hold := hs id'
  rw [Store.disbursementsOf] at hold
  rw [hold]
  -- The new disbursements are all for the proposal that is written.
  by_cases hid : id' = id
  · subst hid
    rw [if_pos rfl, Option.elim_some, hdue, List.filter_eq_self.2 fun x hx => by simpa using hxs x hx]
  · have hnone : xs.filter (fun x => x.proposal = id') = [] :=
      List.filter_eq_nil_iff.2 fun x hx h => hid ((of_decide_eq_true h).symm.trans (hxs x hx))
    rw [if_neg hid, hnone, List.append_nil]

/-- A write that leaves a proposal unexecuted makes nothing due. -/
theorem write_open (hs : Paid s) {id : U64} {p p' : Proposal} (hp : s.proposals.lookup id = some p)
    (hproposals : s'.proposals = s.proposals.insert id p')
    (htreasury : s'.treasuryContract = s.treasuryContract)
    (hdisbursements : s'.disbursements = s.disbursements) (hstate : p.state ≠ .executed)
    (hstate' : p'.state ≠ .executed) : Paid s' := by
  refine hs.write [] hproposals htreasury (fun _ h => by cases h) ?_ ?_
  · rw [hdisbursements, List.append_nil]
  · rw [hp, Option.elim_some, Proposal.due_of_ne hstate, Proposal.due_of_ne hstate']
    rfl

/-- What a call does keeps every proposal paid. -/
theorem of_effect (hs : Paid s) (hw : WellFormed s) {env : Env ω} {op : Op} {o o' : ω}
    (h : Effect env s o op s' o') : Paid s' := by
  have hopen {p : Proposal} (hstate : p.state = .active) : p.state ≠ .executed := by
    rw [hstate]
    exact ProposalState.noConfusion
  cases h with
  | initializeContract hinit =>
    -- The treasury is set before there are any proposals.
    intro id
    have hnone : s.proposals.lookup id = none := by
      have hid := (hw.isSome_iff id).not.2 (by rw [hw.fresh hinit]; exact id.lo_le.not_gt)
      simpa using hid
    have hold := hs id
    rw [hnone] at hold
    exact hold.trans (by rw [Store.emit, hnone]; rfl)
  | createProposal =>
    refine hs.write [] rfl rfl (fun _ h => by cases h) (List.append_nil _).symm ?_
    rw [hw.next_none]
    exact Proposal.due_of_ne ProposalState.noConfusion
  | amendProposal _ _ hp _ hstate => exact hs.write_open hp rfl rfl rfl (hopen hstate) (hopen hstate)
  | castVote _ _ hp hstate =>
    obtain ⟨⟩ := s
    exact hs.write_open hp rfl rfl rfl (hopen hstate)
      (hopen ((Proposal.setTally_state ..).trans hstate))
  | retractVote _ _ hp hstate =>
    obtain ⟨⟩ := s
    exact hs.write_open hp rfl rfl rfl (hopen hstate)
      (hopen ((Proposal.setTally_state ..).trans hstate))
  | changeVote _ _ hp hstate =>
    obtain ⟨⟩ := s
    exact hs.write_open hp rfl rfl rfl (hopen hstate)
      (hopen (by rw [Proposal.setTally_state, Proposal.setTally_state, hstate]))
  | @finalise id p total _ hp hstate =>
    refine hs.write_open hp rfl rfl rfl (hopen hstate) fun h => ?_
    rcases p.withOutcome_state total (s.choiceWeight id) with h' | h' <;> rw [h] at h' <;> cases h'
  | @execute _ id p _ _ hp hstate hnone =>
    -- Nothing was due before, as it had not been executed, and nothing is now.
    have hbefore : p.due id s.treasuryContract = [] :=
      Proposal.due_of_ne (by rw [hstate]; exact ProposalState.noConfusion)
    refine hs.write [] rfl rfl (fun _ h => by cases h) (List.append_nil _).symm ?_
    rw [hp, Option.elim_some, hbefore]
    exact Proposal.due_of_none hnone
  | @executeDisburse _ _ id p _ _ _ _ hp hstate haction htreasury =>
    have hbefore : p.due id s.treasuryContract = [] :=
      Proposal.due_of_ne (by rw [hstate]; exact ProposalState.noConfusion)
    refine hs.write [⟨id, _, _⟩] rfl rfl (fun x hx => ?_) rfl ?_
    · rw [List.mem_singleton.1 hx]
    · rw [hp, Option.elim_some, hbefore, htreasury]
      exact Proposal.due_of_executed rfl haction
  | cancel _ _ hp hstate => exact hs.write_open hp rfl rfl rfl (hopen hstate) ProposalState.noConfusion
  | updateQuorum _ _ _ _ _ _ hp hstate =>
    exact hs.write_open hp rfl rfl rfl (hopen hstate) (hopen hstate)
  | _ => exact hs

/-- For a proposal at most one disbursement is made. -/
theorem length_le (hs : Paid s) (id : U64) : (s.disbursementsOf id).length ≤ 1 := by
  rw [hs id]
  cases s.proposals.lookup id with
  | none => exact Nat.zero_le 1
  | some p => exact p.length_due_le id _

/-- Every disbursement is made by the configured treasury, and is attached to an executed proposal. -/
theorem of_mem (hs : Paid s) {x : Disbursement} (hx : x ∈ s.disbursements) :
    s.treasuryContract = some x.treasury ∧ ∃ p, s.proposals.lookup x.proposal = some p ∧
      p.state = .executed ∧ p.treasuryAction.head? = some x.action := by
  have hmem : x ∈ s.disbursementsOf x.proposal := List.mem_filter.2 ⟨hx, decide_eq_true rfl⟩
  rw [hs x.proposal] at hmem
  cases hp : s.proposals.lookup x.proposal with
  | none =>
    rw [hp] at hmem
    cases hmem
  | some p =>
    rw [hp] at hmem
    obtain ⟨hstate, haction, htreasury⟩ := Proposal.mem_due hmem
    exact ⟨htreasury, p, rfl, hstate, haction⟩

end Paid

theorem run_paid (is : List (Input ω)) : Paid (run step Store.empty is) :=
  run_effects .empty .empty (fun _ _ _ _ hw hs he => hs.of_effect hw he) is

/-! ## What is attached -/

/-- A proposal that is new has been created, with what the call attaches to it. -/
theorem Effect.attached {env : Env ω} {s s' : Store} {op : Op} {o o' : ω}
    (h : Effect env s o op s' o') {id : U64} {p : Proposal} (hnone : s.proposals.lookup id = none)
    (hp : s'.proposals.lookup id = some p) :
    id = s.proposalCount ∧ ∃ proposer title description quorum duration link action,
      op = .createProposal proposer title description quorum duration link action ∧
        p.treasuryAction = action.toList := by
  -- A call that writes to a proposal has found it.
  have hfalse {id' : U64} {q q' : Proposal} (hq : s.proposals.lookup id' = some q)
      (hp : (s.proposals.insert id' q').lookup id = some p) : False := by
    rw [Finmap.lookup_insert_eq_ite] at hp
    split at hp
    · rename_i hid
      rw [← hid, hnone] at hq
      cases hq
    · rw [hnone] at hp
      cases hp
  cases h with
  | createProposal =>
    replace hp := (Finmap.lookup_insert_eq_ite ..).symm.trans hp
    split at hp
    · rename_i hid
      exact ⟨hid, _, _, _, _, _, _, _, rfl, by rw [← Option.some_inj.1 hp]; rfl⟩
    · rw [hnone] at hp
      cases hp
  | amendProposal _ _ hq => exact (hfalse hq hp).elim
  | castVote _ _ hq => exact (hfalse hq hp).elim
  | retractVote _ _ hq => exact (hfalse hq hp).elim
  | changeVote _ _ hq => exact (hfalse hq hp).elim
  | finalise _ hq => exact (hfalse hq hp).elim
  | execute _ _ hq => exact (hfalse hq hp).elim
  | executeDisburse _ _ hq => exact (hfalse hq hp).elim
  | cancel _ _ hq => exact (hfalse hq hp).elim
  | updateQuorum _ _ _ _ _ _ hq => exact (hfalse hq hp).elim
  | _ => cases hnone.symm.trans hp

end CosmosVote.Governance
