import CosmosVote.Soroban.Interleaving
import CosmosVote.Governance.Disbursement
import CosmosVote.Governance.Tally

/-!
# Proposals do not depend on each other

Many proposals are open at the same time, and the calls on them come in any order.

* `SamePart`: what two stores have of one proposal, its votes and its log, and the configuration, are the same;
* `Effect.transport`: that is all that a call on the proposal reads, and `Effect.samePart` all that it writes;
* `proposals_independent`: so a run of calls on many proposals is, for each of them, the run of the calls on it.
-/

namespace CosmosVote.Governance

open Soroban

variable {ω : Type}

/-- The proposal that an event is about. -/
def Event.proposal : Event → Option U64
  | .proposalCreated id _ _ _ _ => some id
  | .proposalAmended id _ _ _ _ _ => some id
  | .voteCast id _ _ _ => some id
  | .voteRetracted id _ _ => some id
  | .voteChanged id _ _ _ _ => some id
  | .proposalFinalized id _ => some id
  | .proposalExecuted id _ => some id
  | .proposalCancelled id _ _ => some id
  | .quorumUpdated id _ _ => some id
  | _ => none

/-- The events about the proposal `id`, in their order. -/
def Store.eventsOf (s : Store) (id : U64) : List Event := s.events.filter fun e => e.proposal = some id

/-- The configuration is the same, and so is all that there is of the proposal `id`. -/
structure SamePart (id : U64) (s t : Store) : Prop where
  rest : t = { s with
    proposals := t.proposals, hasVoted := t.hasVoted, voteRecords := t.voteRecords
    activeProposalCount := t.activeProposalCount, events := t.events, disbursements := t.disbursements }
  proposal : t.proposals.lookup id = s.proposals.lookup id
  hasVoted : ∀ voter, t.hasVoted.lookup (id, voter) = s.hasVoted.lookup (id, voter)
  voteRecords : ∀ voter, t.voteRecords.lookup (id, voter) = s.voteRecords.lookup (id, voter)
  events : t.eventsOf id = s.eventsOf id
  disbursements : t.disbursementsOf id = s.disbursementsOf id

variable {s s' t : Store} {env : Env ω} {op : Op} {o o' : ω} {id : U64}

theorem SamePart.refl (id : U64) (s : Store) : SamePart id s s :=
  ⟨rfl, rfl, fun _ => rfl, fun _ => rfl, rfl, rfl⟩

theorem SamePart.symm (h : SamePart id s t) : SamePart id t s where
  rest := by rw [h.rest]
  proposal := h.proposal.symm
  hasVoted voter := (h.hasVoted voter).symm
  voteRecords voter := (h.voteRecords voter).symm
  events := h.events.symm
  disbursements := h.disbursements.symm

theorem SamePart.trans {u : Store} (h : SamePart id s t) (h' : SamePart id t u) : SamePart id s u where
  rest := by rw [h'.rest, h.rest]
  proposal := h'.proposal.trans h.proposal
  hasVoted voter := (h'.hasVoted voter).trans (h.hasVoted voter)
  voteRecords voter := (h'.voteRecords voter).trans (h.voteRecords voter)
  events := h'.events.trans h.events
  disbursements := h'.disbursements.trans h.disbursements

theorem samePart_equivalence (id : U64) : Equivalence (SamePart id) := ⟨.refl id, .symm, .trans⟩

/-! ## Writes -/

section Writes

variable {K V : Type} [DecidableEq K] {m m' : Entries K V} {k k' : K}

theorem lookup_insert_congr {v : V} (h : m'.lookup k' = m.lookup k') :
    (m'.insert k v).lookup k' = (m.insert k v).lookup k' := by
  rw [Finmap.lookup_insert_eq_ite, Finmap.lookup_insert_eq_ite, h]

theorem lookup_erase_congr (h : m'.lookup k' = m.lookup k') :
    (m'.erase k).lookup k' = (m.erase k).lookup k' := by
  rw [Finmap.lookup_erase_eq_ite, Finmap.lookup_erase_eq_ite, h]

theorem filter_append_congr {α : Type} {p : α → Bool} {xs ys zs : List α} (h : ys.filter p = xs.filter p) :
    (ys ++ zs).filter p = (xs ++ zs).filter p := by
  rw [List.filter_append, List.filter_append, h]

variable (h : SamePart id s t) (voter : Address)
include h

theorem SamePart.setProposal (p : Proposal) : SamePart id (s.setProposal id p) (t.setProposal id p) :=
  { h with
    rest := by rw [h.rest]; rfl
    proposal := lookup_insert_congr h.proposal }

theorem SamePart.setHasVoted (b : Bool) :
    SamePart id (s.setHasVoted id voter b) (t.setHasVoted id voter b) :=
  { h with
    rest := by rw [h.rest]; rfl
    hasVoted := fun v => lookup_insert_congr (h.hasVoted v) }

theorem SamePart.setVoteRecord (r : VoteRecord) :
    SamePart id (s.setVoteRecord id voter r) (t.setVoteRecord id voter r) :=
  { h with
    rest := by rw [h.rest]; rfl
    voteRecords := fun v => lookup_insert_congr (h.voteRecords v) }

theorem SamePart.removeVoteRecord :
    SamePart id (s.removeVoteRecord id voter) (t.removeVoteRecord id voter) :=
  { h with
    rest := by rw [h.rest]; rfl
    voteRecords := fun v => lookup_erase_congr (h.voteRecords v) }

theorem SamePart.closeActive : SamePart id s.closeActive t.closeActive :=
  { h with rest := by rw [h.rest]; rfl }

theorem SamePart.emit (e : Event) : SamePart id (s.emit e) (t.emit e) :=
  { h with
    rest := by rw [h.rest]; rfl
    events := filter_append_congr h.events }

theorem SamePart.addDisbursement (d : Disbursement) :
    SamePart id (s.addDisbursement d) (t.addDisbursement d) :=
  { h with
    rest := by rw [h.rest]; rfl
    disbursements := filter_append_congr h.disbursements }

variable {id' : U64} (hne : id ≠ id')
include hne

theorem SamePart.setProposal_other (p : Proposal) : SamePart id s (t.setProposal id' p) :=
  { h with
    rest := by rw [h.rest]; rfl
    proposal := (Finmap.lookup_insert_of_ne _ hne).trans h.proposal }

theorem SamePart.setHasVoted_other (b : Bool) : SamePart id s (t.setHasVoted id' voter b) :=
  { h with
    rest := by rw [h.rest]; rfl
    hasVoted := fun v => (lookup_insert_other _ _ _ _ hne).trans (h.hasVoted v) }

theorem SamePart.setVoteRecord_other (r : VoteRecord) : SamePart id s (t.setVoteRecord id' voter r) :=
  { h with
    rest := by rw [h.rest]; rfl
    voteRecords := fun v => (lookup_insert_other _ _ _ _ hne).trans (h.voteRecords v) }

theorem SamePart.removeVoteRecord_other : SamePart id s (t.removeVoteRecord id' voter) :=
  { h with
    rest := by rw [h.rest]; rfl
    voteRecords := fun v => (lookup_erase_other _ _ _ hne).trans (h.voteRecords v) }

omit hne in
theorem SamePart.closeActive_other : SamePart id s t.closeActive :=
  { h with rest := by rw [h.rest]; rfl }

theorem SamePart.emit_other {e : Event} (he : e.proposal = some id') : SamePart id s (t.emit e) :=
  { h with
    rest := by rw [h.rest]; rfl
    events := by
      rw [← h.events, Store.eventsOf, Store.emit, List.filter_append, Store.eventsOf,
        List.filter_singleton, he]
      simp [Ne.symm hne] }

theorem SamePart.addDisbursement_other {d : Disbursement} (hd : d.proposal = id') :
    SamePart id s (t.addDisbursement d) :=
  { h with
    rest := by rw [h.rest]; rfl
    disbursements := by
      rw [← h.disbursements, Store.disbursementsOf, Store.addDisbursement, List.filter_append,
        Store.disbursementsOf, List.filter_singleton, hd]
      simp [Ne.symm hne] }

end Writes

/-! ## Calls -/

theorem SamePart.voted (h : SamePart id s t) (voter : Address) : t.voted id voter = s.voted id voter := by
  rw [Store.voted, h.hasVoted, Store.voted]

theorem SamePart.flagReadable (h : SamePart id s t) {ttl : TtlRule} {voter : Address}
    (hflag : s.FlagReadable ttl id voter) : t.FlagReadable ttl id voter := by
  rwa [Store.FlagReadable, h.hasVoted]

/-- A call on another proposal writes nothing of the proposal `id`, nor of the configuration. -/
theorem Effect.samePart (h : Effect env s o op s' o') {id' : U64} (hop : op.proposal = some id')
    (hne : id ≠ id') : SamePart id s s' := by
  have hs := SamePart.refl id s
  cases h with
  | amendProposal =>
    cases hop
    exact (hs.setProposal_other hne _).emit_other hne rfl
  | castVote =>
    cases hop
    exact (((hs.setHasVoted_other _ hne _).setVoteRecord_other _ hne _).setProposal_other hne _).emit_other hne rfl
  | retractVote =>
    cases hop
    exact (((hs.setHasVoted_other _ hne _).removeVoteRecord_other _ hne).setProposal_other hne _).emit_other hne rfl
  | changeVote =>
    cases hop
    exact ((hs.setVoteRecord_other _ hne _).setProposal_other hne _).emit_other hne rfl
  | finalise =>
    cases hop
    exact (hs.setProposal_other hne _).closeActive_other.emit_other hne rfl
  | execute =>
    cases hop
    exact (hs.setProposal_other hne _).emit_other hne rfl
  | executeDisburse =>
    cases hop
    exact ((hs.addDisbursement_other hne rfl).setProposal_other hne _).emit_other hne rfl
  | cancel =>
    cases hop
    exact (hs.setProposal_other hne _).closeActive_other.emit_other hne rfl
  | updateQuorum =>
    cases hop
    exact (hs.setProposal_other hne _).emit_other hne rfl
  | _ => cases hop

/-- A call on the proposal `id` reads nothing but what there is of it, and of the configuration. -/
theorem Effect.transport (h : Effect env s o op s' o') (hop : op.proposal = some id) (hst : SamePart id s t) :
    ∃ t', Effect env t o op t' o' ∧ SamePart id s' t' := by
  obtain ⟨proposals, hasVoted, voteRecords, active, events, disbursements, rfl⟩ :
      ∃ proposals hasVoted voteRecords active events disbursements, t = { s with
        proposals := proposals, hasVoted := hasVoted, voteRecords := voteRecords
        activeProposalCount := active, events := events, disbursements := disbursements } :=
    ⟨_, _, _, _, _, _, hst.rest⟩
  cases h with
  | amendProposal hauth hready hp hproposer hstate htotal hnone htitle hdescription =>
    cases hop
    exact ⟨_, .amendProposal hauth hready (hst.proposal.trans hp) hproposer hstate htotal hnone htitle hdescription,
      (hst.setProposal _).emit _⟩
  | castVote hauth hready hp hstate hstart hend hflag hvoted hallowed htoken hdelegate hweight hpos htotal hcount =>
    cases hop
    exact ⟨_, .castVote hauth hready (hst.proposal.trans hp) hstate hstart hend (hst.flagReadable hflag)
      ((hst.voted _).trans hvoted) hallowed htoken hdelegate hweight hpos htotal hcount,
      (((hst.setHasVoted _ _).setVoteRecord _ _).setProposal _).emit _⟩
  | retractVote hauth hready hp hstate hend hflag hvoted hr htotal =>
    cases hop
    exact ⟨_, .retractVote hauth hready (hst.proposal.trans hp) hstate hend (hst.flagReadable hflag)
      ((hst.voted _).trans hvoted) ((hst.voteRecords _).trans hr) htotal,
      (((hst.setHasVoted _ _).removeVoteRecord _).setProposal _).emit _⟩
  | changeVote hauth hready hp hstate hend hflag hvoted hr hne hless hmore =>
    cases hop
    exact ⟨_, .changeVote hauth hready (hst.proposal.trans hp) hstate hend (hst.flagReadable hflag)
      ((hst.voted _).trans hvoted) ((hst.voteRecords _).trans hr) hne hless hmore,
      ((hst.setVoteRecord _ _).setProposal _).emit _⟩
  | finalise hready hp hstate hend htotal =>
    cases hop
    exact ⟨_, .finalise hready (hst.proposal.trans hp) hstate hend htotal,
      (hst.setProposal _).closeActive.emit _⟩
  | execute hauth hadmin hp hstate hnone =>
    cases hop
    exact ⟨_, .execute hauth hadmin (hst.proposal.trans hp) hstate hnone, (hst.setProposal _).emit _⟩
  | executeDisburse hauth hadmin hp hstate haction htreasury hdisburse =>
    cases hop
    exact ⟨_, .executeDisburse hauth hadmin (hst.proposal.trans hp) hstate haction htreasury hdisburse,
      ((hst.addDisbursement _).setProposal _).emit _⟩
  | cancel hauth hadmin hp hstate =>
    cases hop
    exact ⟨_, .cancel hauth hadmin (hst.proposal.trans hp) hstate, (hst.setProposal _).closeActive.emit _⟩
  | updateQuorum hauth hadmin hquorum htoken hsupply hle hp hstate hwindow hdeadline hnow =>
    cases hop
    exact ⟨_, .updateQuorum hauth hadmin hquorum htoken hsupply hle (hst.proposal.trans hp) hstate hwindow
      hdeadline hnow, (hst.setProposal _).emit _⟩
  | _ => cases hop

/-- So it succeeds in both stores, or in neither. -/
theorem SamePart.succeeds_iff (hst : SamePart id s t) {i : Input ω} (hop : i.op.proposal = some id) :
    Succeeds s i ↔ Succeeds t i := by
  have htransport {s t : Store} (hst : SamePart id s t) (hs : Succeeds s i) : Succeeds t i := by
    obtain ⟨o, he⟩ := hs.effect
    obtain ⟨t', he', _⟩ := he.transport hop hst
    rw [Succeeds, exec_of_effect he']
  exact ⟨htransport hst, htransport hst.symm⟩

/-- And it does the same in both. -/
theorem SamePart.step (hst : SamePart id s t) {i : Input ω} (hop : i.op.proposal = some id) :
    SamePart id (step s i) (step t i) := by
  by_cases hs : Succeeds s i
  · obtain ⟨o, he⟩ := hs.effect
    obtain ⟨t', he', hst'⟩ := he.transport hop hst
    rwa [step_of_effect he']
  · rwa [step_of_not_succeeds hs, step_of_not_succeeds fun ht => hs ((hst.succeeds_iff hop).2 ht)]

theorem SamePart.step_other (hst : SamePart id s t) {i : Input ω} (hop : i.op.proposal ≠ some id)
    (hsome : i.op.proposal.isSome) : SamePart id (Governance.step s i) t := by
  obtain ⟨id', hid'⟩ := Option.isSome_iff_exists.1 hsome
  have hne : id ≠ id' := by
    rintro rfl
    exact hop hid'
  by_cases hs : Succeeds s i
  · obtain ⟨o, he⟩ := hs.effect
    exact (he.samePart hid' hne).symm.trans hst
  · rwa [step_of_not_succeeds hs]

/-! ## Runs -/

/-- Two runs of calls on proposals, in which the calls on each are the same and come in the same order. -/
structure SameByProposal (xs ys : List (Input ω)) : Prop where
  left : ∀ i ∈ xs, i.op.proposal.isSome
  right : ∀ i ∈ ys, i.op.proposal.isSome
  own_eq : ∀ id, own (fun i : Input ω => i.op.proposal) (some id) xs = own (fun i => i.op.proposal) (some id) ys

theorem SameByProposal.samePart {xs ys : List (Input ω)} (h : SameByProposal xs ys) (s : Store) (id : U64) :
    SamePart id (run step s xs) (run step s ys) := by
  have hown (s t : Store) (i : Input ω) (_ : i.op.proposal.isSome) (hi : i.op.proposal = some id)
      (hst : SamePart id s t) : SamePart id (step s i) (step t i) := hst.step hi
  have hother (s t : Store) (i : Input ω) (hsome : i.op.proposal.isSome) (hi : i.op.proposal ≠ some id)
      (hst : SamePart id s t) : SamePart id (step s i) t := hst.step_other hi hsome
  exact run_parts (samePart_equivalence id) hown hother h.left h.right (h.own_eq id)

/-- The calls on different proposals do not depend on each other: from every reachable state, two runs of calls
    on proposals, in which the calls on each proposal are the same, at the same times and with the same answers
    of the token and the treasury, and come in the same order, whether or not they succeed, lead to the same
    store, but for the order in which the calls on different proposals have published their events and made
    their disbursements. -/
theorem proposals_independent (is : List (Input ω)) {xs ys : List (Input ω)} (h : SameByProposal xs ys) :
    run step Store.empty (is ++ ys) = { run step Store.empty (is ++ xs) with
      events := (run step Store.empty (is ++ ys)).events
      disbursements := (run step Store.empty (is ++ ys)).disbursements } ∧
    ∀ id, (run step Store.empty (is ++ ys)).eventsOf id = (run step Store.empty (is ++ xs)).eventsOf id ∧
      (run step Store.empty (is ++ ys)).disbursementsOf id =
        (run step Store.empty (is ++ xs)).disbursementsOf id := by
  have hxs := run_wellFormed (is ++ xs)
  have hys := run_wellFormed (is ++ ys)
  have hsame (id : U64) := h.samePart (run step Store.empty is) id
  rw [← run_append, ← run_append] at hsame
  refine ⟨?_, fun id => ⟨(hsame id).events, (hsame id).disbursements⟩⟩
  have hproposals : (run step Store.empty (is ++ ys)).proposals = (run step Store.empty (is ++ xs)).proposals :=
    Finmap.ext_lookup fun id => (hsame id).proposal
  have hvoted : (run step Store.empty (is ++ ys)).hasVoted = (run step Store.empty (is ++ xs)).hasVoted :=
    Finmap.ext_lookup fun k => (hsame k.1).hasVoted k.2
  have hrecords : (run step Store.empty (is ++ ys)).voteRecords = (run step Store.empty (is ++ xs)).voteRecords :=
    Finmap.ext_lookup fun k => (hsame k.1).voteRecords k.2
  -- The active proposals are counted.
  have hactive : (run step Store.empty (is ++ ys)).activeProposalCount =
      (run step Store.empty (is ++ xs)).activeProposalCount := by
    rw [← IntRange.val_inj, hys.active_eq, hxs.active_eq, hproposals]
  rw [(hsame (.lit 0)).rest, hproposals, hvoted, hrecords, hactive]

/-- The account `2` makes a proposal of its own. -/
def openingTwo : List (Input Unit) :=
  opening ++ [signed (.lit 1) (.createProposal (.account 2) [85] [68] (.lit 20) (.lit 60) none none)]

/-- There is a vote on the first proposal, and the second one is cancelled after it. -/
def voteFirst : List (Input Unit) :=
  [signed (.lit 2) (.castVote (.account 1) (.lit 0) .yes), signed (.lit 3) (.cancel (.account 9) (.lit 1) none)]

/-- The second one is cancelled before it. -/
def cancelFirst : List (Input Unit) :=
  [signed (.lit 3) (.cancel (.account 9) (.lit 1) none), signed (.lit 2) (.castVote (.account 1) (.lit 0) .yes)]

theorem proposals_independent_two :
    (run step Store.empty (openingTwo ++ cancelFirst)).proposals =
      (run step Store.empty (openingTwo ++ voteFirst)).proposals := by
  have hsame : SameByProposal voteFirst cancelFirst := by
    refine ⟨by decide, by decide, fun id => ?_⟩
    by_cases hid : some (.lit 0 : U64) = some id
    · rw [← hid]
      rfl
    · simp only [voteFirst, cancelFirst, own_cons, signed, Op.proposal, hid, if_false]
  rw [(proposals_independent openingTwo hsame).1]

end CosmosVote.Governance
