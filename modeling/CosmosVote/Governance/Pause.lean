import CosmosVote.Governance.Texts

/-!
# The pause of governance

While governance is paused, proposals can be neither made, amended, voted on nor finalised.
What is left are the emergency calls of the admin (`Emergency`), which do not check whether
governance is paused: to cancel an active proposal, to execute a passed one, and to set a
quorum.

* `Effect.of_paused`: what any call does while governance is paused;
* `Frozen`: what stays as it is along a pause, and how the state of a proposal can change;
* `pause_freeze`: the same for whole runs without `unpause`.
-/

namespace CosmosVote.Governance

open Soroban

variable {ω : Type}

/-- The contract has been initialised, and is paused. -/
structure Paused (s : Store) : Prop where
  ready : s.contractState = .ready
  paused : s.paused = true

/-- The votes, the number of proposals, and the times of the last ones, are as they were. -/
structure SameRecords (s s' : Store) : Prop where
  proposalCount : s'.proposalCount = s.proposalCount
  hasVoted : s'.hasVoted = s.hasVoted
  voteRecords : s'.voteRecords = s.voteRecords
  lastProposal : s'.lastProposal = s.lastProposal

/-- The calls that write to a proposal while governance is paused: the admin has signed them, and each
    writes to the one proposal it names. -/
inductive Emergency (env : HostEnv) (s s' : Store) : Op → Prop
  | cancel {admin : Address} {id : U64} {reason : Option Text} {p : Proposal}
      (hauth : env.auth admin = true) (hadmin : s.admin = some admin)
      (hp : s.proposals.lookup id = some p) (hstate : p.state = .active)
      (hproposals : s'.proposals =
        s.proposals.insert id { p with state := .cancelled, cancellationReason := reason })
      (hdisbursements : s'.disbursements = s.disbursements) :
      Emergency env s s' (.cancel admin id reason)
  | execute {admin : Address} {id : U64} {p : Proposal} (hauth : env.auth admin = true)
      (hadmin : s.admin = some admin) (hp : s.proposals.lookup id = some p) (hstate : p.state = .passed)
      (hproposals : s'.proposals = s.proposals.insert id { p with state := .executed })
      (hdisbursements : s'.disbursements =
        s.disbursements ++ { p with state := .executed }.due id s.treasuryContract) :
      Emergency env s s' (.execute admin id)
  | updateQuorum {admin : Address} {id : U64} {quorum : I128} {p : Proposal}
      (hauth : env.auth admin = true) (hadmin : s.admin = some admin)
      (hp : s.proposals.lookup id = some p) (hstate : p.state = .active)
      (hwindow : env.timestamp.val ≤ p.startTime.val + (p.endTime.val - p.startTime.val) / 10)
      (hproposals : s'.proposals = s.proposals.insert id { p with quorum := quorum })
      (hdisbursements : s'.disbursements = s.disbursements) :
      Emergency env s s' (.updateQuorum admin id quorum)

/-- What becomes of a proposal while governance is paused. -/
structure Proposal.Kept (p p' : Proposal) : Prop where
  terms : p.SameTerms p'
  texts : p.SameTexts p'
  tallies : ∀ vote, p'.tally vote = p.tally vote
  voterCount : p'.voterCount = p.voterCount
  state : p'.state = p.state ∨ (p.state = .active ∧ p'.state = .cancelled) ∨
    (p.state = .passed ∧ p'.state = .executed)

/-- What becomes of the store while governance is paused. -/
structure Frozen (s s' : Store) : Prop extends SameRecords s s' where
  none : ∀ id, s.proposals.lookup id = none → s'.proposals.lookup id = none
  kept : ∀ id p, s.proposals.lookup id = some p → ∃ p', s'.proposals.lookup id = some p' ∧ p.Kept p'

section Relations

variable {s t u : Store} {p q r : Proposal}

theorem Proposal.Kept.refl (p : Proposal) : p.Kept p :=
  ⟨.rfl p, .refl p, fun _ => rfl, rfl, .inl rfl⟩

theorem Proposal.Kept.trans (h : p.Kept q) (h' : q.Kept r) : p.Kept r where
  terms := h.terms.trans h'.terms
  texts := h.texts.trans h'.texts
  tallies vote := (h'.tallies vote).trans (h.tallies vote)
  voterCount := h'.voterCount.trans h.voterCount
  state := by
    rcases h.state with hpq | hpq
    · rw [← hpq]
      exact h'.state
    · -- A proposal that is cancelled or executed stays so.
      have hqr : r.state = q.state := by
        rcases h'.state with hqr | ⟨hq, _⟩ | ⟨hq, _⟩
        · exact hqr
        · rcases hpq with ⟨_, hpq⟩ | ⟨_, hpq⟩ <;> rw [hq] at hpq <;> cases hpq
        · rcases hpq with ⟨_, hpq⟩ | ⟨_, hpq⟩ <;> rw [hq] at hpq <;> cases hpq
      rw [hqr]
      exact .inr hpq

theorem SameRecords.refl (s : Store) : SameRecords s s := ⟨rfl, rfl, rfl, rfl⟩

theorem SameRecords.trans (h : SameRecords s t) (h' : SameRecords t u) : SameRecords s u where
  proposalCount := h'.proposalCount.trans h.proposalCount
  hasVoted := h'.hasVoted.trans h.hasVoted
  voteRecords := h'.voteRecords.trans h.voteRecords
  lastProposal := h'.lastProposal.trans h.lastProposal

theorem Frozen.trans (h : Frozen s t) (h' : Frozen t u) : Frozen s u where
  toSameRecords := h.toSameRecords.trans h'.toSameRecords
  none id hnone := h'.none id (h.none id hnone)
  kept id p hp := by
    obtain ⟨q, hq, hpq⟩ := h.kept id p hp
    obtain ⟨r, hr, hqr⟩ := h'.kept id q hq
    exact ⟨r, hr, hpq.trans hqr⟩

/-- Nothing is written to any proposal. -/
theorem Frozen.of_eq (h : SameRecords s t) (hproposals : t.proposals = s.proposals) : Frozen s t where
  toSameRecords := h
  none id hnone := by rwa [hproposals]
  kept id p hp := ⟨p, by rwa [hproposals], .refl p⟩

/-- One proposal is written to. -/
theorem Frozen.write (h : SameRecords s t) {id : U64} (hp : s.proposals.lookup id = some p)
    (hproposals : t.proposals = s.proposals.insert id q) (hkept : p.Kept q) : Frozen s t where
  toSameRecords := h
  none id' hnone := by
    have hne : id' ≠ id := by
      rintro rfl
      rw [hp] at hnone
      cases hnone
    rwa [hproposals, Finmap.lookup_insert_of_ne _ hne]
  kept id' p' hp' := by
    rw [hproposals, Finmap.lookup_insert_eq_ite]
    split
    · rename_i hid
      rw [hid] at hp'
      obtain rfl := Option.some_inj.1 (hp.symm.trans hp')
      exact ⟨q, rfl, hkept⟩
    · exact ⟨p', hp', .refl p'⟩

/-- An emergency call keeps what has to be kept. -/
theorem Emergency.frozen {env : HostEnv} {op : Op} (h : Emergency env s t op) (hsame : SameRecords s t) :
    Frozen s t := by
  cases h with
  | cancel _ _ hp hstate hproposals =>
    exact .write hsame hp hproposals ⟨⟨rfl, rfl, rfl, rfl, rfl, rfl, rfl, rfl⟩, ⟨rfl, rfl⟩,
      fun vote => by cases vote <;> rfl, rfl, .inr (.inl ⟨hstate, rfl⟩)⟩
  | execute _ _ hp hstate hproposals =>
    exact .write hsame hp hproposals ⟨⟨rfl, rfl, rfl, rfl, rfl, rfl, rfl, rfl⟩, ⟨rfl, rfl⟩,
      fun vote => by cases vote <;> rfl, rfl, .inr (.inr ⟨hstate, rfl⟩)⟩
  | updateQuorum _ _ hp hstate _ hproposals =>
    exact .write hsame hp hproposals ⟨⟨rfl, rfl, rfl, rfl, rfl, rfl, rfl, rfl⟩, ⟨rfl, rfl⟩,
      fun vote => by cases vote <;> rfl, rfl, .inl rfl⟩

end Relations

/-! ## Calls -/

section Calls

variable {s s' : Store} {env : Env ω} {op : Op} {o o' : ω}

/-- What any call does while governance is paused. -/
theorem Effect.of_paused (h : Effect env s o op s' o') (hs : WellFormed s) (hpaused : Paused s) :
    SameRecords s s' ∧ ((s'.proposals = s.proposals ∧ s'.disbursements = s.disbursements) ∨
      Emergency env.toHostEnv s s' op) := by
  have hrefuse (hready : s.Ready) : False := Bool.false_ne_true (hready.2.symm.trans hpaused.paused)
  cases h with
  | initializeContract hinit => cases hinit.symm.trans hpaused.ready
  | createProposal _ hready => exact (hrefuse hready).elim
  | amendProposal _ hready => exact (hrefuse hready).elim
  | castVote _ hready => exact (hrefuse hready).elim
  | retractVote _ hready => exact (hrefuse hready).elim
  | changeVote _ hready => exact (hrefuse hready).elim
  | finalise hready => exact (hrefuse hready).elim
  | @execute _ id p hauth hadmin hp hstate hnone =>
    have hdue : { p with state := .executed }.due id s.treasuryContract = [] :=
      Proposal.due_of_none hnone
    refine ⟨⟨rfl, rfl, rfl, rfl⟩, .inr (.execute hauth hadmin hp hstate rfl ?_)⟩
    rw [hdue, List.append_nil]
    rfl
  | @executeDisburse _ _ id p _ _ hauth hadmin hp hstate haction htreasury =>
    have hdue : { p with state := .executed }.due id s.treasuryContract = _ :=
      Proposal.due_of_executed rfl haction
    refine ⟨⟨rfl, rfl, rfl, rfl⟩, .inr (.execute hauth hadmin hp hstate rfl ?_)⟩
    rw [hdue, htreasury]
    rfl
  | cancel hauth hadmin hp hstate =>
    exact ⟨⟨rfl, rfl, rfl, rfl⟩, .inr (.cancel hauth hadmin hp hstate rfl rfl)⟩
  | updateQuorum hauth hadmin _ _ _ _ hp hstate hwindow hdeadline hnow =>
    refine ⟨⟨rfl, rfl, rfl, rfl⟩, .inr (.updateQuorum hauth hadmin hp hstate ?_ rfl rfl)⟩
    rw [← Proposal.window_eq _ (hs.proper _ _ hp).start_le_end hwindow, hdeadline]
    exact hnow
  | _ => exact ⟨⟨rfl, rfl, rfl, rfl⟩, .inl ⟨rfl, rfl⟩⟩

theorem Effect.paused (h : Effect env s o op s' o') (hpaused : Paused s)
    (hop : ∀ admin, op ≠ .unpause admin) : Paused s' := by
  refine ⟨h.change.ready hpaused.ready, ?_⟩
  obtain ⟨⟩ := s
  cases h with
  | initializeContract hinit => cases hinit.symm.trans hpaused.ready
  | pause => rfl
  | unpause => exact absurd rfl (hop _)
  | _ => exact hpaused.paused

/-- Before the contract is initialised, it has no admin, and is not paused. -/
def Fresh (s : Store) : Prop :=
  s.contractState = .uninitialized → s.admin = none ∧ s.paused = false

theorem Fresh.of_effect (hs : Fresh s) (h : Effect env s o op s' o') : Fresh s' := by
  -- Without an admin, no call of theirs succeeds.
  have hnone {a : Address} (ha : s.admin = some a) (hinit : s.contractState = .uninitialized) : False := by
    rw [(hs hinit).1] at ha
    cases ha
  obtain ⟨⟩ := s
  cases h with
  | initializeContract =>
    intro hinit
    cases hinit
  | acceptAdmin _ _ hadmin => exact fun hinit => (hnone hadmin hinit).elim
  | pause _ hadmin => exact fun hinit => (hnone hadmin hinit).elim
  | unpause _ hadmin => exact fun hinit => (hnone hadmin hinit).elim
  | _ => exact hs

theorem run_fresh (is : List (Input ω)) : Fresh (run step Store.empty is) :=
  run_effects .empty (fun _ => ⟨rfl, rfl⟩) (fun _ _ _ _ _ hs he => hs.of_effect he) is

/-- Only an admin can pause governance, so that it has been initialised before. -/
theorem run_paused {is : List (Input ω)} (h : (run step Store.empty is).paused = true) :
    Paused (run step Store.empty is) := by
  refine ⟨?_, h⟩
  cases hstate : (run step Store.empty is).contractState with
  | ready => rfl
  | uninitialized =>
    rw [(run_fresh is hstate).2] at h
    cases h

end Calls

/-! ## Runs -/

/-- Along a run without `unpause`, governance stays paused, and what has to be kept is kept. -/
theorem Paused.run_frozen {s : Store} (hpaused : Paused s) (hs : WellFormed s) {is : List (Input ω)}
    (his : ∀ i ∈ is, ∀ admin, i.op ≠ .unpause admin) :
    Paused (run step s is) ∧ Frozen s (run step s is) := by
  have halong : Along step (fun _ i => ∀ admin, i.op ≠ .unpause admin) s is := by
    rintro xs i ys rfl
    exact his i (by simp)
  refine run_effects_of (I := fun t => Paused t ∧ Frozen s t) halong hs ⟨hpaused, .of_eq (.refl s) rfl⟩ ?_
  rintro t i t' o ht hop ⟨hpaused, hfrozen⟩ he
  refine ⟨he.paused hpaused hop, hfrozen.trans ?_⟩
  obtain ⟨hsame, ⟨hproposals, _⟩ | hemergency⟩ := he.of_paused ht hpaused
  · exact .of_eq hsame hproposals
  · exact hemergency.frozen hsame

/-- From every reachable state in which governance is paused, along every sequence of calls other than
    `unpause`:

    * governance stays paused; no proposal is made, and no text, tally, count of voters, flag, record,
      or time of a last proposal changes; the state of a proposal only changes from active to
      cancelled, or from passed to executed;
    * whatever is called next, the proposals and the disbursements stay as they are, unless it is an
      emergency call of the admin;
    * a second `pause` fails, and changes nothing. -/
theorem pause_freeze {is js : List (Input ω)} (hpaused : (run step Store.empty is).paused = true)
    (hjs : ∀ j ∈ js, ∀ admin, j.op ≠ .unpause admin) :
    (run step Store.empty (is ++ js)).paused = true ∧
    Frozen (run step Store.empty is) (run step Store.empty (is ++ js)) ∧
    (∀ i : Input ω,
      (step (run step Store.empty (is ++ js)) i).proposals = (run step Store.empty (is ++ js)).proposals ∧
        (step (run step Store.empty (is ++ js)) i).disbursements =
          (run step Store.empty (is ++ js)).disbursements ∨
      Emergency i.env.toHostEnv (run step Store.empty (is ++ js)) (step (run step Store.empty (is ++ js)) i)
        i.op) ∧
    ∀ (i : Input ω) admin, i.op = .pause admin →
      ¬Succeeds (run step Store.empty (is ++ js)) i ∧
        step (run step Store.empty (is ++ js)) i = run step Store.empty (is ++ js) := by
  obtain ⟨hstill, hfrozen⟩ := (run_paused hpaused).run_frozen (run_wellFormed is) hjs
  rw [← run_append] at hstill hfrozen
  have hs := run_wellFormed (is ++ js)
  refine ⟨hstill.paused, hfrozen, fun i => ?_, fun i admin hop => ?_⟩
  · rcases step_cases (run step Store.empty (is ++ js)) i with ⟨o, _, he⟩ | hsame
    · exact (he.of_paused hs hstill).2
    · rw [hsame]
      exact .inl ⟨rfl, rfl⟩
  · have hnone {s' : Store} {o : ω}
        (he : Effect i.env (run step Store.empty (is ++ js)) i.outside i.op s' o) : False := by
      rw [hop] at he
      cases he with
      | pause _ _ hnot => cases hnot.symm.trans hstill.paused
    constructor
    · intro hi
      obtain ⟨o, he⟩ := hi.effect
      exact hnone he
    · rcases step_cases (run step Store.empty (is ++ js)) i with ⟨o, _, he⟩ | hsame
      · exact (hnone he).elim
      · exact hsame

/-- The admin pauses governance while there is an active proposal. -/
def paused : List (Input Unit) := opening ++ [signed (.lit 1) (.pause (.account 9))]

/-- A vote is refused, and the cancellation of the proposal is not. -/
theorem pause_freeze_paused :
    Frozen (run step Store.empty paused) (run step Store.empty (paused ++
      [signed (.lit 2) (.castVote (.account 1) (.lit 0) .yes),
        signed (.lit 3) (.cancel (.account 9) (.lit 0) none)])) :=
  (pause_freeze (by decide) (by simp [signed])).2.1

end CosmosVote.Governance
