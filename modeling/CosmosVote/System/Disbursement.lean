import CosmosVote.Governance.Disbursement
import CosmosVote.System.World
import CosmosVote.Token.Authority

/-!
# The funds of the treasury

The treasury of a deployment that is wired up (`Wired`: it listens to governance, and
governance asks it) pays what is attached to a proposal when the proposal is executed,
and nothing else.

* `Accounted`: what governance has had the treasury disburse, the treasury has
  disbursed, and nothing else if it only listens to governance;
* `Linked.step_cases`: a transaction that touches the funds executes a passed proposal,
  or is a call of the token; this holds before the wiring is complete, too;
* `treasury_safety`: the payments, over whole runs; and that nothing else but a burn of
  the token's admin lowers the balance of the treasury, exactly if the token is not opened
  with a negative supply for it;
* `executed_paid_iff`: an executed proposal has been paid exactly if governance was
  initialised with a treasury.
-/

namespace CosmosVote.System

open Soroban

variable {d : Deployment}

/-! ## Proposals, from their creation on -/

variable (d) in
/-- The transaction creates the proposal `id`, with this attached to it. -/
def Attaches (w : World) (tx : Tx) (id : U64) (action : Option Treasury.TreasuryAction) : Prop :=
  id = w.governance.proposalCount ∧ ∃ proposer title description quorum duration link,
    Calls d w tx (.createProposal proposer title description quorum duration link action)

/-- The terms of a proposal are the same along every run. -/
theorem run_terms {w : World} (hw : Governance.WellFormed w.governance) {id : U64}
    {p : Governance.Proposal} (hp : w.governance.proposals.lookup id = some p) (txs : List Tx) :
    ∃ p', (run (step d) w txs).governance.proposals.lookup id = some p' ∧ p.SameTerms p' := by
  obtain ⟨is, his⟩ := run_governance d w txs
  rw [his]
  exact Governance.run_sameTerms hw hp is

theorem Attaches.created {w : World} {tx : Tx} {id : U64} {action : Option Treasury.TreasuryAction}
    (h : Attaches d w tx id action) :
    w.governance.contractState = .ready ∧ ∃ p,
      (step d w tx).governance.proposals.lookup id = some p ∧ p.treasuryAction = action.toList := by
  obtain ⟨hid, _, _, _, _, _, _, hcalls⟩ := h
  obtain ⟨o, he⟩ := hcalls.effect
  generalize (step d w tx).governance = s' at he ⊢
  cases he with
  | createProposal _ hready =>
    rw [hid]
    exact ⟨hready.1, _, Finmap.lookup_insert _, rfl⟩

/-- Every proposal was created, with what is still attached to it. -/
theorem exists_attaches {txs : List Tx} {id : U64} {p : Governance.Proposal}
    (hp : (d.after txs).governance.proposals.lookup id = some p) :
    ∃ xs tx ys action, txs = xs ++ tx :: ys ∧ Attaches d (d.after xs) tx id action ∧
      p.treasuryAction = action.toList := by
  -- The first transaction after which there is a proposal `id` is the one that creates it.
  obtain ⟨xs, tx, ys, rfl, hbefore, hafter⟩ := Deployment.exists_first
    (P := fun w => (w.governance.proposals.lookup id).isSome)
    (by simp [World.empty, Governance.Store.empty])
    (show ((d.after txs).governance.proposals.lookup id).isSome by rw [hp]; rfl)
  obtain ⟨q, hq⟩ := Option.isSome_iff_exists.1 hafter
  have hnone : (d.after xs).governance.proposals.lookup id = none := by simpa using hbefore
  have hwf := run_wellFormed d (xs ++ [tx])
  rw [d.after_concat] at hwf
  -- What it attaches stays attached along the rest of the run.
  obtain ⟨p', hp', hterms⟩ := run_terms hwf hq ys
  rw [d.after_cons] at hp
  obtain rfl := Option.some_inj.1 (hp.symm.trans hp')
  rcases step_governance d (d.after xs) tx with hsame | ⟨op, o, hop, he⟩
  · rw [hsame, hnone] at hq
    cases hq
  · obtain ⟨hid, _, _, _, _, _, _, action, rfl, haction⟩ := he.attached hnone hq
    exact ⟨xs, tx, ys, action, rfl, ⟨hid, _, _, _, _, _, _, .of_effect hop he⟩,
      hterms.treasuryAction.trans haction⟩

theorem run_paid (d : Deployment) (txs : List Tx) : Governance.Paid (d.after txs).governance :=
  after_governance d Governance.run_paid txs

/-! ## The books of the treasury -/

variable (d) in
/-- What governance has had the treasury of the deployment disburse. -/
def asked (s : Governance.Store) : List Treasury.TreasuryAction :=
  (s.disbursements.filter fun x => x.treasury = d.treasury).map fun x => x.action

variable (d) in
/-- What governance has had the treasury disburse, the treasury has disbursed, and nothing else if it
    only listens to governance. -/
structure Accounted (w : World) : Prop where
  sublist : (asked d w.governance).Sublist w.treasury.disbursed
  eq : (∀ g, w.treasury.governance = some g → g = d.governance) →
    w.treasury.disbursed = asked d w.governance

/-- A contract signs nothing. -/
theorem auth_contract {a : Address} (h : d.IsContract a) (tx : Tx) : d.auth tx none a = false := by
  rw [Deployment.auth]
  simp [h]

theorem asked_eq {s s' : Governance.Store} (h : s'.disbursements = s.disbursements) :
    asked d s' = asked d s := by
  rw [asked, h, asked]

theorem asked_append {s s' : Governance.Store} {x : Governance.Disbursement}
    (h : s'.disbursements = s.disbursements ++ [x]) :
    asked d s' = asked d s ++ if x.treasury = d.treasury then [x.action] else [] := by
  rw [asked, h, List.filter_append, List.map_append, asked]
  by_cases hx : x.treasury = d.treasury <;> simp [hx]

/-- Every transaction keeps the books of the treasury. -/
theorem Accounted.step {w : World} (h : Accounted d w) (tx : Tx) : Accounted d (step d w tx) := by
  refine step_invariant (I := Accounted d) d h fun w' he => ?_
  cases he with
  | @governance op s o hop he =>
    rcases he.outside with ⟨ho, hsame⟩ | ⟨x, hx⟩
    · obtain rfl := ho
      exact ⟨(asked_eq hsame).symm ▸ h.sublist, fun hg => (h.eq hg).trans (asked_eq hsame).symm⟩
    · have hasked := asked_append (d := d) hx.disbursements
      have hdisburse := hx.disburse
      -- Both lists get the action, or, if another treasury was asked, neither.
      by_cases hne : x.treasury = d.treasury
      · rw [hne] at hdisburse
        obtain ⟨_, _, _, t, _, rfl⟩ := disburse_treasury.1 hdisburse
        rw [if_pos hne] at hasked
        refine ⟨?_, fun hg => ?_⟩
        · rw [hasked]
          exact h.sublist.append_right _
        · rw [hasked, ← h.eq hg]
      · obtain rfl := disburse_foreign hne hdisburse
        rw [if_neg hne, List.append_nil] at hasked
        exact ⟨hasked.symm ▸ h.sublist, fun hg => (h.eq hg).trans hasked.symm⟩
  | initializeTreasury hop hnone =>
    exact ⟨h.sublist, fun _ => h.eq fun g hg => by rw [hnone] at hg; cases hg⟩
  | @disburse action governance t hop hgovernance hauth =>
    -- A call that is not made by governance is made on the word of someone else.
    refine ⟨h.sublist.trans (List.sublist_append_left _ _), fun hg => ?_⟩
    rw [hg governance hgovernance, auth_contract (.inl rfl)] at hauth
    cases hauth
  | token => exact ⟨h.sublist, h.eq⟩
  | advance => exact ⟨h.sublist, h.eq⟩

theorem run_accounted (d : Deployment) (txs : List Tx) :
    Accounted d (d.after txs) :=
  run_invariant (fun _ tx h => h.step tx) ⟨List.Sublist.refl _, fun _ => rfl⟩ txs

/-! ## The deployment, wired up -/

variable (d) in
/-- The treasury listens to governance, and governance asks it. -/
structure Wired (w : World) : Prop where
  governance : w.treasury.governance = some d.governance
  treasury : w.governance.treasuryContract = some d.treasury

variable (d) in
/-- The treasury listens to nobody but governance, and governance asks no other treasury. -/
structure Linked (w : World) : Prop where
  governance : ∀ g, w.treasury.governance = some g → g = d.governance
  treasury : w.governance.contractState = .ready → w.governance.treasuryContract = some d.treasury

/-- The configured treasury is that of the initialisation. -/
theorem run_treasuryContract {w : World} (hready : w.governance.contractState = .ready) (txs : List Tx) :
    (run (step d) w txs).governance.treasuryContract = w.governance.treasuryContract := by
  refine (run_invariant (I := fun w' : World => w'.governance.contractState = .ready ∧
    w'.governance.treasuryContract = w.governance.treasuryContract) (fun w' tx h => ?_)
    ⟨hready, rfl⟩ txs).2
  rcases step_governance d w' tx with hsame | ⟨op, o, _, he⟩
  · rwa [hsame]
  · exact ⟨he.change.ready h.1, (he.treasuryContract h.1).trans h.2⟩

/-- A disbursement does not change whom the treasury listens to. -/
theorem disburse_governance {w : World} {tx : Tx} {treasury : Address} {action : Treasury.TreasuryAction}
    {o o' : Funds} (h : d.disburse w tx treasury action o = some o') :
    o'.treasury.governance = o.treasury.governance := by
  by_cases hne : treasury = d.treasury
  · rw [hne] at h
    obtain ⟨_, _, _, t, _, rfl⟩ := disburse_treasury.1 h
    rfl
  · rw [disburse_foreign hne h]

/-- The treasury listens to whom it was initialised with. -/
theorem run_treasuryGovernance {w : World} {g : Address} (hg : w.treasury.governance = some g)
    (txs : List Tx) : (run (step d) w txs).treasury.governance = some g := by
  refine run_invariant (I := fun w' : World => w'.treasury.governance = some g) (fun w' tx h => ?_) hg txs
  refine step_invariant (I := fun w' : World => w'.treasury.governance = some g) d h fun w'' he => ?_
  cases he with
  | governance _ he =>
    rcases he.outside with ⟨rfl, _⟩ | ⟨x, hx⟩
    · exact h
    · exact (disburse_governance hx.disburse).trans h
  | initializeTreasury _ hnone => cases hnone.symm.trans h
  | disburse => exact h
  | token => exact h
  | advance => exact h

/-- On the way to being wired up, nothing else is configured. -/
theorem Wired.linked {xs ys : List Tx} (h : Wired d (d.after (xs ++ ys))) : Linked d (d.after xs) := by
  rw [d.after_append] at h
  refine ⟨fun g hg => ?_, fun hready => ?_⟩
  · exact Option.some_inj.1 ((run_treasuryGovernance hg ys).symm.trans h.governance)
  · exact (run_treasuryContract hready ys).symm.trans h.treasury

variable (d) in
/-- The transaction executes the passed proposal `id`, and has the treasury disburse the action that is
    attached to it. -/
structure Executes (w : World) (tx : Tx) (id : U64) (action : Treasury.TreasuryAction) : Prop where
  calls : ∃ admin, Calls d w tx (.execute admin id)
  proposal : ∃ p, w.governance.proposals.lookup id = some p ∧ p.state = .passed ∧
    p.treasuryAction = [action] ∧
    (step d w tx).governance.proposals.lookup id = some { p with state := .executed }
  recorded : (step d w tx).governance.disbursements =
    w.governance.disbursements ++ [⟨id, d.treasury, action⟩]
  disbursed : (step d w tx).treasury.disbursed = w.treasury.disbursed ++ [action]

/-- A transaction that touches the funds executes a passed proposal, or is a call of the token. -/
theorem Linked.step_cases {w : World} (h : Linked d w) (hw : Governance.WellFormed w.governance) (tx : Tx) :
    (∃ id action, Executes d w tx id action) ∨
    (step d w tx).treasury.disbursed = w.treasury.disbursed ∧ ((step d w tx).token = w.token ∨
      ∃ op, tx.op = .token op ∧
        Token.Effect (d.hostEnv w tx none) w.token op (step d w tx).token) := by
  rcases System.step_cases d w tx with he | he
  · generalize hw' : step d w tx = w' at he
    cases he with
    | @governance op s o hop he =>
      rcases he.outside with ⟨ho, _⟩ | ⟨x, hx⟩
      · obtain rfl := ho
        exact .inr ⟨rfl, .inl rfl⟩
      · obtain ⟨admin, rfl⟩ := hx.op_eq
        obtain ⟨p, hp, hstate, haction, hproposals⟩ := hx.proposal
        have htreasury : x.treasury = d.treasury :=
          Option.some_inj.1 (hx.treasury.symm.trans (h.treasury (hw.ready_of_lookup hp)))
        have hdisburse := hx.disburse
        rw [htreasury] at hdisburse
        obtain ⟨_, _, _, t, _, rfl⟩ := disburse_treasury.1 hdisburse
        refine .inl ⟨x.proposal, x.action, ⟨admin, .of_effect hop he⟩,
          ⟨p, hp, hstate, (hw.proper _ p hp).treasuryAction_eq haction, ?_⟩, ?_, ?_⟩
        · rw [hw', hproposals, Finmap.lookup_insert]
        · rw [hw', hx.disbursements, ← htreasury]
        · rw [hw']
    | initializeTreasury => exact .inr ⟨rfl, .inl rfl⟩
    | disburse _ hgovernance hauth =>
      -- Governance signs nothing, so nobody can call the treasury in its name.
      obtain rfl := h.governance _ hgovernance
      rw [auth_contract (.inl rfl)] at hauth
      cases hauth
    | token hop he => exact .inr ⟨rfl, .inr ⟨_, hop, he⟩⟩
    | advance => exact .inr ⟨rfl, .inl rfl⟩
  · exact .inr ⟨by rw [he], .inl (by rw [he])⟩

/-- The treasury has given nobody an allowance. -/
theorem run_allowances_none (d : Deployment) (txs : List Tx) (spender : Address) :
    (d.after txs).token.allowances.lookup (d.treasury, spender) = none := by
  refine run_invariant
    (I := fun w : World => ∀ spender, w.token.allowances.lookup (d.treasury, spender) = none)
    (fun w tx hw spender => ?_) (fun _ => rfl) txs spender
  rcases step_token d w tx with h | ⟨c, hc, h⟩
  · rw [h]
    exact hw spender
  · refine h.allowances_none (fun _ _ _ hop => ?_) hw spender
    cases hc with
    | direct => exact auth_contract (.inr (.inl rfl)) tx
    | nested => cases hop

/-- A disbursement that fails takes the whole call back. -/
theorem execute_failed {w : World} {tx : Tx} {admin treasury : Address} {id : U64}
    {p : Governance.Proposal} {action : Treasury.TreasuryAction}
    (hop : tx.op = .governance (.execute admin id)) (hp : w.governance.proposals.lookup id = some p)
    (haction : p.treasuryAction = [action]) (htreasury : w.governance.treasuryContract = some treasury)
    (hfails : d.disburse w tx treasury action ⟨w.treasury, w.token⟩ = none) : step d w tx = w := by
  rcases step_cases d w tx with he | he
  · generalize step d w tx = w' at he ⊢
    cases he with
    | governance hop' he =>
      obtain rfl := Op.governance.inj (hop.symm.trans hop')
      cases he with
      | execute _ _ hq _ hnone =>
        obtain rfl := Option.some_inj.1 (hp.symm.trans hq)
        rw [haction, htreasury] at hnone
        rcases hnone with h | h <;> cases h
      | executeDisburse _ _ hq _ hattached hasked hdisburse =>
        obtain rfl := Option.some_inj.1 (hp.symm.trans hq)
        obtain rfl := Option.some_inj.1 (htreasury.symm.trans hasked)
        rw [haction] at hattached
        obtain rfl := Option.some_inj.1 hattached
        cases hfails.symm.trans hdisburse
    | initializeTreasury hop' => cases hop.symm.trans hop'
    | disburse hop' => cases hop.symm.trans hop'
    | token hop' => cases hop.symm.trans hop'
    | advance hop' => cases hop.symm.trans hop'
  · exact he

/-- The action was attached to the proposal `id` when it was created, in the run `txs`. -/
def AttachedIn (d : Deployment) (txs : List Tx) (id : U64) (action : Treasury.TreasuryAction) : Prop :=
  ∃ xs tx ys, txs = xs ++ tx :: ys ∧ Attaches d (d.after xs) tx id (some action)

theorem Executes.attachedIn {txs : List Tx} {tx : Tx} {id : U64} {action : Treasury.TreasuryAction}
    (h : Executes d (d.after txs) tx id action) : AttachedIn d txs id action := by
  obtain ⟨p, hp, _, haction, _⟩ := h.proposal
  obtain ⟨xs, c, ys, attached, htxs, hattaches, hattached⟩ := exists_attaches hp
  rw [haction] at hattached
  obtain rfl : attached = some action := by
    cases attached with
    | none => cases hattached
    | some a => rw [Option.toList_some, List.singleton_inj] at hattached; rw [hattached]
  exact ⟨xs, c, ys, htxs, hattaches⟩

/-- Each proposal has had at most one disbursement, and the treasury has made no others. -/
structure DisbursedOnce (w : World) : Prop where
  once : ∀ id, (w.governance.disbursementsOf id).length ≤ 1
  books : w.treasury.disbursed = w.governance.disbursements.map fun x => x.action

/-- What a transaction after the run `txs` has the treasury disburse:

    * it adds a disbursement only by executing a passed proposal, with the action that was attached to it
      when it was created, and together with its new state;
    * if the disbursement fails, nothing changes. -/
structure DisbursesAttached (d : Deployment) (txs : List Tx) (tx : Tx) : Prop where
  executes : (step d (d.after txs) tx).treasury.disbursed ≠ (d.after txs).treasury.disbursed →
    ∃ id action, Executes d (d.after txs) tx id action ∧ AttachedIn d txs id action
  failed : ∀ admin id p action, tx.op = .governance (.execute admin id) →
    (d.after txs).governance.proposals.lookup id = some p → p.treasuryAction = [action] →
    d.disburse (d.after txs) tx d.treasury action ⟨(d.after txs).treasury, (d.after txs).token⟩ = none →
    step d (d.after txs) tx = d.after txs

/-- The treasury loses tokens by a transaction only if it makes such a disbursement, or is a burn of the
    token's admin. -/
def KeepsFunds (d : Deployment) (txs : List Tx) (tx : Tx) : Prop :=
  ((step d (d.after txs) tx).token.balance d.treasury).val < ((d.after txs).token.balance d.treasury).val →
    (∃ id action, Executes d (d.after txs) tx id action ∧ AttachedIn d txs id action) ∨
    ∃ admin amount, tx.op = .token (.burn admin d.treasury amount) ∧ d.auth tx none admin = true ∧
      (d.after txs).token.admin = some admin

variable (d) in
/-- The transaction opens the token with a negative supply, which becomes the balance of the treasury. -/
def OpensBelow (w : World) (tx : Tx) : Prop :=
  ∃ op, tx.op = .token op ∧ Token.OpensBelow w.token d.treasury op

/-- What the treasury has disbursed is in the books of governance. -/
theorem Linked.disbursedOnce {txs : List Tx} (h : Linked d (d.after txs)) : DisbursedOnce (d.after txs) := by
  have hpaid := run_paid d txs
  refine ⟨hpaid.length_le, ?_⟩
  have hall : ∀ x ∈ (d.after txs).governance.disbursements, x.treasury = d.treasury := by
    intro x hx
    obtain ⟨htreasury, p, hp, _⟩ := hpaid.of_mem hx
    have hready := (run_wellFormed d txs).ready_of_lookup hp
    exact Option.some_inj.1 (htreasury.symm.trans (h.treasury hready))
  rw [(run_accounted d txs).eq h.governance, asked, List.filter_eq_self.2 fun x hx => decide_eq_true (hall x hx)]

theorem Linked.disbursesAttached {txs : List Tx} (h : Linked d (d.after txs)) (tx : Tx) :
    DisbursesAttached d txs tx := by
  have hw := run_wellFormed d txs
  refine ⟨fun hne => ?_, fun admin id p action hop hp haction hfails => ?_⟩
  · rcases h.step_cases hw tx with ⟨id, action, hexecutes⟩ | ⟨hsame, _⟩
    · exact ⟨id, action, hexecutes, hexecutes.attachedIn⟩
    · exact absurd hsame hne
  · exact execute_failed hop hp haction (h.treasury (hw.ready_of_lookup hp)) hfails

/-- An opening below zero takes from the treasury what it does not have, and is neither an execution nor a
    burn. -/
theorem OpensBelow.not_keepsFunds {txs : List Tx} {tx : Tx} (h : OpensBelow d (d.after txs) tx) :
    ¬KeepsFunds d txs tx := by
  intro hkeeps
  obtain ⟨op, hop, hopens⟩ := h
  have hlt := hopens.balance_lt (run_conserved d txs) (d.hostEnv (d.after txs) tx none)
  have htoken : (step d (d.after txs) tx).token =
      Token.step (d.after txs).token ⟨d.hostEnv (d.after txs) tx none, op⟩ := by
    rw [step, hop]
  obtain ⟨_, supply, name, symbol, decimals, rfl, _⟩ := hopens
  rcases hkeeps (by rwa [htoken]) with ⟨id, action, hexecutes, _⟩ | ⟨admin, amount, hburn, _⟩
  · obtain ⟨admin, hcalls, _⟩ := hexecutes.calls
    cases hop.symm.trans hcalls
  · cases hop.symm.trans hburn

/-- No other transaction takes more from the treasury than it may. -/
theorem Linked.keepsFunds {txs : List Tx} (h : Linked d (d.after txs)) {tx : Tx}
    (hopens : ¬OpensBelow d (d.after txs) tx) : KeepsFunds d txs tx := by
  intro hlt
  rcases h.step_cases (run_wellFormed d txs) tx with ⟨id, action, hexecutes⟩ | ⟨_, hsame | ⟨op, hop, he⟩⟩
  · exact .inl ⟨id, action, hexecutes, hexecutes.attachedIn⟩
  · rw [hsame] at hlt
    exact absurd hlt (lt_irrefl _)
  · -- The treasury signs nothing and has given no allowance: only the burn of the admin is left.
    have hsigns : d.auth tx none d.treasury = false := auth_contract (.inr (.inl rfl)) tx
    rcases he.debit_or_opensBelow (run_conserved d txs) hlt with hdebit | hbelow
    · cases hdebit with
      | transfer hauth => cases hsigns.symm.trans hauth
      | transferFrom _ hrecord =>
        rw [Token.Store.allowance, run_allowances_none] at hrecord
        cases hrecord
      | burn hauth hadmin => exact .inr ⟨_, _, hop, hauth, hadmin⟩
      | burnSelf hauth => cases hsigns.symm.trans hauth
    · exact absurd ⟨op, hop, hbelow⟩ hopens

/-- In every run that wires the deployment up:

    * in every state, each proposal has had at most one disbursement, and the treasury has made no others;
    * every transaction disburses only what is attached to the passed proposal it executes, and nothing
      changes if that fails;
    * the treasury never loses tokens but by such a disbursement, or by a burn of the token's admin, exactly
      if no transaction opens the token with a negative supply for the treasury. -/
theorem treasury_safety (txs : List Tx) (hwired : Wired d (d.after txs)) :
    (∀ zs, zs <+: txs → DisbursedOnce (d.after zs)) ∧
    (∀ xs tx ys, txs = xs ++ tx :: ys → DisbursesAttached d xs tx) ∧
    ((∀ xs tx ys, txs = xs ++ tx :: ys → KeepsFunds d xs tx) ↔
      Along (step d) (fun w tx => ¬OpensBelow d w tx) World.empty txs) := by
  have hlinked {xs : List Tx} (h : xs <+: txs) : Linked d (d.after xs) := by
    obtain ⟨ys, rfl⟩ := h
    exact hwired.linked
  refine ⟨fun zs hzs => (hlinked hzs).disbursedOnce, ?_, ?_⟩
  · rintro xs tx ys rfl
    exact (hlinked (List.prefix_append ..)).disbursesAttached tx
  · constructor
    · intro hkeeps xs tx ys htxs hopens
      exact hopens.not_keepsFunds (hkeeps xs tx ys htxs)
    · rintro hopens xs tx ys rfl
      exact (hlinked (List.prefix_append ..)).keepsFunds (hopens xs tx ys rfl)

/-- A token that is not opened with a negative supply is not opened below zero. -/
theorem along_not_opensBelow {txs : List Tx} (hsupply : ∀ tx ∈ txs, SupplyNonneg tx) (w : World) :
    Along (step d) (fun w tx => ¬OpensBelow d w tx) w txs := by
  rintro xs tx ys rfl ⟨op, hop, _, supply, name, symbol, decimals, rfl, hneg⟩
  exact absurd (hsupply tx (by simp) _ hop) hneg.not_ge

/-- Ten tokens for the account `5`. -/
def payment : Treasury.TreasuryAction := ⟨.account 5, .lit 10, .token sample.token⟩

/-- The treasury is given thirty tokens. -/
def funded (treasury : Option Address) : List Tx :=
  opening (.lit 100) treasury ++ [signed (.token (.transfer (.account 1) sample.treasury (.lit 30)))]

/-- The payment passes. -/
def passing : List Tx :=
  [voting (.account 1) .yes, signed (.advance (.lit 61) (.lit 12)), signed (.governance (.finalise (.lit 0)))]

/-- The admin executes the first proposal. -/
def executing : Tx := signed (.governance (.execute (.account 9) (.lit 0)))

/-- The payment is made when it is executed, and the treasury loses nothing else. -/
theorem treasury_safety_payment :
    ((step sample (sample.after (funded (some sample.treasury) ++
      proposing (some payment) :: passing)) executing).token.balance sample.treasury).val = 20 ∧
    DisbursesAttached sample (funded (some sample.treasury) ++ proposing (some payment) :: passing)
      executing ∧
    KeepsFunds sample (funded (some sample.treasury) ++ proposing (some payment) :: passing) executing := by
  obtain ⟨_, hattached, hkeeps⟩ := treasury_safety (d := sample)
    ((funded (some sample.treasury) ++ proposing (some payment) :: passing) ++ [executing])
    ⟨by decide, by decide⟩
  refine ⟨by decide, hattached _ executing [] rfl, hkeeps.2 ?_ _ executing [] rfl⟩
  refine along_not_opensBelow ?_ World.empty
  simp [funded, opening, proposing, passing, executing, voting, signed, SupplyNonneg,
    Token.Op.SupplyNonneg]

/-- Governance and the treasury are wired up, and the token is not open yet. -/
def unopened : List Tx :=
  [signed (.treasury (.initializeContract sample.governance)),
    signed (.governance (.initializeContract (.account 9) sample.token (.lit 0) (.lit 0) (.lit 0) false
      (some sample.treasury)))]

/-- The token is opened for the treasury, with a supply of `-5`, by a call that nobody has signed. -/
def openingBelow : Tx :=
  ⟨fun _ => false, .silent, .token (.initializeContract sample.treasury (.lit (-5)) [86] [86] (.lit 7))⟩

/-- It takes the treasury from `0` to `-5`, and is neither an execution nor a burn. -/
theorem opens_below :
    Wired sample (sample.after (unopened ++ [openingBelow])) ∧
    Wired sample (sample.after unopened) ∧
    ((sample.after unopened).token.balance sample.treasury).val = 0 ∧
    ((step sample (sample.after unopened) openingBelow).token.balance sample.treasury).val = -5 ∧
    ¬KeepsFunds sample unopened openingBelow := by
  refine ⟨⟨by decide, by decide⟩, ⟨by decide, by decide⟩, by decide, by decide, OpensBelow.not_keepsFunds ?_⟩
  exact ⟨_, rfl, by decide, _, _, _, _, rfl, by decide⟩

/-! ## What was paid -/

variable (d) in
/-- For the proposal `id`, this action has been disbursed, once, and nothing else. -/
def PaidOnce (w : World) (id : U64) (action : Treasury.TreasuryAction) : Prop :=
  ∃ treasury, w.governance.disbursementsOf id = [⟨id, treasury, action⟩] ∧
    (treasury = d.treasury → action ∈ w.treasury.disbursed)

/-- A proposal that was created with an action attached, and is executed, has been paid exactly if
    there was a treasury configured. -/
theorem executed_paid_iff {txs₀ txs : List Tx} {tx₀ : Tx} {id : U64} {action : Treasury.TreasuryAction}
    {p : Governance.Proposal} (hattaches : Attaches d (d.after txs₀) tx₀ id (some action))
    (hp : (d.after (txs₀ ++ tx₀ :: txs)).governance.proposals.lookup id = some p)
    (hstate : p.state = .executed) :
    PaidOnce d (d.after (txs₀ ++ tx₀ :: txs)) id action ↔
      (d.after txs₀).governance.treasuryContract.isSome := by
  obtain ⟨hready, p₀, hp₀, hattached⟩ := hattaches.created
  have hwf := run_wellFormed d (txs₀ ++ [tx₀])
  have htreasury := run_treasuryContract (d := d) hready (tx₀ :: txs)
  have hpaid := run_paid d (txs₀ ++ tx₀ :: txs) id
  have hbooks := (run_accounted d (txs₀ ++ tx₀ :: txs)).sublist
  rw [d.after_concat] at hwf
  rw [d.after_cons] at hp
  obtain ⟨p', hp', hterms⟩ := run_terms hwf hp₀ txs
  obtain rfl := Option.some_inj.1 (hp.symm.trans hp')
  rw [← d.after_cons] at hp
  rw [← d.after_append] at htreasury
  -- What is due is the attached action, if there is a treasury to pay it.
  rw [hp, Option.elim_some, htreasury, Governance.Proposal.due_of_executed hstate
    (by rw [hterms.treasuryAction, hattached]; rfl)] at hpaid
  constructor
  · rintro ⟨treasury, hone, _⟩
    rw [hone] at hpaid
    cases htc : (d.after txs₀).governance.treasuryContract with
    | none =>
      rw [htc] at hpaid
      cases hpaid
    | some t => rfl
  · intro hsome
    obtain ⟨t, ht⟩ := Option.isSome_iff_exists.1 hsome
    rw [ht] at hpaid
    refine ⟨t, hpaid, fun hd => hbooks.subset ?_⟩
    have hmem : (⟨id, t, action⟩ : Governance.Disbursement) ∈
        (d.after (txs₀ ++ tx₀ :: txs)).governance.disbursementsOf id := by
      rw [hpaid]
      exact List.mem_singleton_self _
    exact List.mem_map.2 ⟨_, List.mem_filter.2 ⟨(List.mem_filter.1 hmem).1, decide_eq_true hd⟩, rfl⟩

theorem funded_attaches (treasury : Option Address) (h : treasury = none ∨ treasury = some sample.treasury) :
    Attaches sample (sample.after (funded treasury)) (proposing (some payment)) (.lit 0) (some payment) := by
  rcases h with rfl | rfl
  · exact ⟨by decide, _, _, _, _, _, _, rfl, by decide⟩
  · exact ⟨by decide, _, _, _, _, _, _, rfl, by decide⟩

/-- With a treasury, the payment is made. -/
theorem executed_paid_iff_payment :
    PaidOnce sample (sample.after (funded (some sample.treasury) ++
      proposing (some payment) :: (passing ++ [executing]))) (.lit 0) payment := by
  obtain ⟨p, hp, hstate⟩ := Option.map_eq_some_iff.1 (show ((sample.after
    (funded (some sample.treasury) ++ proposing (some payment) ::
      (passing ++ [executing]))).governance.proposals.lookup (.lit 0)).map (fun p => p.state) =
        some .executed by decide)
  exact (executed_paid_iff (funded_attaches _ (.inr rfl)) hp hstate).2 (by decide)

/-- Without one, the same proposal is executed, and nothing is paid. -/
theorem executed_unpaid :
    Attaches sample (sample.after (funded none)) (proposing (some payment)) (.lit 0) (some payment) ∧
    ∃ p, (sample.after (funded none ++ proposing (some payment) ::
        (passing ++ [executing]))).governance.proposals.lookup (.lit 0) = some p ∧
      p.state = .executed ∧ p.treasuryAction = [payment] ∧
      ((sample.after (funded none ++ proposing (some payment) ::
        (passing ++ [executing]))).token.balance sample.treasury).val = 30 ∧
      ¬PaidOnce sample (sample.after (funded none ++ proposing (some payment) ::
        (passing ++ [executing]))) (.lit 0) payment := by
  obtain ⟨p, hp, hfields⟩ := Option.map_eq_some_iff.1 (show ((sample.after
    (funded none ++ proposing (some payment) ::
      (passing ++ [executing]))).governance.proposals.lookup (.lit 0)).map
        (fun p => (p.state, p.treasuryAction)) = some (.executed, [payment]) by decide)
  obtain ⟨hstate, haction⟩ := Prod.ext_iff.1 hfields
  refine ⟨funded_attaches _ (.inl rfl), p, hp, hstate, haction, by decide, ?_⟩
  rintro ⟨treasury, hone, _⟩
  have hnone : (sample.after (funded none ++ proposing (some payment) ::
      (passing ++ [executing]))).governance.disbursementsOf (.lit 0) = [] := by decide
  rw [hnone] at hone
  cases hone

end CosmosVote.System
