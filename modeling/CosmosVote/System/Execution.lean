import CosmosVote.System.Disbursement

/-!
# What can be executed

`create_proposal` takes every action that is to be attached to a proposal, but not every action
can be executed when the proposal has passed. The treasury asks for the native asset at its own
address, which no contract can call, and the token refuses to transfer nothing, or less.

* `ReadyToExecute`: everything but the action is as it has to be;
* `Pays`: the amount goes from the treasury to the recipient, and no other balance changes;
* `execution_iff`: an attached action can be executed, and is paid, exactly if it is a positive
  amount of the token, which the balance of its recipient has room for.
-/

namespace CosmosVote.System

open Soroban

variable {d : Deployment} {w : World} {tx : Tx} {id : U64} {admin : Address}
  {action : Treasury.TreasuryAction}

variable (d) in
/-- The admin has signed the execution of a passed proposal; the treasury is wired up, and holds the
    amount of its asset, which is the native one or the token, which is not paused. -/
structure ReadyToExecute (w : World) (tx : Tx) (id : U64) (admin : Address)
    (action : Treasury.TreasuryAction) : Prop where
  op_eq : tx.op = .governance (.execute admin id)
  auth : d.auth tx none admin = true
  admin : w.governance.admin = some admin
  proposal : ∃ p, w.governance.proposals.lookup id = some p ∧ p.state = .passed
  wired : Wired d w
  asset : action.asset = .native ∨ action.asset = .token d.token
  paused : w.token.paused = false
  funds : action.asset = .token d.token → action.amount.val ≤ (w.token.balance d.treasury).val

variable (d) in
/-- The amount is moved from the treasury to the recipient. -/
def Pays (w w' : World) (action : Treasury.TreasuryAction) : Prop :=
  ∀ a, (w'.token.balance a).val =
    (w.token.balance a).val - (if a = d.treasury then action.amount.val else 0) +
      if a = action.recipient then action.amount.val else 0

variable (d) in
/-- The recipient is the treasury itself, or has room for the amount. -/
def RoomFor (w : World) (action : Treasury.TreasuryAction) : Prop :=
  d.treasury = action.recipient ∨
    ∃ credited : I128, (w.token.balance action.recipient).val + action.amount.val = credited.val

/-- A contract that makes a call authorises it. -/
theorem auth_caller (tx : Tx) (a : Address) : d.auth tx (some a) a = true := by
  rw [Deployment.auth]
  simp

/-- What the treasury can disburse. -/
theorem disburse_iff (hgovernance : w.treasury.governance = some d.governance)
    (hasset : action.asset = .native ∨ action.asset = .token d.token) (hpaused : w.token.paused = false)
    (hfunds : action.asset = .token d.token → action.amount.val ≤ (w.token.balance d.treasury).val) :
    (∃ o, d.disburse w tx d.treasury action ⟨w.treasury, w.token⟩ = some o) ↔
      0 < action.amount.val ∧ action.asset = .token d.token ∧ RoomFor d w action := by
  constructor
  · rintro ⟨o, hdisburse⟩
    obtain ⟨_, _, _, t, htransfer, _⟩ := disburse_treasury.1 hdisburse
    rcases hasset with hnative | htoken
    · -- The native asset is asked for at the treasury, which is being called.
      rw [hnative, Treasury.Asset.contract] at htransfer
      exact absurd (.inr (.inl rfl)) (transfer_foreign d.treasury_ne_token htransfer).1
    · rw [htoken, Treasury.Asset.contract, transfer_token] at htransfer
      obtain ⟨_, _, hpos, _, hroom⟩ := Token.transfer_iff.1 ⟨t, htransfer⟩
      exact ⟨hpos, htoken, hroom⟩
  · rintro ⟨hpos, htoken, hroom⟩
    obtain ⟨t, ht⟩ : ∃ t, Token.Effect (d.hostEnv w tx (some d.treasury)) w.token
        (.transfer d.treasury action.recipient action.amount) t :=
      Token.transfer_iff.2 ⟨auth_caller tx d.treasury, hpaused, hpos, hfunds htoken, hroom⟩
    refine ⟨_, disburse_treasury.2 ⟨d.governance, hgovernance, auth_caller tx d.governance, t, ?_, rfl⟩⟩
    rw [htoken, Treasury.Asset.contract, transfer_token]
    exact ht

/-- A disbursement of the token pays what it is about. -/
theorem pays_of_disburse {o : Funds} {s : Governance.Store}
    (htoken : action.asset = .token d.token)
    (h : d.disburse w tx d.treasury action ⟨w.treasury, w.token⟩ = some o) :
    Pays d w { w with governance := s, treasury := o.treasury, token := o.token } action := by
  obtain ⟨_, _, _, t, htransfer, rfl⟩ := disburse_treasury.1 h
  rw [htoken, Treasury.Asset.contract, transfer_token] at htransfer
  exact htransfer.transferred

/-- A passed proposal with an attached action can be executed if the treasury can disburse it. -/
theorem ReadyToExecute.calls_iff (h : ReadyToExecute d w tx id admin action)
    {p : Governance.Proposal} (hp : w.governance.proposals.lookup id = some p)
    (hattached : p.treasuryAction = [action]) :
    Calls d w tx (.execute admin id) ∧ Pays d w (step d w tx) action ↔
      ∃ o, d.disburse w tx d.treasury action ⟨w.treasury, w.token⟩ = some o := by
  obtain ⟨q, hq, hstate⟩ := h.proposal
  obtain rfl := Option.some_inj.1 (hp.symm.trans hq)
  constructor
  · rintro ⟨hcalls, _⟩
    obtain ⟨o, he⟩ := hcalls.effect
    generalize (step d w tx).governance = s' at he
    cases he with
    | execute _ _ hq _ hnone =>
      obtain rfl := Option.some_inj.1 (hp.symm.trans hq)
      rw [hattached, h.wired.treasury] at hnone
      rcases hnone with hnone | hnone <;> cases hnone
    | executeDisburse _ _ hq _ haction htreasury hdisburse =>
      obtain rfl := Option.some_inj.1 (hp.symm.trans hq)
      obtain rfl := Option.some_inj.1 (h.wired.treasury.symm.trans htreasury)
      rw [hattached] at haction
      obtain rfl := Option.some_inj.1 haction
      exact ⟨_, hdisburse⟩
  · rintro ⟨o, hdisburse⟩
    have he : Governance.Effect (d.governanceEnv w tx) w.governance ⟨w.treasury, w.token⟩
        (.execute admin id) _ o :=
      .executeDisburse h.auth h.admin hp hstate (by rw [hattached]; rfl) h.wired.treasury hdisburse
    refine ⟨.of_effect h.op_eq he, ?_⟩
    rw [step_of_effect h.op_eq he]
    obtain ⟨_, htoken, _⟩ := (disburse_iff h.wired.governance h.asset h.paused h.funds).1 ⟨o, hdisburse⟩
    exact pays_of_disburse htoken hdisburse

/-- If the token is not initialised with a negative supply, everyone has room for what the treasury
    holds. -/
theorem run_roomFor {txs : List Tx} (hsupply : ∀ tx ∈ txs, SupplyNonneg tx)
    (hfunds : action.amount.val ≤ ((d.after txs).token.balance d.treasury).val) :
    RoomFor d (d.after txs) action := by
  have hnonneg := run_nonneg d hsupply
  by_cases hne : d.treasury = action.recipient
  · exact .inl hne
  · have hle := (run_conserved d txs).balance_add_le hnonneg hne
    have hlo := action.amount.lo_le
    have hhi := (d.after txs).token.totalSupply.le_hi
    have hrecipient := hnonneg action.recipient
    obtain ⟨credited, _, hcredited⟩ : ∃ x : I128,
        ((d.after txs).token.balance action.recipient).checkedAdd action.amount = some x ∧ _ :=
      IntRange.exists_fit (by omega) (by omega)
    exact .inr ⟨credited, hcredited.symm⟩

/-- A proposal was created with an action attached, and passed, and everything else is as it has to be.
    The execution then succeeds, and moves the amount from the treasury to the recipient, exactly if
    the action is a positive amount of the token, and the recipient has room for it; and the recipient
    has, if the token was not initialised with a negative supply. -/
theorem execution_iff {txs₀ txs : List Tx} {tx₀ : Tx}
    (hattaches : Attaches d (d.after txs₀) tx₀ id (some action))
    (h : ReadyToExecute d (d.after (txs₀ ++ tx₀ :: txs)) tx id admin action) :
    (Calls d (d.after (txs₀ ++ tx₀ :: txs)) tx (.execute admin id) ∧
        Pays d (d.after (txs₀ ++ tx₀ :: txs)) (step d (d.after (txs₀ ++ tx₀ :: txs)) tx) action ↔
      0 < action.amount.val ∧ action.asset = .token d.token ∧
        RoomFor d (d.after (txs₀ ++ tx₀ :: txs)) action) ∧
    ((∀ t ∈ txs₀ ++ tx₀ :: txs, SupplyNonneg t) → action.asset = .token d.token →
      RoomFor d (d.after (txs₀ ++ tx₀ :: txs)) action) := by
  -- What was attached is still attached.
  obtain ⟨_, p₀, hp₀, hattached⟩ := hattaches.created
  have hwf := run_wellFormed d (txs₀ ++ [tx₀])
  rw [d.after_concat] at hwf
  obtain ⟨p, hp, hterms⟩ := run_terms hwf hp₀ txs
  rw [← d.after_cons] at hp
  refine ⟨(h.calls_iff hp (hterms.treasuryAction.trans hattached)).trans
    (disburse_iff h.wired.governance h.asset h.paused h.funds), ?_⟩
  intro hsupply htoken
  exact run_roomFor hsupply (h.funds htoken)

/-- The contracts are initialised, the treasury is given thirty tokens, and a proposal with an action
    attached passes. -/
def passed (action : Treasury.TreasuryAction) : List Tx :=
  funded (some sample.treasury) ++ proposing (some action) :: passing

/-- The payment of ten tokens is made. -/
theorem execution_iff_payment :
    Calls sample (sample.after (passed payment)) executing (.execute (.account 9) (.lit 0)) ∧
      Pays sample (sample.after (passed payment)) (step sample (sample.after (passed payment)) executing)
        payment := by
  refine (execution_iff (funded_attaches _ (.inr rfl)) ?_).1.2 ⟨by decide, rfl, .inr ⟨.lit 10, by decide⟩⟩
  exact ⟨rfl, by decide, by decide, Option.map_eq_some_iff.1
    (show Option.map (fun p : Governance.Proposal => p.state) _ = some .passed by decide),
    ⟨by decide, by decide⟩, .inr rfl, by decide, fun _ => by decide⟩

/-- Ten of the native asset for the account `5`. -/
def nativePayment : Treasury.TreasuryAction := ⟨.account 5, .lit 10, .native⟩

/-- No tokens for the account `5`. -/
def emptyPayment : Treasury.TreasuryAction := ⟨.account 5, .lit 0, .token sample.token⟩

/-- Both are accepted and pass, and neither can be executed. -/
theorem accepted_not_executable :
    (Attaches sample (sample.after (funded (some sample.treasury))) (proposing (some nativePayment)) (.lit 0)
        (some nativePayment) ∧
      ReadyToExecute sample (sample.after (passed nativePayment)) executing (.lit 0) (.account 9)
        nativePayment ∧
      ¬Calls sample (sample.after (passed nativePayment)) executing (.execute (.account 9) (.lit 0))) ∧
    Attaches sample (sample.after (funded (some sample.treasury))) (proposing (some emptyPayment)) (.lit 0)
        (some emptyPayment) ∧
      ReadyToExecute sample (sample.after (passed emptyPayment)) executing (.lit 0) (.account 9)
        emptyPayment ∧
      ¬Calls sample (sample.after (passed emptyPayment)) executing (.execute (.account 9) (.lit 0)) := by
  refine ⟨⟨⟨by decide, _, _, _, _, _, _, rfl, by decide⟩, ?_, fun h => absurd h.2 (by decide)⟩,
    ⟨by decide, _, _, _, _, _, _, rfl, by decide⟩, ?_, fun h => absurd h.2 (by decide)⟩
  · exact ⟨rfl, by decide, by decide, Option.map_eq_some_iff.1
      (show Option.map (fun p : Governance.Proposal => p.state) _ = some .passed by decide),
      ⟨by decide, by decide⟩, .inl rfl, by decide, fun h => by cases h⟩
  · exact ⟨rfl, by decide, by decide, Option.map_eq_some_iff.1
      (show Option.map (fun p : Governance.Proposal => p.state) _ = some .passed by decide),
      ⟨by decide, by decide⟩, .inr rfl, by decide, fun _ => by decide⟩

end CosmosVote.System
