import CosmosVote.Governance.Outcome
import CosmosVote.Token.Conservation

/-!
# The deployed system

The three contracts at their addresses (`Deployment`), their stores and the ledger
(`World`). A step is a transaction (`Tx`): a call of one of the three contracts, or the
ledger moving on. A call of governance may call the token or the treasury, and a call
of the treasury the token; a failed call takes everything back, in all of them.

A contract's address signs nothing: it authorises the calls the contract makes itself
(`Deployment.auth`). Other contracts (`Foreign`) answer and fail as they like: a
foreign voting token, a foreign asset, or a foreign treasury. What they do with their
own tokens is a transaction of its own. None of the three contracts can be re-entered.

* `run_governance`, `run_token`: each contract makes a run of its own, so that what
  holds in its reachable states holds in the system.
-/

namespace CosmosVote.System

open Soroban

/-- Where the contracts are, and the rule of the host. -/
structure Deployment where
  governance : Address
  treasury : Address
  token : Address
  ttl : TtlRule
  governance_ne_treasury : governance ≠ treasury
  governance_ne_token : governance ≠ token
  treasury_ne_token : treasury ≠ token

/-- The ledger and the stores of the three contracts. -/
structure World where
  timestamp : U64
  sequence : U32
  governance : Governance.Store
  treasury : Treasury.Store
  token : Token.Store

/-- The world before any transaction. -/
def World.empty : World where
  timestamp := .lit 0
  sequence := .lit 0
  governance := .empty
  treasury := .empty
  token := .empty

/-- What the calls of contracts outside of the deployment return. -/
structure Foreign where
  token : Address → Governance.TokenView
  transfer : (contract from_ to_ : Address) → I128 → Bool
  disburse : Address → Treasury.TreasuryAction → Bool

inductive Op
  | governance (op : Governance.Op)
  | treasury (op : Treasury.Op)
  | token (op : Token.Op)
  /-- The ledger closes, and time moves on. -/
  | advance (timestamp : U64) (sequence : U32)
  deriving DecidableEq

/-- A transaction: who signs it, and what it calls. -/
structure Tx where
  signers : Address → Bool
  foreign : Foreign
  op : Op

/-- What governance has outside of it: the stores of the other two contracts. -/
structure Funds where
  treasury : Treasury.Store
  token : Token.Store

namespace Deployment

variable (d : Deployment)

/-- The address is that of one of the three contracts. -/
def IsContract (a : Address) : Prop := a = d.governance ∨ a = d.treasury ∨ a = d.token

instance (a : Address) : Decidable (d.IsContract a) := inferInstanceAs (Decidable (_ ∨ _))

/-- The addresses that authorise a call: those that signed, and the contract that makes it. -/
def auth (tx : Tx) (caller : Option Address) (a : Address) : Bool :=
  caller = some a ∨ (tx.signers a ∧ ¬d.IsContract a)

/-- The environment of a call, made by `caller` if it is nested. -/
def hostEnv (w : World) (tx : Tx) (caller : Option Address) : HostEnv where
  timestamp := w.timestamp
  sequence := w.sequence
  auth := d.auth tx caller
  ttl := d.ttl

/-- `transfer` of the contract at an address, as the treasury calls it. -/
def transfer (w : World) (tx : Tx) (contract from_ to_ : Address) (amount : I128)
    (t : Token.Store) : Option Token.Store :=
  if contract = d.token then
    (Token.exec (d.hostEnv w tx (some d.treasury)) (.transfer from_ to_ amount)).leaves t
  -- The treasury is being called itself, and governance has no such function.
  else if d.IsContract contract then none
  else if tx.foreign.transfer contract from_ to_ amount then some t
  else none

/-- The environment of a call of the treasury. -/
def treasuryEnv (w : World) (tx : Tx) (caller : Option Address) : Treasury.Env Token.Store where
  toHostEnv := d.hostEnv w tx caller
  self := d.treasury
  transfer := d.transfer w tx

/-- The answers of the token of the deployment. -/
def tokenView (env : HostEnv) (t : Token.Store) : Governance.TokenView where
  totalSupply := Token.totalSupply.answer t
  balance a := (Token.balance env a).answer t
  balanceAt a ledger := (Token.balanceAt env a ledger).answer t
  getDelegation a := (Token.getDelegation a).answer t

/-- The answers of the contract at an address, as a token. -/
def view (w : World) (tx : Tx) (contract : Address) (o : Funds) : Governance.TokenView :=
  if contract = d.token then tokenView (d.hostEnv w tx (some d.governance)) o.token
  -- Governance is being called itself, and the treasury has no such functions.
  else if d.IsContract contract then ⟨none, fun _ => none, fun _ _ => none, fun _ => none⟩
  else tx.foreign.token contract

/-- `disburse` of the contract at an address, as governance calls it. -/
def disburse (w : World) (tx : Tx) (contract : Address) (action : Treasury.TreasuryAction)
    (o : Funds) : Option Funds :=
  if contract = d.treasury then
    ((Treasury.exec (d.treasuryEnv w tx (some d.governance)) (.disburse action)).leaves
      ⟨o.treasury, o.token⟩).map fun c => ⟨c.store, c.outside⟩
  -- Governance is being called itself, and the token has no such function.
  else if d.IsContract contract then none
  else if tx.foreign.disburse contract action then some o
  else none

/-- The environment of a call of governance. -/
def governanceEnv (w : World) (tx : Tx) : Governance.Env Funds where
  toHostEnv := d.hostEnv w tx none
  token := d.view w tx
  disburse := d.disburse w tx

end Deployment

variable (d : Deployment)

/-- The call that a transaction makes of governance. -/
def governanceInput (w : World) (tx : Tx) (op : Governance.Op) : Governance.Input Funds where
  env := d.governanceEnv w tx
  outside := ⟨w.treasury, w.token⟩
  op := op

/-- The stores, as a call of governance finds them. -/
abbrev World.ctx (w : World) : Ctx Governance.Store Funds := ⟨w.governance, ⟨w.treasury, w.token⟩⟩

/-- The world after a call of governance has left its stores. -/
def World.ofGovernance (w : World) (c : Ctx Governance.Store Funds) : World :=
  { w with governance := c.store, treasury := c.outside.treasury, token := c.outside.token }

/-- The world after a call of the treasury has left its stores. -/
def World.ofTreasury (w : World) (c : Ctx Treasury.Store Token.Store) : World :=
  { w with treasury := c.store, token := c.outside }

/-- What a transaction does. -/
def step (w : World) (tx : Tx) : World :=
  match tx.op with
  | .governance op => w.ofGovernance
    ((Governance.exec (d.governanceEnv w tx) op).commit w.ctx)
  | .treasury op => w.ofTreasury
    ((Treasury.exec (d.treasuryEnv w tx none) op).commit ⟨w.treasury, w.token⟩)
  | .token op => { w with token := Token.step w.token ⟨d.hostEnv w tx none, op⟩ }
  | .advance timestamp sequence =>
    if w.timestamp.val ≤ timestamp.val ∧ w.sequence.val ≤ sequence.val then
      { w with timestamp, sequence }
    else w

/-- The world after the transactions `txs`. -/
def Deployment.after (txs : List Tx) : World := run (step d) World.empty txs

theorem Deployment.after_append (xs ys : List Tx) : d.after (xs ++ ys) = run (step d) (d.after xs) ys :=
  run_append _ _ _ _

theorem Deployment.after_concat (xs : List Tx) (tx : Tx) : d.after (xs ++ [tx]) = step d (d.after xs) tx :=
  run_concat _ _ _ _

theorem Deployment.after_cons (xs : List Tx) (tx : Tx) (ys : List Tx) :
    d.after (xs ++ tx :: ys) = run (step d) (step d (d.after xs) tx) ys := by
  rw [after_append, run_cons]

variable {d} in
/-- What holds at some time, but not at first, is established by a transaction. -/
theorem Deployment.exists_first {P : World → Prop} {txs : List Tx} (hempty : ¬P World.empty)
    (h : P (d.after txs)) :
    ∃ xs tx ys, txs = xs ++ tx :: ys ∧ ¬P (d.after xs) ∧ P (step d (d.after xs) tx) :=
  exists_first_step hempty h

/-! ## Effects -/

/-- What a transaction that succeeds does, and when it does. -/
inductive Effect (w : World) (tx : Tx) : World → Prop
  | governance {op : Governance.Op} {s : Governance.Store} {o : Funds} (hop : tx.op = .governance op)
      (h : Governance.Effect (d.governanceEnv w tx) w.governance ⟨w.treasury, w.token⟩ op s o) :
      Effect w tx { w with governance := s, treasury := o.treasury, token := o.token }
  | initializeTreasury {governance : Address}
      (hop : tx.op = .treasury (.initializeContract governance))
      (hnone : w.treasury.governance = none) :
      Effect w tx { w with treasury := { w.treasury with governance := some governance } }
  | disburse {action : Treasury.TreasuryAction} {governance : Address} {t : Token.Store}
      (hop : tx.op = .treasury (.disburse action)) (hgovernance : w.treasury.governance = some governance)
      (hauth : d.auth tx none governance = true)
      (htransfer : d.transfer w tx (action.asset.contract d.treasury) d.treasury action.recipient
        action.amount w.token = some t) :
      Effect w tx { w with
        treasury := { w.treasury with disbursed := w.treasury.disbursed ++ [action] }
        token := t }
  | token {op : Token.Op} {t : Token.Store} (hop : tx.op = .token op)
      (h : Token.Effect (d.hostEnv w tx none) w.token op t) : Effect w tx { w with token := t }
  | advance {timestamp : U64} {sequence : U32} (hop : tx.op = .advance timestamp sequence)
      (hle : w.timestamp.val ≤ timestamp.val ∧ w.sequence.val ≤ sequence.val) :
      Effect w tx { w with timestamp := timestamp, sequence := sequence }

/-- A transaction either has the effect of its call, which succeeds, or none. -/
theorem step_cases (w : World) (tx : Tx) : Effect d w tx (step d w tx) ∨ step d w tx = w := by
  cases hop : tx.op with
  | governance op =>
    rcases Call.commit_cases (Governance.exec (d.governanceEnv w tx) op) w.ctx with ⟨_, h⟩ | ⟨_, h⟩
    · left
      simp only [step, hop]
      exact .governance hop (Governance.effect_of_exec h)
    · -- What the call has had the treasury do is taken back with it.
      right
      simp only [step, hop]
      rw [h]
      rfl
  | treasury op =>
    rcases Call.commit_cases (Treasury.exec (d.treasuryEnv w tx none) op) ⟨w.treasury, w.token⟩ with
      ⟨_, h⟩ | ⟨_, h⟩
    · left
      simp only [step, hop]
      cases op with
      | initializeContract governance =>
        obtain ⟨hnone, hc⟩ := Treasury.run_initializeContract_ok.1 h
        rw [← hc]
        exact .initializeTreasury hop hnone
      | disburse action =>
        obtain ⟨governance, hgovernance, hauth, t, htransfer, hc⟩ := Treasury.run_disburse_ok.1 h
        rw [← hc]
        exact .disburse hop hgovernance hauth htransfer
    · right
      simp only [step, hop]
      rw [h]
      rfl
  | token op =>
    rcases Token.step_cases w.token ⟨d.hostEnv w tx none, op⟩ with h | h
    · left
      simp only [step, hop]
      exact .token hop h
    · right
      simp only [step, hop]
      rw [h]
  | advance timestamp sequence =>
    by_cases hle : w.timestamp.val ≤ timestamp.val ∧ w.sequence.val ≤ sequence.val
    · left
      simp only [step, hop, if_pos hle]
      exact .advance hop hle
    · right
      simp only [step, hop, if_neg hle]

/-- To show that every transaction keeps a property, it is enough to look at the effects. -/
theorem step_invariant {I : World → Prop} {w : World} {tx : Tx} (hw : I w)
    (h : ∀ w', Effect d w tx w' → I w') : I (step d w tx) := by
  rcases step_cases d w tx with he | he
  · exact h _ he
  · rwa [he]

/-- Time does not go back. -/
theorem step_timestamp_le (w : World) (tx : Tx) : w.timestamp.val ≤ (step d w tx).timestamp.val := by
  refine step_invariant (I := fun w' : World => w.timestamp.val ≤ w'.timestamp.val) d le_rfl fun w' he => ?_
  cases he with
  | advance _ hle => exact hle.1
  | _ => exact le_rfl

/-! ## Nested calls -/

variable {d} {w w' : World} {tx : Tx}

/-- Whatever the ledger asked for, the token answers with the balance of the moment. -/
theorem view_balanceAt (w : World) (tx : Tx) (o : Funds) (voter : Address) (ledger : U64) :
    (d.view w tx d.token o).balanceAt voter ledger = some (o.token.balance voter) := by
  rw [Deployment.view, if_pos rfl]
  exact Call.answer_of_ok (Token.Storage.run_balance _ voter o.token)

/-- The token answers who a voter has delegated to. -/
theorem view_getDelegation (w : World) (tx : Tx) (o : Funds) (voter : Address) :
    (d.view w tx d.token o).getDelegation voter = some (o.token.delegations.lookup voter) := by
  rw [Deployment.view, if_pos rfl]
  rfl

/-- A transfer of the token of the deployment is a call of it. -/
theorem transfer_token {from_ to_ : Address} {amount : I128} {t t' : Token.Store} :
    d.transfer w tx d.token from_ to_ amount t = some t' ↔
      Token.Effect (d.hostEnv w tx (some d.treasury)) t (.transfer from_ to_ amount) t' := by
  rw [Deployment.transfer, if_pos rfl, Call.leaves_eq_some]
  exact ⟨fun ⟨_, h⟩ => Token.exec_ok_iff.1 h, fun h => ⟨(), Token.exec_ok_iff.2 h⟩⟩

/-- A transfer of another asset is none of the token of the deployment. -/
theorem transfer_foreign {contract from_ to_ : Address} {amount : I128} {t t' : Token.Store}
    (hne : contract ≠ d.token) (h : d.transfer w tx contract from_ to_ amount t = some t') :
    ¬d.IsContract contract ∧ t' = t := by
  rw [Deployment.transfer, if_neg hne] at h
  split at h
  · cases h
  split at h
  · rename_i hforeign _
    exact ⟨hforeign, (Option.some_inj.1 h).symm⟩
  · cases h

/-- A disbursement of the treasury of the deployment is made on the word of its governance. -/
theorem disburse_treasury {action : Treasury.TreasuryAction} {o o' : Funds} :
    d.disburse w tx d.treasury action o = some o' ↔
      ∃ governance, o.treasury.governance = some governance ∧
        d.auth tx (some d.governance) governance = true ∧
        ∃ t, d.transfer w tx (action.asset.contract d.treasury) d.treasury action.recipient
            action.amount o.token = some t ∧
          ⟨{ o.treasury with disbursed := o.treasury.disbursed ++ [action] }, t⟩ = o' := by
  rw [Deployment.disburse, if_pos rfl, Option.map_eq_some_iff]
  constructor
  · rintro ⟨c, hc, rfl⟩
    obtain ⟨_, hrun⟩ := Call.leaves_eq_some.1 hc
    obtain ⟨governance, hgovernance, hauth, t, htransfer, rfl⟩ := Treasury.run_disburse_ok.1 hrun
    exact ⟨governance, hgovernance, hauth, t, htransfer, rfl⟩
  · rintro ⟨governance, hgovernance, hauth, t, htransfer, rfl⟩
    refine ⟨⟨_, t⟩, Call.leaves_eq_some.2 ⟨(), ?_⟩, rfl⟩
    exact Treasury.run_disburse_ok.2 ⟨governance, hgovernance, hauth, t, htransfer, rfl⟩

/-- A disbursement of another treasury changes nothing here. -/
theorem disburse_foreign {treasury : Address} {action : Treasury.TreasuryAction} {o o' : Funds}
    (hne : treasury ≠ d.treasury) (h : d.disburse w tx treasury action o = some o') : o' = o := by
  rw [Deployment.disburse, if_neg hne] at h
  split at h
  · cases h
  split at h
  · exact (Option.some_inj.1 h).symm
  · cases h

/-! ## The runs of the contracts -/

/-- Each transaction makes at most one call of governance. -/
theorem step_governance (d : Deployment) (w : World) (tx : Tx) :
    (step d w tx).governance = w.governance ∨ ∃ op o, tx.op = .governance op ∧
      Governance.Effect (d.governanceEnv w tx) w.governance ⟨w.treasury, w.token⟩ op
        (step d w tx).governance o := by
  rcases step_cases d w tx with he | he
  · generalize step d w tx = w' at he
    cases he with
    | governance hop h => exact .inr ⟨_, _, hop, h⟩
    | initializeTreasury => exact .inl rfl
    | disburse => exact .inl rfl
    | token => exact .inl rfl
    | advance => exact .inl rfl
  · exact .inl (by rw [he])

/-- The calls of the token that a transaction may make: its own, or a transfer of the treasury. -/
inductive TokenCall (d : Deployment) (w : World) (tx : Tx) : Token.Input → Prop
  | direct {op : Token.Op} (hop : tx.op = .token op) : TokenCall d w tx ⟨d.hostEnv w tx none, op⟩
  | nested {from_ to_ : Address} {amount : I128} :
      TokenCall d w tx ⟨d.hostEnv w tx (some d.treasury), .transfer from_ to_ amount⟩

theorem transfer_call {contract from_ to_ : Address} {amount : I128} {t t' : Token.Store}
    (h : d.transfer w tx contract from_ to_ amount t = some t') :
    t' = t ∨ ∃ c, TokenCall d w tx c ∧ Token.Effect c.env t c.op t' := by
  by_cases hne : contract = d.token
  · rw [hne, transfer_token] at h
    exact .inr ⟨_, .nested, h⟩
  · exact .inl (transfer_foreign hne h).2

theorem disburse_call {treasury : Address} {action : Treasury.TreasuryAction} {o o' : Funds}
    (h : d.disburse w tx treasury action o = some o') :
    o'.token = o.token ∨ ∃ c, TokenCall d w tx c ∧ Token.Effect c.env o.token c.op o'.token := by
  by_cases hne : treasury = d.treasury
  · rw [hne, disburse_treasury] at h
    obtain ⟨_, _, _, t, htransfer, rfl⟩ := h
    exact transfer_call htransfer
  · exact .inl (by rw [disburse_foreign hne h])

/-- Each transaction makes at most one call of the token. -/
theorem step_token (d : Deployment) (w : World) (tx : Tx) : (step d w tx).token = w.token ∨
    ∃ c, TokenCall d w tx c ∧ Token.Effect c.env w.token c.op (step d w tx).token := by
  rcases step_cases d w tx with he | he
  · generalize step d w tx = w' at he
    cases he with
    | governance hop h =>
      rcases h.outside with ⟨ho, _⟩ | ⟨x, hx⟩
      · exact .inl (by rw [ho])
      · exact disburse_call hx.disburse
    | initializeTreasury => exact .inl rfl
    | disburse _ _ _ htransfer => exact transfer_call htransfer
    | token hop h => exact .inr ⟨_, .direct hop, h⟩
    | advance => exact .inl rfl
  · exact .inl (by rw [he])

variable (d)

/-- In a run of the system, governance makes a run of its own. -/
theorem run_governance (w : World) (txs : List Tx) : ∃ is : List (Governance.Input Funds),
    (run (step d) w txs).governance = run Governance.step w.governance is := by
  refine run_simulates World.governance (fun w tx => ?_) w txs
  rcases step_governance d w tx with h | ⟨op, _, _, h⟩
  · exact ⟨[], h⟩
  · exact ⟨[governanceInput d w tx op], (Governance.step_of_effect h).symm⟩

/-- In a run of the system, the token makes a run of its own. -/
theorem run_token (txs : List Tx) :
    ∃ cs, (d.after txs).token = run Token.step Token.Store.empty cs := by
  refine run_simulates World.token (fun w tx => ?_) World.empty txs
  rcases step_token d w tx with h | ⟨c, _, h⟩
  · exact ⟨[], h⟩
  · exact ⟨[c], (Token.step_of_effect h).symm⟩

/-- What holds of governance in all its runs holds of it in those of the system. -/
theorem after_governance {I : Governance.Store → Prop}
    (h : ∀ is : List (Governance.Input Funds), I (run Governance.step Governance.Store.empty is))
    (txs : List Tx) : I (d.after txs).governance := by
  obtain ⟨is, his⟩ := run_governance d World.empty txs
  rw [Deployment.after, his]
  exact h is

theorem run_wellFormed (txs : List Tx) : Governance.WellFormed (d.after txs).governance :=
  after_governance d Governance.run_wellFormed txs

theorem run_correspondence (txs : List Tx) : Governance.TallyCorrespondence (d.after txs).governance :=
  after_governance d Governance.run_correspondence txs

theorem run_conserved (txs : List Tx) : Token.Conserved (d.after txs).token := by
  obtain ⟨cs, hcs⟩ := run_token d txs
  rw [hcs]
  exact Token.run_conserved cs

/-- If the transaction initialises the token, it is not with a negative supply. -/
def SupplyNonneg (tx : Tx) : Prop := ∀ op, tx.op = .token op → op.SupplyNonneg

theorem step_nonneg {tx : Tx} (hsupply : SupplyNonneg tx) (hw : Token.Nonneg w.token) :
    Token.Nonneg (step d w tx).token := by
  rcases step_token d w tx with h | ⟨c, hc, h⟩
  · rwa [h]
  · refine h.nonneg ?_ hw
    cases hc with
    | direct hop => exact hsupply _ hop
    | nested => trivial

/-- If the token is not initialised with a negative supply, no balance is ever negative. -/
theorem run_nonneg {txs : List Tx} (hsupply : ∀ tx ∈ txs, SupplyNonneg tx) :
    Token.Nonneg (d.after txs).token := by
  refine run_invariant_of (P := fun _ tx => SupplyNonneg tx) (I := fun w : World => Token.Nonneg w.token)
    (fun w tx h hw => step_nonneg d h hw) ?_ fun _ => le_rfl
  rintro xs tx ys rfl
  exact hsupply tx (by simp)

/-! ## Calls of governance -/

/-- The transaction is a call of governance that succeeds. -/
def Calls (w : World) (tx : Tx) (op : Governance.Op) : Prop :=
  tx.op = .governance op ∧ Governance.Succeeds w.governance (governanceInput d w tx op)

theorem Calls.effect {d : Deployment} {w : World} {tx : Tx} {op : Governance.Op} (h : Calls d w tx op) :
    ∃ o, Governance.Effect (d.governanceEnv w tx) w.governance ⟨w.treasury, w.token⟩ op
      (step d w tx).governance o := by
  obtain ⟨hop, o, he⟩ := h.imp_right Governance.Succeeds.effect
  refine ⟨o, ?_⟩
  have hstep : (step d w tx).governance = Governance.step w.governance (governanceInput d w tx op) := by
    rw [step, hop]
    rfl
  rw [hstep]
  exact he

theorem Calls.of_effect {d : Deployment} {w : World} {tx : Tx} {op : Governance.Op}
    {s : Governance.Store} {o : Funds}
    (hop : tx.op = .governance op)
    (h : Governance.Effect (d.governanceEnv w tx) w.governance ⟨w.treasury, w.token⟩ op s o) :
    Calls d w tx op := by
  refine ⟨hop, ?_⟩
  rw [Governance.Succeeds, governanceInput, Governance.exec_of_effect h]

/-- What a call of governance that succeeds leaves. -/
theorem step_of_effect {d : Deployment} {w : World} {tx : Tx} {op : Governance.Op}
    {s : Governance.Store} {o : Funds} (hop : tx.op = .governance op)
    (h : Governance.Effect (d.governanceEnv w tx) w.governance ⟨w.treasury, w.token⟩ op s o) :
    step d w tx = { w with governance := s, treasury := o.treasury, token := o.token } := by
  rw [step, hop]
  dsimp only
  rw [Call.commit_of_ok (Governance.exec_of_effect h)]
  rfl

/-! ## A small deployment -/

/-- Three contracts, on a host that does not mind extending what does not exist. -/
def sample : Deployment where
  governance := .contract 1
  treasury := .contract 2
  token := .contract 3
  ttl := .ignored
  governance_ne_treasury := by decide
  governance_ne_token := by decide
  treasury_ne_token := by decide

/-- No other contract answers. -/
def Foreign.silent : Foreign where
  token _ := ⟨none, fun _ => none, fun _ _ => none, fun _ => none⟩
  transfer _ _ _ _ := false
  disburse _ _ := false

/-- A transaction that everyone has signed. -/
def signed (op : Op) : Tx := ⟨fun _ => true, .silent, op⟩

/-- The three contracts are initialised: the token with `supply`, in the hands of the account `1`, and
    governance with the account `9` as its admin, and maybe with a treasury. -/
def opening (supply : I128) (treasury : Option Address) : List Tx :=
  [signed (.token (.initializeContract (.account 1) supply [86] [86] (.lit 7))),
    signed (.treasury (.initializeContract sample.governance)),
    signed (.governance (.initializeContract (.account 9) sample.token (.lit 0) (.lit 0) (.lit 0) false
      treasury))]

/-- The account `1` makes a proposal, with a voting period of a minute. -/
def proposing (action : Option Treasury.TreasuryAction) : Tx :=
  signed (.governance (.createProposal (.account 1) [84] [68] (.lit 1) (.lit 60) none action))

/-- The contracts are initialised, and the first proposal is made. -/
def proposed : List Tx := opening (.lit 100) none ++ [proposing none]

/-- A vote on the first proposal. -/
def voting (voter : Address) (vote : Governance.Vote) : Tx :=
  signed (.governance (.castVote voter (.lit 0) vote))

end CosmosVote.System
