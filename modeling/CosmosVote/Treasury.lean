import CosmosVote.Soroban.Nested

/-!
# The treasury contract

The treasury holds the funds of the organisation, in its balances of other contracts,
and pays them out on the word of one address, its governance (`disburse`).

What is outside of the treasury (`ω`) and how a token moves funds in it
(`Env.transfer`) are parameters: the treasury asks a token for a transfer from its
own address, and its call fails if the token's does.
-/

namespace CosmosVote.Treasury

open Soroban

/-- An asset: the native one, or the token at an address. -/
inductive Asset
  | native
  | token (address : Address)
  deriving DecidableEq

/-- A disbursement. -/
structure TreasuryAction where
  recipient : Address
  amount : I128
  asset : Asset
  deriving DecidableEq

/-- What the treasury stores, and the disbursements it has made, in order; the event it publishes
    for each is its recipient and amount. -/
structure Store where
  governance : Option Address
  disbursed : List TreasuryAction
  deriving DecidableEq

/-- The treasury before any call. -/
def Store.empty : Store := ⟨none, []⟩

/-- The events published. -/
def Store.events (s : Store) : List (Address × I128) :=
  s.disbursed.map fun action => (action.recipient, action.amount)

variable {ω : Type}

/-- The environment of a call of the treasury. -/
structure Env (ω : Type) extends HostEnv where
  /-- `env.current_contract_address()` -/
  self : Address
  /-- `transfer(from, to, amount)` of the contract at an address. -/
  transfer : (contract from_ to_ : Address) → I128 → ω → Option ω

/-- A call of the treasury contract, which has no errors of its own. -/
abbrev TreasuryCall (ω : Type) := Call (Ctx Store ω) Empty

/-- `initialize`: it needs no authorisation. -/
def initializeContract (governance : Address) : TreasuryCall ω Unit := do
  let c ← Call.get
  if c.store.governance.isSome then
    Call.abort .panicked
  else
    Call.update fun s => { s with governance := some governance }

/-- The native asset is asked for at the address of the treasury itself. -/
def disburse (action : TreasuryAction) (env : Env ω) : TreasuryCall ω Unit := do
  let c ← Call.get
  let governance ← Call.orTrap c.store.governance .unwrapNone
  env.requireAuth governance
  match action.asset with
  | .native => Call.invoke (env.transfer env.self env.self action.recipient action.amount)
  | .token addr => Call.invoke (env.transfer addr env.self action.recipient action.amount)
  Call.update fun s => { s with disbursed := s.disbursed ++ [action] }

/-- The calls of the treasury that may write. -/
inductive Op
  | initializeContract (governance : Address)
  | disburse (action : TreasuryAction)
  deriving DecidableEq

/-- The entry point of a call. -/
def exec (env : Env ω) : Op → TreasuryCall ω Unit
  | .initializeContract governance => initializeContract governance
  | .disburse action => disburse action env

/-- The contract whose tokens the asset is. -/
def Asset.contract (self : Address) : Asset → Address
  | .native => self
  | .token address => address

/-- The treasury can be initialised once. -/
theorem run_initializeContract_ok {governance : Address} {c c' : Ctx Store ω} {u : Unit} :
    (initializeContract governance : TreasuryCall ω Unit).run c = (.ok u, c') ↔
      c.store.governance = none ∧
        ⟨{ c.store with governance := some governance }, c.outside⟩ = c' := by
  simp [initializeContract]

/-- A disbursement is made on the word of the governance, by a transfer out of the treasury. -/
theorem run_disburse_ok {action : TreasuryAction} {env : Env ω} {c c' : Ctx Store ω} {u : Unit} :
    (disburse action env).run c = (.ok u, c') ↔
      ∃ governance, c.store.governance = some governance ∧ env.auth governance = true ∧
        ∃ o, env.transfer (action.asset.contract env.self) env.self action.recipient action.amount
            c.outside = some o ∧
          ⟨{ c.store with disbursed := c.store.disbursed ++ [action] }, o⟩ = c' := by
  cases h : action.asset <;> simp [disburse, h, Asset.contract]

end CosmosVote.Treasury
