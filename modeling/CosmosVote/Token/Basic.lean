import CosmosVote.Soroban.Entries
import CosmosVote.Soroban.Env

/-!
# The token contract

The SEP-41 governance token: balances, allowances, delegations, minting and burning
by the admin, a two-step admin transfer and a pause switch.

* `Store` is what the contract stores, with the events it has published;
* `Storage` are the storage accessors, and the simp lemmas on them say that they only
  read or write their field: extending the time to live of an entry never aborts,
  because the token only does it for entries that exist.

The entry points are in `CosmosVote.Token.Contract`.

An instance entry that is missing reads as its default, so the store holds the default.
-/

namespace CosmosVote.Token

open Soroban

/-- The errors of the token contract. -/
inductive ContractError
  | alreadyInitialized
  | notInitialized
  | notAdmin
  | invalidNewAdmin
  | invalidAmount
  | insufficientBalance
  | allowanceExceeded
  | cannotDelegateSelf
  | alreadyDelegating
  | notDelegating
  | invalidExpiry
  | noPendingAdmin
  | notPendingAdmin
  | contractPaused
  | notPaused
  deriving DecidableEq

/-- The events of the token contract. -/
inductive Event
  | initialized (admin : Address) (supply : I128)
  | transfer (from_ to_ : Address) (amount : I128)
  | approval (owner spender : Address) (amount : I128)
  | minted (admin to_ : Address) (amount : I128)
  | burned (admin from_ : Address) (amount : I128)
  | adminTransferProposed (current pending : Address)
  | adminTransferAccepted (previous new : Address)
  | delegated (owner delegate : Address)
  | undelegated (owner : Address)
  | paused (admin : Address)
  | unpaused (admin : Address)
  | upgraded (newWasmHash : ℕ)
  deriving DecidableEq

/-- The temporary entry of an allowance. -/
structure Allowance where
  amount : I128
  expiryLedger : U32
  deriving DecidableEq

/-- What the token contract stores, and the events it has published. -/
structure Store where
  admin : Option Address
  pendingAdmin : Option Address
  totalSupply : I128
  initialized : Bool
  version : ℕ × ℕ × ℕ
  name : Text
  symbol : Text
  decimals : U32
  paused : Bool
  balances : Entries Address I128
  /-- From each delegator to their delegate. -/
  delegations : Entries Address Address
  /-- By owner and spender. -/
  allowances : Entries (Address × Address) Allowance
  events : List Event

/-- The contract before any call. -/
def Store.empty : Store where
  admin := none
  pendingAdmin := none
  totalSupply := .lit 0
  initialized := false
  version := (1, 0, 0)
  name := []
  symbol := []
  decimals := .lit 0
  paused := false
  balances := ∅
  delegations := ∅
  allowances := ∅
  events := []

namespace Store

/-- The balance read for `owner`: `0` without an entry. -/
def balance (s : Store) (owner : Address) : I128 := (s.balances.lookup owner).getD (.lit 0)

/-- The allowance read for `owner` and `spender` at the ledger `sequence`. -/
def allowance (s : Store) (sequence : U32) (owner spender : Address) : Option Allowance :=
  (s.allowances.lookup (owner, spender)).filter fun data =>
    ¬(sequence.val > data.expiryLedger.val ∨ data.amount.val ≤ 0)

/-- The sum of all stored balances. -/
def held (s : Store) : ℤ := s.balances.sum fun _ v => v.val

/-- Write the total supply. -/
def setTotalSupply (s : Store) (v : I128) : Store := { s with totalSupply := v }

/-- Write a balance. -/
def setBalance (s : Store) (owner : Address) (v : I128) : Store :=
  { s with balances := s.balances.insert owner v }

/-- Write an allowance. -/
def setAllowance (s : Store) (owner spender : Address) (a : Allowance) : Store :=
  { s with allowances := s.allowances.insert (owner, spender) a }

/-- Publish an event. -/
def emit (s : Store) (e : Event) : Store := { s with events := s.events ++ [e] }

variable (s : Store) (a b : Address) (v : I128) (e : Event)

@[simp]
theorem balance_setBalance : (s.setBalance a v).balance b = if b = a then v else s.balance b := by
  rw [balance, setBalance, Finmap.lookup_insert_eq_ite]
  split <;> rfl

@[simp]
theorem balance_setTotalSupply : (s.setTotalSupply v).balance b = s.balance b := rfl

@[simp]
theorem balance_emit : (s.emit e).balance b = s.balance b := rfl

@[simp]
theorem balance_setAllowance (spender : Address) (x : Allowance) :
    (s.setAllowance a spender x).balance b = s.balance b := rfl

/-- Writing a balance replaces the old one in the sum. -/
@[simp]
theorem held_setBalance :
    (s.setBalance a v).held = s.held - (s.balance a).val + v.val := by
  rw [held, setBalance, Finmap.sum_insert, held, balance, Finmap.termAt]
  cases s.balances.lookup a <;> simp

@[simp]
theorem held_setTotalSupply : (s.setTotalSupply v).held = s.held := rfl

@[simp]
theorem held_emit : (s.emit e).held = s.held := rfl

@[simp]
theorem held_setAllowance (spender : Address) (x : Allowance) :
    (s.setAllowance a spender x).held = s.held := rfl

end Store

/-- A call of the token contract. -/
abbrev TokenCall := Call Store ContractError

/-! ## Storage -/

namespace Storage

variable (env : HostEnv)

/-- `TokenStorage::admin` -/
def admin : TokenCall Address := do
  let s ← Call.get
  Call.orTrap s.admin .unwrapNone

/-- `TokenStorage::balance`, extending the time to live of the entry it reads. -/
def balance (owner : Address) : TokenCall I128 := do
  let s ← Call.get
  match s.balances.lookup owner with
  | some v => do
    env.extendTtl fun s => (s.balances.lookup owner).isSome
    pure v
  | none => pure (.lit 0)

/-- `TokenStorage::set_balance` -/
def setBalance (owner : Address) (v : I128) : TokenCall Unit := do
  Call.modify fun s => s.setBalance owner v
  env.extendTtl fun s => (s.balances.lookup owner).isSome

/-- `TokenStorage::allowance_record`: an expired or spent allowance reads as none, and a live one
    is written back as it is. -/
def allowanceRecord (owner spender : Address) : TokenCall (Option Allowance) := do
  let s ← Call.get
  match s.allowances.lookup (owner, spender) with
  | some data =>
    if env.sequence.val > data.expiryLedger.val ∨ data.amount.val ≤ 0 then
      pure none
    else do
      Call.modify fun s => s.setAllowance owner spender data
      pure (some data)
  | none => pure none

/-- `TokenStorage::set_allowance` -/
def setAllowance (owner spender : Address) (amount : I128) (expiryLedger : U32) :
    TokenCall Unit :=
  Call.modify fun s => s.setAllowance owner spender { amount, expiryLedger }

@[simp]
theorem run_admin_ok {s s' : Store} {a : Address} :
    admin.run s = (.ok a, s') ↔ s.admin = some a ∧ s = s' := by
  rw [admin, Call.run_bind_of_ok (Call.run_get s), Call.run_orTrap_ok]

@[simp]
theorem run_balance (owner : Address) (s : Store) :
    (balance env owner).run s = (.ok (s.balance owner), s) := by
  rw [balance, Call.run_bind_of_ok (Call.run_get s), Store.balance]
  cases h : s.balances.lookup owner with
  | none => rfl
  | some v => exact Call.run_bind_of_ok (env.run_extendTtl_of_present (by simp [h]))

@[simp]
theorem run_setBalance (owner : Address) (v : I128) (s : Store) :
    (setBalance env owner v).run s = (.ok (), s.setBalance owner v) := by
  rw [setBalance, Call.run_bind_of_ok (Call.run_modify _ s)]
  exact env.run_extendTtl_of_present (by simp [Store.setBalance, Finmap.lookup_insert])

@[simp]
theorem run_setAllowance (owner spender : Address) (amount : I128) (expiry : U32) (s : Store) :
    (setAllowance owner spender amount expiry).run s =
      (.ok (), s.setAllowance owner spender ⟨amount, expiry⟩) := rfl

@[simp]
theorem run_allowanceRecord (owner spender : Address) (s : Store) :
    (allowanceRecord env owner spender).run s =
      (.ok (s.allowance env.sequence owner spender), s) := by
  rw [allowanceRecord, Call.run_bind_of_ok (Call.run_get s), Store.allowance]
  cases h : s.allowances.lookup (owner, spender) with
  | none => rfl
  | some data =>
    simp only [Option.filter_some, decide_eq_true_eq]
    split
    · rfl
    · -- Writing the entry back leaves the store as it was.
      have hsame : s.setAllowance owner spender data = s := by
        have : s.allowances.insert (owner, spender) data = s.allowances :=
          Finmap.ext_lookup fun k => by
            rw [Finmap.lookup_insert_eq_ite]
            split
            · rename_i hk; rw [hk, h]
            · rfl
        rw [Store.setAllowance, this]
      rw [Call.run_bind_of_ok (Call.run_modify _ s), hsame, Call.run_pure]

end Storage

end CosmosVote.Token
