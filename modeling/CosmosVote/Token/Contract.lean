import CosmosVote.Token.Basic

/-!
# The entry points of the token

Each function is the entry point of the same name, in the order of the source: its
guards, then its writes, then its event. `Op` are the calls that may write, and
`exec` dispatches them.

`upgrade` replaces the code of the contract, not what it stores: the calls after it
are those of this code, if it is what the new one is.
-/

namespace CosmosVote.Token

open Soroban

/-! ## Internal helpers -/

def validateAmount (amount : I128) : TokenCall Unit :=
  Call.rejectIf (amount.val ≤ 0) .invalidAmount

def assertAdmin (caller : Address) : TokenCall Unit := do
  let admin ← Storage.admin
  Call.rejectIf (admin ≠ caller) .notAdmin

def assertNotPaused : TokenCall Unit := do
  let s ← Call.get
  Call.rejectIf s.paused .contractPaused

/-- Publish an event. -/
def publish (e : Event) : TokenCall Unit := Call.modify fun s => s.emit e

/-! ## Initialization -/

/-- `initialize`: it needs no authorisation, and checks nothing about the supply. -/
def initializeContract (admin : Address) (initialSupply : I128) (name symbol : Text)
    (decimals : U32) (env : HostEnv) : TokenCall Unit := do
  let s ← Call.get
  Call.rejectIf s.initialized .alreadyInitialized
  Call.modify fun s => { s with admin := some admin, totalSupply := initialSupply }
  Storage.setBalance env admin initialSupply
  Call.modify fun s => { s with name, symbol, decimals, initialized := true, version := (1, 0, 0) }
  publish (.initialized admin initialSupply)

/-! ## Queries -/

section Queries

variable (env : HostEnv)

def totalSupply : TokenCall I128 := do
  let s ← Call.get
  pure s.totalSupply

def balance (owner : Address) : TokenCall I128 := Storage.balance env owner

/-- The ledger asked for is not used: the answer is the balance of the current ledger. -/
def balanceAt (owner : Address) (_ledger : U64) : TokenCall I128 := Storage.balance env owner

def allowance (owner spender : Address) : TokenCall I128 := do
  let data ← Storage.allowanceRecord env owner spender
  pure ((data.map Allowance.amount).getD (.lit 0))

def getDelegation (owner : Address) : TokenCall (Option Address) := do
  let s ← Call.get
  pure (s.delegations.lookup owner)

/-- One turn of the loop of `get_delegated_weight`. -/
def addDelegator (voter : Address) (weight : I128) (delegator : Address) : TokenCall I128 := do
  match ← getDelegation delegator with
  | some delegate =>
    if delegate = voter then do
      let bal ← Storage.balance env delegator
      pure (weight.saturatingAdd bal)
    else pure weight
  | none => pure weight

def getDelegatedWeight (voter : Address) (delegators : List Address) : TokenCall I128 := do
  let weight ← Storage.balance env voter
  delegators.foldlM (addDelegator env voter) weight

end Queries

/-! ## Transfers -/

def transfer (from_ to_ : Address) (amount : I128) (env : HostEnv) : TokenCall Unit := do
  env.requireAuth from_
  assertNotPaused
  validateAmount amount
  let fromBal ← Storage.balance env from_
  Call.rejectIf (fromBal.val < amount.val) .insufficientBalance
  if from_ = to_ then
    pure ()
  else do
    let debited ← Call.sub fromBal amount
    Storage.setBalance env from_ debited
    let toBal ← Storage.balance env to_
    let credited ← Call.add toBal amount
    Storage.setBalance env to_ credited
    publish (.transfer from_ to_ amount)

def transferFrom (spender from_ to_ : Address) (amount : I128) (env : HostEnv) :
    TokenCall Unit := do
  env.requireAuth spender
  assertNotPaused
  validateAmount amount
  let record ← Storage.allowanceRecord env from_ spender
  let record ← Call.orErr record .allowanceExceeded
  Call.rejectIf (record.amount.val < amount.val) .allowanceExceeded
  let fromBal ← Storage.balance env from_
  Call.rejectIf (fromBal.val < amount.val) .insufficientBalance
  let remaining ← Call.sub record.amount amount
  Storage.setAllowance from_ spender remaining record.expiryLedger
  let debited ← Call.sub fromBal amount
  Storage.setBalance env from_ debited
  let toBal ← Storage.balance env to_
  let credited ← Call.add toBal amount
  Storage.setBalance env to_ credited
  publish (.transfer from_ to_ amount)

/-! ## Allowances -/

def approve (owner spender : Address) (amount : I128) (expiryLedger : U32) (env : HostEnv) :
    TokenCall Unit := do
  env.requireAuth owner
  Call.rejectIf (amount.val < 0) .invalidAmount
  Call.rejectIf (expiryLedger.val ≤ env.sequence.val) .invalidExpiry
  Storage.setAllowance owner spender amount expiryLedger
  publish (.approval owner spender amount)

/-! ## Mint and burn -/

def mint (admin to_ : Address) (amount : I128) (env : HostEnv) : TokenCall Unit := do
  env.requireAuth admin
  assertAdmin admin
  assertNotPaused
  validateAmount amount
  let supply ← totalSupply
  let supply ← Call.add supply amount
  Call.modify fun s => s.setTotalSupply supply
  let bal ← Storage.balance env to_
  let bal ← Call.add bal amount
  Storage.setBalance env to_ bal
  publish (.minted admin to_ amount)

/-- The part `burn` and `burn_self` share, after their checks: the balance, then the supply. -/
def burnFrom (admin from_ : Address) (amount : I128) (env : HostEnv) : TokenCall Unit := do
  let bal ← Storage.balance env from_
  Call.rejectIf (bal.val < amount.val) .insufficientBalance
  let supply ← totalSupply
  let supply ← Call.sub supply amount
  Call.modify fun s => s.setTotalSupply supply
  let bal ← Call.sub bal amount
  Storage.setBalance env from_ bal
  publish (.burned admin from_ amount)

def burn (admin from_ : Address) (amount : I128) (env : HostEnv) : TokenCall Unit := do
  env.requireAuth admin
  assertAdmin admin
  assertNotPaused
  validateAmount amount
  burnFrom admin from_ amount env

/-- Unlike `burn`, it does not check whether the contract is paused. -/
def burnSelf (owner : Address) (amount : I128) (env : HostEnv) : TokenCall Unit := do
  env.requireAuth owner
  validateAmount amount
  burnFrom owner owner amount env

/-! ## Delegation -/

def delegate (owner delegateTo : Address) (env : HostEnv) : TokenCall Unit := do
  env.requireAuth owner
  Call.rejectIf (owner = delegateTo) .cannotDelegateSelf
  let s ← Call.get
  Call.rejectIf (s.delegations.lookup owner).isSome .alreadyDelegating
  Call.modify fun s => { s with delegations := s.delegations.insert owner delegateTo }
  publish (.delegated owner delegateTo)

def undelegate (owner : Address) (env : HostEnv) : TokenCall Unit := do
  env.requireAuth owner
  let s ← Call.get
  Call.rejectIf (s.delegations.lookup owner).isNone .notDelegating
  Call.modify fun s => { s with delegations := s.delegations.erase owner }
  publish (.undelegated owner)

/-! ## Admin -/

def proposeAdmin (admin newAdmin : Address) (env : HostEnv) : TokenCall Unit := do
  env.requireAuth admin
  assertAdmin admin
  Call.modify fun s => { s with pendingAdmin := some newAdmin }
  publish (.adminTransferProposed admin newAdmin)

def acceptAdmin (pendingAdmin : Address) (env : HostEnv) : TokenCall Unit := do
  env.requireAuth pendingAdmin
  let s ← Call.get
  let currentPending ← Call.orErr s.pendingAdmin .noPendingAdmin
  Call.rejectIf (pendingAdmin ≠ currentPending) .notPendingAdmin
  let previousAdmin ← Storage.admin
  Call.modify fun s => { s with admin := some pendingAdmin, pendingAdmin := none }
  publish (.adminTransferAccepted previousAdmin pendingAdmin)

def pause (admin : Address) (env : HostEnv) : TokenCall Unit := do
  env.requireAuth admin
  assertAdmin admin
  let s ← Call.get
  Call.rejectIf s.paused .contractPaused
  Call.modify fun s => { s with paused := true }
  publish (.paused admin)

def unpause (admin : Address) (env : HostEnv) : TokenCall Unit := do
  env.requireAuth admin
  assertAdmin admin
  let s ← Call.get
  Call.rejectIf (¬s.paused) .notPaused
  Call.modify fun s => { s with paused := false }
  publish (.unpaused admin)

def upgrade (admin : Address) (newWasmHash : ℕ) (env : HostEnv) : TokenCall Unit := do
  env.requireAuth admin
  assertAdmin admin
  publish (.upgraded newWasmHash)

/-! ## Calls -/

/-- The calls of the token that may write. -/
inductive Op
  | initializeContract (admin : Address) (initialSupply : I128) (name symbol : Text) (decimals : U32)
  | transfer (from_ to_ : Address) (amount : I128)
  | transferFrom (spender from_ to_ : Address) (amount : I128)
  | approve (owner spender : Address) (amount : I128) (expiryLedger : U32)
  | mint (admin to_ : Address) (amount : I128)
  | burn (admin from_ : Address) (amount : I128)
  | burnSelf (owner : Address) (amount : I128)
  | delegate (owner delegateTo : Address)
  | undelegate (owner : Address)
  | proposeAdmin (admin newAdmin : Address)
  | acceptAdmin (pendingAdmin : Address)
  | pause (admin : Address)
  | unpause (admin : Address)
  | upgrade (admin : Address) (newWasmHash : ℕ)
  deriving DecidableEq

/-- The entry point of a call. -/
def exec (env : HostEnv) : Op → TokenCall Unit
  | .initializeContract admin supply name symbol decimals =>
    initializeContract admin supply name symbol decimals env
  | .transfer from_ to_ amount => transfer from_ to_ amount env
  | .transferFrom spender from_ to_ amount => transferFrom spender from_ to_ amount env
  | .approve owner spender amount expiry => approve owner spender amount expiry env
  | .mint admin to_ amount => mint admin to_ amount env
  | .burn admin from_ amount => burn admin from_ amount env
  | .burnSelf owner amount => burnSelf owner amount env
  | .delegate owner delegateTo => delegate owner delegateTo env
  | .undelegate owner => undelegate owner env
  | .proposeAdmin admin newAdmin => proposeAdmin admin newAdmin env
  | .acceptAdmin pendingAdmin => acceptAdmin pendingAdmin env
  | .pause admin => pause admin env
  | .unpause admin => unpause admin env
  | .upgrade admin hash => upgrade admin hash env

/-- A call of the token, with the environment it is made in. -/
structure Input where
  env : HostEnv
  op : Op

/-- The contract makes the call, and the host commits it or rolls it back. -/
def step (s : Store) (c : Input) : Store := (exec c.env c.op).commit s

end CosmosVote.Token
