import CosmosVote.Soroban.Replay
import CosmosVote.Token.Conservation

/-!
# A replica of the token

An indexer that applies the events of the token, in the order they are published, to a state of
its own (`Replica.apply`) has the supply, the balances, the delegations, the admin and the pause
of the contract. A transfer of an account to itself publishes nothing, and changes nothing.

* `Effect.replays`: each call publishes what it does;
* `token_log_replica`: so the replay of the log is the contract, in every reachable state.
-/

namespace CosmosVote.Token

open Soroban

/-- What can be told of the token from its events. -/
@[ext]
structure Replica where
  totalSupply : ℤ
  balance : Address → ℤ
  delegation : Address → Option Address
  admin : Option Address
  paused : Bool

namespace Replica

/-- The replica of a contract that has published nothing. -/
def empty : Replica where
  totalSupply := 0
  balance _ := 0
  delegation _ := none
  admin := none
  paused := false

variable (r : Replica)

/-- Add to the balance of an account. -/
def credit (a : Address) (amount : ℤ) : Replica :=
  { r with balance := Function.update r.balance a (r.balance a + amount) }

/-- Add to the supply. -/
def supply (amount : ℤ) : Replica := { r with totalSupply := r.totalSupply + amount }

/-- Write the delegate of an account. -/
def setDelegation (a : Address) (to_ : Option Address) : Replica :=
  { r with delegation := Function.update r.delegation a to_ }

/-- Apply an event. Those of the approvals, of the proposals of an admin and of the upgrades are
    skipped. -/
def apply : Event → Replica
  | .initialized admin supply =>
    { r with
      admin := some admin
      totalSupply := supply.val
      balance := Function.update r.balance admin supply.val }
  | .transfer from_ to_ amount => (r.credit from_ (-amount.val)).credit to_ amount.val
  | .minted _ to_ amount => (r.supply amount.val).credit to_ amount.val
  | .burned _ from_ amount => (r.supply (-amount.val)).credit from_ (-amount.val)
  | .delegated owner delegate => r.setDelegation owner (some delegate)
  | .undelegated owner => r.setDelegation owner none
  | .adminTransferAccepted _ new => { r with admin := some new }
  | .paused _ => { r with paused := true }
  | .unpaused _ => { r with paused := false }
  | _ => r

end Replica

/-- What the contract shows of itself. -/
def Store.replica (s : Store) : Replica where
  totalSupply := s.totalSupply.val
  balance a := (s.balance a).val
  delegation a := s.delegations.lookup a
  admin := s.admin
  paused := s.paused

theorem Store.replica_empty : Store.empty.replica = Replica.empty := rfl

variable {s s' : Store} {env : HostEnv} {op : Op}

/-- A balance that is written is credited with the difference. -/
theorem Store.replica_setBalance (a : Address) (v : I128) {amount : ℤ}
    (h : (s.balance a).val + amount = v.val) : (s.setBalance a v).replica = s.replica.credit a amount := by
  refine Replica.ext rfl ?_ rfl rfl rfl
  funext b
  simp only [replica, Replica.credit, balance_setBalance, Function.update_apply]
  split
  · exact h.symm
  · rfl

theorem Store.replica_setTotalSupply (v : I128) {amount : ℤ} (h : s.totalSupply.val + amount = v.val) :
    (s.setTotalSupply v).replica = s.replica.supply amount :=
  Replica.ext h.symm rfl rfl rfl rfl

/-- Moving tokens is two credits, also where they go back to the account they come from. -/
theorem Store.replica_move {a b : Address} {debited credited amount : I128}
    (hdebited : (s.balance a).val - amount.val = debited.val)
    (hcredited : ((s.setBalance a debited).balance b).val + amount.val = credited.val) :
    (s.move a b debited credited).replica = (s.replica.credit a (-amount.val)).credit b amount.val := by
  rw [move, replica_setBalance b credited hcredited, replica_setBalance a debited]
  rwa [← sub_eq_add_neg]

/-- A new supply and a new balance differ from the old ones by the same amount. -/
theorem Store.replica_resupply {a : Address} {supply bal : I128} {amount : ℤ}
    (hsupply : s.totalSupply.val + amount = supply.val) (hbal : (s.balance a).val + amount = bal.val) :
    (s.resupply a supply bal).replica = (s.replica.supply amount).credit a amount := by
  rw [resupply, replica_setBalance (s := s.setTotalSupply supply) a bal hbal,
    replica_setTotalSupply supply hsupply]

/-- Every call publishes what it does. -/
theorem Effect.replays (h : Effect env s op s') : Replays Store.events Store.replica Replica.apply s s' := by
  cases h with
  | @initializeContract admin supply =>
    refine .event rfl (Replica.ext rfl ?_ rfl rfl rfl)
    funext b
    change ((s.resupply admin supply supply).balance b).val =
      Function.update s.replica.balance admin supply.val b
    rw [Store.balance_resupply, Function.update_apply]
    split <;> rfl
  | transferSelf => exact .silent rfl rfl
  | transfer _ _ _ _ hne hdebited hcredited =>
    refine .event rfl (Store.replica_move hdebited ?_)
    rwa [Store.balance_setBalance, if_neg (Ne.symm hne)]
  | transferFrom _ _ _ _ _ _ _ hdebited hcredited =>
    exact .event rfl (Store.replica_move (s := s.setAllowance ..) hdebited hcredited)
  | mint _ _ _ _ hsupply hcredited => exact .event rfl (Store.replica_resupply hsupply hcredited)
  | burn _ _ _ _ _ hsupply hdebited =>
    rw [sub_eq_add_neg] at hsupply hdebited
    exact .event rfl (Store.replica_resupply hsupply hdebited)
  | burnSelf _ _ _ hsupply hdebited =>
    rw [sub_eq_add_neg] at hsupply hdebited
    exact .event rfl (Store.replica_resupply hsupply hdebited)
  | @delegate owner to_ =>
    refine .event rfl (Replica.ext rfl rfl ?_ rfl rfl)
    funext b
    change (s.delegations.insert owner to_).lookup b = Function.update s.replica.delegation owner (some to_) b
    rw [Finmap.lookup_insert_eq_ite, Function.update_apply]
    rfl
  | @undelegate owner =>
    refine .event rfl (Replica.ext rfl rfl ?_ rfl rfl)
    funext b
    change (s.delegations.erase owner).lookup b = Function.update s.replica.delegation owner none b
    rw [Finmap.lookup_erase_eq_ite, Function.update_apply]
    rfl
  | _ => exact .event rfl rfl

/-- In every reachable state, whoever replays the events of the token from the first one on has its supply,
    every balance, every delegation, its admin and whether it is paused. -/
theorem token_log_replica (cs : List Input) :
    let r := replay Replica.apply Replica.empty (run step Store.empty cs).events
    r.totalSupply = (run step Store.empty cs).totalSupply.val ∧
    (∀ a, r.balance a = ((run step Store.empty cs).balance a).val) ∧
    (∀ a, r.delegation a = (run step Store.empty cs).delegations.lookup a) ∧
    r.admin = (run step Store.empty cs).admin ∧ r.paused = (run step Store.empty cs).paused := by
  have hreplays (s : Store) (c : Input) : Replays Store.events Store.replica Replica.apply s (step s c) :=
    step_invariant (I := fun t => Replays Store.events Store.replica Replica.apply s t) (.silent rfl rfl)
      fun _ he => he.replays
  have hr := replay_run hreplays (s := Store.empty) rfl cs
  rw [Store.replica_empty] at hr
  intro r
  rw [show r = (run step Store.empty cs).replica from hr]
  exact ⟨rfl, fun _ => rfl, fun _ => rfl, rfl, rfl⟩

end CosmosVote.Token
