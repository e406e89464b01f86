import CosmosVote.Soroban.Call
import CosmosVote.Soroban.Int

/-!
# The host

What the host gives a contract for the time of a call (`HostEnv`): the ledger, the
addresses that authorise the call, and its rule for extending the time to live of
an entry that does not exist (`TtlRule`).

A contract's own address never signs a transaction: it authorises exactly the
calls the contract makes itself. `HostEnv.auth` is therefore given with each call,
and a nested call has an environment of its own.
-/

namespace Soroban

/-- An address: of an account, known by its public key, or of a contract. -/
inductive Address
  | account (key : ℕ)
  | contract (hash : ℕ)
  deriving DecidableEq

/-- The account of the public key of all zeros. -/
def Address.zero : Address := .account 0

/-- A string of the host: its bytes. -/
abbrev Text := List UInt8

/-- What happens when the time to live of an entry that does not exist is extended. -/
inductive TtlRule
  /-- The call goes on: extensions have no effect at all. -/
  | ignored
  /-- The host aborts the call. -/
  | aborts
  deriving DecidableEq

/-- The environment of a call. -/
structure HostEnv where
  /-- `env.ledger().timestamp()` -/
  timestamp : U64
  /-- `env.ledger().sequence()` -/
  sequence : U32
  /-- The addresses that authorise the call. -/
  auth : Address → Bool
  /-- The rule for the time to live of missing entries. -/
  ttl : TtlRule

namespace Call

variable {σ ε : Type} {lo hi : ℤ}

/-- `a + b`, with overflow checks. -/
def add (a b : IntRange lo hi) : Call σ ε (IntRange lo hi) := orTrap (a.checkedAdd b) .overflow

/-- `a - b`, with overflow checks. -/
def sub (a b : IntRange lo hi) : Call σ ε (IntRange lo hi) := orTrap (a.checkedSub b) .overflow

@[simp]
theorem run_add_ok {a b c : IntRange lo hi} {s s' : σ} :
    (add a b : Call σ ε _).run s = (.ok c, s') ↔ a.val + b.val = c.val ∧ s = s' := by
  rw [add, run_orTrap_ok, IntRange.checkedAdd_eq_some]

@[simp]
theorem run_sub_ok {a b c : IntRange lo hi} {s s' : σ} :
    (sub a b : Call σ ε _).run s = (.ok c, s') ↔ a.val - b.val = c.val ∧ s = s' := by
  rw [sub, run_orTrap_ok, IntRange.checkedSub_eq_some]

@[simp]
theorem run_add_trap {a b : IntRange lo hi} {s s' : σ} {t : Trap} :
    (add a b : Call σ ε _).run s = (.trap t, s') ↔
      (a.val + b.val < lo ∨ hi < a.val + b.val) ∧ .overflow = t ∧ s = s' := by
  rw [add, run_orTrap_trap, IntRange.checkedAdd, IntRange.fit_eq_none]

@[simp]
theorem run_sub_trap {a b : IntRange lo hi} {s s' : σ} {t : Trap} :
    (sub a b : Call σ ε _).run s = (.trap t, s') ↔
      (a.val - b.val < lo ∨ hi < a.val - b.val) ∧ .overflow = t ∧ s = s' := by
  rw [sub, run_orTrap_trap, IntRange.checkedSub, IntRange.fit_eq_none]

@[simp]
theorem trapsOnly_add {A : Trap → Prop} {a b : IntRange lo hi} {s : σ} :
    (add a b : Call σ ε _).TrapsOnly A s ↔ (a.val + b.val < lo ∨ hi < a.val + b.val → A .overflow) := by
  rw [add, trapsOnly_orTrap, IntRange.checkedAdd, IntRange.fit_eq_none]

@[simp]
theorem trapsOnly_sub {A : Trap → Prop} {a b : IntRange lo hi} {s : σ} :
    (sub a b : Call σ ε _).TrapsOnly A s ↔ (a.val - b.val < lo ∨ hi < a.val - b.val → A .overflow) := by
  rw [sub, trapsOnly_orTrap, IntRange.checkedSub, IntRange.fit_eq_none]

instance (a b : IntRange lo hi) : ReadOnly (add a b : Call σ ε _) := by rw [add]; infer_instance
instance (a b : IntRange lo hi) : NoErr (add a b : Call σ ε _) := by rw [add]; infer_instance
instance (a b : IntRange lo hi) : ReadOnly (sub a b : Call σ ε _) := by rw [sub]; infer_instance
instance (a b : IntRange lo hi) : NoErr (sub a b : Call σ ε _) := by rw [sub]; infer_instance

end Call

namespace HostEnv

variable {σ ε : Type} (env : HostEnv)

/-- `address.require_auth()` -/
def requireAuth (a : Address) : Call σ ε Unit :=
  if env.auth a then pure () else Call.abort .unauthorized

@[simp]
theorem run_requireAuth_ok {a : Address} {s s' : σ} {u : Unit} :
    (env.requireAuth a : Call σ ε Unit).run s = (.ok u, s') ↔ env.auth a = true ∧ s = s' := by
  rw [requireAuth]
  split <;> simp_all

@[simp]
theorem run_requireAuth_trap {a : Address} {s s' : σ} {t : Trap} :
    (env.requireAuth a : Call σ ε Unit).run s = (.trap t, s') ↔
      env.auth a = false ∧ .unauthorized = t ∧ s = s' := by
  rw [requireAuth]
  split <;> simp_all

@[simp]
theorem trapsOnly_requireAuth {A : Trap → Prop} {a : Address} {s : σ} :
    (env.requireAuth a : Call σ ε Unit).TrapsOnly A s ↔ (env.auth a = false → A .unauthorized) :=
  Call.trapsOnly_iff_imp fun _ _ => env.run_requireAuth_trap

/-- `env.storage().persistent().extend_ttl(key, ..)`, where `present` tells whether the key has
    an entry. -/
def extendTtl (present : σ → Bool) : Call σ ε Unit := do
  let s ← Call.get
  if present s ∨ env.ttl = .ignored then pure () else Call.abort .missingEntry

theorem run_extendTtl {present : σ → Bool} {s : σ} :
    (env.extendTtl present : Call σ ε Unit).run s =
      (if present s ∨ env.ttl = .ignored then .ok () else .trap .missingEntry, s) := by
  rw [extendTtl, Call.run_bind_of_ok (Call.run_get s)]
  split <;> rfl

/-- Extending the time to live of an entry that exists has no effect. -/
theorem run_extendTtl_of_present {present : σ → Bool} {s : σ} (h : present s = true) :
    (env.extendTtl present : Call σ ε Unit).run s = (.ok (), s) := by
  rw [run_extendTtl, if_pos (.inl h)]

instance (a : Address) : Call.ReadOnly (env.requireAuth a : Call σ ε Unit) := by
  rw [requireAuth]; infer_instance

instance (a : Address) : Call.NoErr (env.requireAuth a : Call σ ε Unit) := by
  rw [requireAuth]; infer_instance

instance (present : σ → Bool) : Call.ReadOnly (env.extendTtl present : Call σ ε Unit) := by
  rw [extendTtl]; infer_instance

instance (present : σ → Bool) : Call.NoErr (env.extendTtl present : Call σ ε Unit) := by
  rw [extendTtl]; infer_instance

end HostEnv

end Soroban
