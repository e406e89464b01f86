import CosmosVote.Token.Contract

/-!
# What a token call does

`Effect env s op s'` lists, for each call, the guards it passes and the state it
leaves: `exec_ok_iff` says that this is exactly when and how the call succeeds. Every
invariant of the token is proved by cases on it, and no other proof unfolds the code.
-/

namespace CosmosVote.Token

open Soroban

@[simp]
theorem run_assertNotPaused_ok {s s' : Store} {u : Unit} :
    assertNotPaused.run s = (.ok u, s') ↔ s.paused = false ∧ s = s' := by
  simp [assertNotPaused, and_comm]

@[simp]
theorem run_assertAdmin_ok {a : Address} {s s' : Store} {u : Unit} :
    (assertAdmin a).run s = (.ok u, s') ↔ s.admin = some a ∧ s = s' := by
  simp only [assertAdmin, Call.run_bind_ok, Storage.run_admin_ok, Call.run_rejectIf_ok, ne_eq,
    not_not]
  constructor
  · rintro ⟨_, _, ⟨h, rfl⟩, rfl, rfl⟩
    exact ⟨h, rfl⟩
  · rintro ⟨h, rfl⟩
    exact ⟨a, s, ⟨h, rfl⟩, rfl, rfl⟩

@[simp]
theorem run_validateAmount_ok {amount : I128} {s s' : Store} {u : Unit} :
    (validateAmount amount).run s = (.ok u, s') ↔ 0 < amount.val ∧ s = s' := by
  simp [validateAmount]

@[simp]
theorem run_publish (e : Event) (s : Store) : (publish e).run s = (.ok (), s.emit e) := rfl

@[simp]
theorem run_totalSupply (s : Store) : totalSupply.run s = (.ok s.totalSupply, s) := rfl

/-- The store after tokens of `a` have been moved to `b`, with the two balances written. -/
def Store.move (s : Store) (a b : Address) (debited credited : I128) : Store :=
  (s.setBalance a debited).setBalance b credited

/-- The store after the supply has been changed, and with it the balance of `a`. -/
def Store.resupply (s : Store) (a : Address) (supply bal : I128) : Store :=
  (s.setTotalSupply supply).setBalance a bal

/-- What a call of the token that succeeds does, and when it does. -/
inductive Effect (env : HostEnv) (s : Store) : Op → Store → Prop
  | initializeContract {admin : Address} {supply : I128} {name symbol : Text} {decimals : U32}
      (hinit : s.initialized = false) :
      Effect env s (.initializeContract admin supply name symbol decimals)
        ({ s.resupply admin supply supply with
            admin := some admin, name, symbol, decimals, initialized := true,
            version := (1, 0, 0) }.emit (.initialized admin supply))
  | transferSelf {a : Address} {amount : I128} (hauth : env.auth a = true)
      (hpaused : s.paused = false) (hpos : 0 < amount.val)
      (hbal : amount.val ≤ (s.balance a).val) :
      Effect env s (.transfer a a amount) s
  | transfer {a b : Address} {amount debited credited : I128} (hauth : env.auth a = true)
      (hpaused : s.paused = false) (hpos : 0 < amount.val)
      (hbal : amount.val ≤ (s.balance a).val) (hne : a ≠ b)
      (hdebited : (s.balance a).val - amount.val = debited.val)
      (hcredited : (s.balance b).val + amount.val = credited.val) :
      Effect env s (.transfer a b amount) ((s.move a b debited credited).emit (.transfer a b amount))
  | transferFrom {spender a b : Address} {amount remaining debited credited : I128}
      {record : Allowance} (hauth : env.auth spender = true) (hpaused : s.paused = false)
      (hpos : 0 < amount.val) (hrecord : s.allowance env.sequence a spender = some record)
      (hallowed : amount.val ≤ record.amount.val) (hbal : amount.val ≤ (s.balance a).val)
      (hremaining : record.amount.val - amount.val = remaining.val)
      (hdebited : (s.balance a).val - amount.val = debited.val)
      (hcredited : ((s.setBalance a debited).balance b).val + amount.val = credited.val) :
      Effect env s (.transferFrom spender a b amount)
        (((s.setAllowance a spender ⟨remaining, record.expiryLedger⟩).move a b debited
          credited).emit (.transfer a b amount))
  | approve {owner spender : Address} {amount : I128} {expiry : U32}
      (hauth : env.auth owner = true) (hnonneg : 0 ≤ amount.val)
      (hexpiry : env.sequence.val < expiry.val) :
      Effect env s (.approve owner spender amount expiry)
        ((s.setAllowance owner spender ⟨amount, expiry⟩).emit (.approval owner spender amount))
  | mint {admin b : Address} {amount supply credited : I128} (hauth : env.auth admin = true)
      (hadmin : s.admin = some admin) (hpaused : s.paused = false) (hpos : 0 < amount.val)
      (hsupply : s.totalSupply.val + amount.val = supply.val)
      (hcredited : (s.balance b).val + amount.val = credited.val) :
      Effect env s (.mint admin b amount)
        ((s.resupply b supply credited).emit (.minted admin b amount))
  | burn {admin a : Address} {amount supply debited : I128} (hauth : env.auth admin = true)
      (hadmin : s.admin = some admin) (hpaused : s.paused = false) (hpos : 0 < amount.val)
      (hbal : amount.val ≤ (s.balance a).val)
      (hsupply : s.totalSupply.val - amount.val = supply.val)
      (hdebited : (s.balance a).val - amount.val = debited.val) :
      Effect env s (.burn admin a amount)
        ((s.resupply a supply debited).emit (.burned admin a amount))
  | burnSelf {a : Address} {amount supply debited : I128} (hauth : env.auth a = true)
      (hpos : 0 < amount.val) (hbal : amount.val ≤ (s.balance a).val)
      (hsupply : s.totalSupply.val - amount.val = supply.val)
      (hdebited : (s.balance a).val - amount.val = debited.val) :
      Effect env s (.burnSelf a amount)
        ((s.resupply a supply debited).emit (.burned a a amount))
  | delegate {owner to_ : Address} (hauth : env.auth owner = true) (hne : owner ≠ to_)
      (hnone : s.delegations.lookup owner = none) :
      Effect env s (.delegate owner to_)
        ({ s with delegations := s.delegations.insert owner to_ }.emit (.delegated owner to_))
  | undelegate {owner : Address} (hauth : env.auth owner = true)
      (hsome : (s.delegations.lookup owner).isSome) :
      Effect env s (.undelegate owner)
        ({ s with delegations := s.delegations.erase owner }.emit (.undelegated owner))
  | proposeAdmin {admin newAdmin : Address} (hauth : env.auth admin = true)
      (hadmin : s.admin = some admin) :
      Effect env s (.proposeAdmin admin newAdmin)
        ({ s with pendingAdmin := some newAdmin }.emit (.adminTransferProposed admin newAdmin))
  | acceptAdmin {admin previous : Address} (hauth : env.auth admin = true)
      (hpending : s.pendingAdmin = some admin) (hprevious : s.admin = some previous) :
      Effect env s (.acceptAdmin admin)
        ({ s with admin := some admin, pendingAdmin := none }.emit
          (.adminTransferAccepted previous admin))
  | pause {admin : Address} (hauth : env.auth admin = true) (hadmin : s.admin = some admin)
      (hpaused : s.paused = false) :
      Effect env s (.pause admin) ({ s with paused := true }.emit (.paused admin))
  | unpause {admin : Address} (hauth : env.auth admin = true) (hadmin : s.admin = some admin)
      (hpaused : s.paused = true) :
      Effect env s (.unpause admin) ({ s with paused := false }.emit (.unpaused admin))
  | upgrade {admin : Address} {hash : ℕ} (hauth : env.auth admin = true)
      (hadmin : s.admin = some admin) :
      Effect env s (.upgrade admin hash) (s.emit (.upgraded hash))

/-- A call succeeds exactly with the effects listed. -/
theorem exec_ok_iff {env : HostEnv} {op : Op} {s s' : Store} {u : Unit} :
    (exec env op).run s = (.ok u, s') ↔ Effect env s op s' := by
  constructor
  · -- In each case, the code is inverted: `h` becomes its guards and the store it leaves.
    intro h
    cases op with
    | initializeContract admin supply name symbol decimals =>
      simp [exec, initializeContract] at h
      obtain ⟨hinit, rfl⟩ := h
      exact .initializeContract hinit
    | transfer a b amount =>
      simp [exec, transfer] at h
      obtain ⟨hauth, hpaused, hpos, hbal, ⟨rfl, rfl⟩ | ⟨hne, x, hx, y, hy, rfl⟩⟩ := h
      · exact .transferSelf hauth hpaused hpos hbal
      · -- The balance of the recipient is read after the debit.
        rw [if_neg (Ne.symm hne)] at hy
        exact .transfer hauth hpaused hpos hbal hne hx hy
    | transferFrom spender a b amount =>
      simp [exec, transferFrom] at h
      obtain ⟨hauth, hpaused, hpos, r, hr, hall, hbal, z, hz, x, hx, y, hy, rfl⟩ := h
      exact .transferFrom hauth hpaused hpos hr hall hbal hz hx (by simpa using hy)
    | approve owner spender amount expiry =>
      simp [exec, approve] at h
      obtain ⟨hauth, hnonneg, hexpiry, rfl⟩ := h
      exact .approve hauth hnonneg hexpiry
    | mint admin b amount =>
      simp [exec, mint] at h
      obtain ⟨hauth, hadmin, hpaused, hpos, x, hx, y, hy, rfl⟩ := h
      exact .mint hauth hadmin hpaused hpos hx hy
    | burn admin a amount =>
      simp [exec, burn, burnFrom] at h
      obtain ⟨hauth, hadmin, hpaused, hpos, hbal, x, hx, y, hy, rfl⟩ := h
      exact .burn hauth hadmin hpaused hpos hbal hx hy
    | burnSelf a amount =>
      simp [exec, burnSelf, burnFrom] at h
      obtain ⟨hauth, hpos, hbal, x, hx, y, hy, rfl⟩ := h
      exact .burnSelf hauth hpos hbal hx hy
    | delegate owner to_ =>
      simp [exec, delegate] at h
      obtain ⟨hauth, hne, hnone, rfl⟩ := h
      exact .delegate hauth hne hnone
    | undelegate owner =>
      simp [exec, undelegate] at h
      obtain ⟨hauth, hsome, rfl⟩ := h
      exact .undelegate hauth (by simpa [Option.isSome_iff_ne_none] using hsome)
    | proposeAdmin admin newAdmin =>
      simp [exec, proposeAdmin] at h
      obtain ⟨hauth, hadmin, rfl⟩ := h
      exact .proposeAdmin hauth hadmin
    | acceptAdmin admin =>
      simp [exec, acceptAdmin] at h
      obtain ⟨hauth, hpending, previous, hprevious, rfl⟩ := h
      exact .acceptAdmin hauth hpending hprevious
    | pause admin =>
      simp [exec, pause] at h
      obtain ⟨hauth, hadmin, hpaused, rfl⟩ := h
      exact .pause hauth hadmin hpaused
    | unpause admin =>
      simp [exec, unpause] at h
      obtain ⟨hauth, hadmin, hpaused, rfl⟩ := h
      exact .unpause hauth hadmin hpaused
    | upgrade admin hash =>
      simp [exec, upgrade] at h
      obtain ⟨hauth, hadmin, rfl⟩ := h
      exact .upgrade hauth hadmin
  · intro h
    cases h with
    | initializeContract =>
      simp [exec, initializeContract, Store.resupply, Store.setBalance, Store.setTotalSupply, *]
    | transferSelf => simp [exec, transfer, *]
    | transfer hauth hpaused hpos hbal hne hd hc => simp [exec, transfer, Store.move, Ne.symm hne, *]
    | transferFrom hauth hpaused hpos hr hall hbal hm hd hc =>
      simp only [Store.balance_setBalance] at hc
      simp [exec, transferFrom, Store.move, *]
    | approve => simp [exec, approve, *]
    | mint => simp [exec, mint, Store.resupply, *]
    | burn => simp [exec, burn, burnFrom, Store.resupply, *]
    | burnSelf => simp [exec, burnSelf, burnFrom, Store.resupply, *]
    | delegate => simp [exec, delegate, *]
    | undelegate hauth hsome => simp [exec, undelegate, hauth, Option.ne_none_iff_isSome.2 hsome]
    | proposeAdmin => simp [exec, proposeAdmin, *]
    | acceptAdmin => simp [exec, acceptAdmin, *]
    | pause => simp [exec, pause, *]
    | unpause => simp [exec, unpause, *]
    | upgrade => simp [exec, upgrade, *]

/-- A step either has the effect of its call, which succeeds, or none. -/
theorem step_cases (s : Store) (c : Input) :
    Effect c.env s c.op (step s c) ∨ step s c = s := by
  rcases Call.commit_cases (exec c.env c.op) s with ⟨_, h⟩ | ⟨_, h⟩
  · exact .inl (exec_ok_iff.1 h)
  · exact .inr h

/-- A call with the effect listed makes a step. -/
theorem step_of_effect {s s' : Store} {c : Input} (h : Effect c.env s c.op s') : step s c = s' := by
  rw [step, Call.commit_of_ok (exec_ok_iff (u := ()).2 h)]

/-- The call returns a value. -/
def Succeeds (s : Store) (c : Input) : Prop := ((exec c.env c.op).run s).1 = .ok ()

instance (s : Store) (c : Input) : Decidable (Succeeds s c) := inferInstanceAs (Decidable (_ = _))

/-- A call that succeeds makes the step its effect describes. -/
theorem Succeeds.effect {s : Store} {c : Input} (h : Succeeds s c) : Effect c.env s c.op (step s c) := by
  have hrun : (exec c.env c.op).run s = (.ok (), ((exec c.env c.op).run s).2) := Prod.ext h rfl
  have he := exec_ok_iff.1 hrun
  rwa [step_of_effect he]

/-- A call that does not succeed changes nothing. -/
theorem step_of_not_succeeds {s : Store} {c : Input} (h : ¬Succeeds s c) : step s c = s := by
  refine Call.commit_of_not_ok fun u s' hrun => h ?_
  rw [Succeeds, hrun]

/-- To show that every step keeps a property, it is enough to look at the effects. -/
theorem step_invariant {I : Store → Prop} {s : Store} {c : Input} (hs : I s)
    (h : ∀ s', Effect c.env s c.op s' → I s') : I (step s c) := by
  rcases step_cases s c with he | he
  · exact h _ he
  · rwa [he]

end CosmosVote.Token
