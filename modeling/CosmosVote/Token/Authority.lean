import CosmosVote.Token.Conservation

/-!
# Who can change a balance

The balance of an account goes down by a transfer or a burn that the account has
authorised itself, by a burn of the admin, or by a spender that has an allowance of it
(`Debit`, `Effect.lowers`); and it has given nobody an allowance if it has never
authorised one (`Effect.allowances_none`). The supply follows the mints and the burns
(`Resupplies`, `Effect.totalSupply`).

Until the contract is initialised, nobody has anything to lose, and the call that
initialises it needs no authorisation (`Opens`). If it lowers a balance, it leaves it
negative (`OpensBelow`, `Effect.debit_or_opensBelow`).

* `token_authority`: what any call, in any reachable state, may do to the balances, the
  allowances and the supply.
-/

namespace CosmosVote.Token

open Soroban

/-- The calls that may lower the balance of `a`, with who authorises each. -/
inductive Debit (env : HostEnv) (s : Store) (a : Address) : Op → Prop
  | transfer {b : Address} {amount : I128} (hauth : env.auth a = true) :
      Debit env s a (.transfer a b amount)
  | transferFrom {spender b : Address} {amount : I128} {record : Allowance}
      (hauth : env.auth spender = true) (hrecord : s.allowance env.sequence a spender = some record)
      (hallowed : amount.val ≤ record.amount.val) : Debit env s a (.transferFrom spender a b amount)
  | burn {admin : Address} {amount : I128} (hauth : env.auth admin = true)
      (hadmin : s.admin = some admin) : Debit env s a (.burn admin a amount)
  | burnSelf {amount : I128} (hauth : env.auth a = true) : Debit env s a (.burnSelf a amount)

/-- The call initialises the contract: the supply goes to its admin. -/
inductive Opens (s s' : Store) : Op → Prop
  | mk {admin : Address} {supply : I128} {name symbol : Text} {decimals : U32}
      (hinit : s.initialized = false) (hsupply : s'.totalSupply = supply)
      (hbalance : s'.balance admin = supply) :
      Opens s s' (.initializeContract admin supply name symbol decimals)

theorem Opens.initialized {s s' : Store} {op : Op} (h : Opens s s' op) : s.initialized = false := by
  cases h with
  | mk hinit => exact hinit

section Move

variable {s : Store} {a b c : Address} {x y supply amount : I128}

/-- Moving a positive amount lowers no balance but that of the account it is taken from. -/
theorem Store.eq_of_move_lt (hpos : 0 < amount.val)
    (hy : ((s.setBalance a x).balance b).val + amount.val = y.val)
    (hlt : ((s.move a b x y).balance c).val < (s.balance c).val) : c = a := by
  by_contra hne
  rw [balance_move, if_neg hne] at hlt
  split at hlt
  · rename_i hc
    rw [← hc, balance_setBalance, if_neg hne] at hy
    omega
  · exact lt_irrefl _ hlt

/-- A new supply and a new balance lower no other balance. -/
theorem Store.resupply_lt (hlt : ((s.resupply a supply x).balance c).val < (s.balance c).val) :
    c = a ∧ x.val < (s.balance a).val := by
  rw [balance_resupply] at hlt
  split at hlt
  · rename_i hc
    exact ⟨hc, hc ▸ hlt⟩
  · exact absurd hlt (lt_irrefl _)

end Move

variable {env : HostEnv} {s s' : Store} {op : Op}

/-- A call that lowers a balance was authorised to, unless it opens the contract. -/
theorem Effect.lowers (h : Effect env s op s') {a : Address}
    (hlt : (s'.balance a).val < (s.balance a).val) : Debit env s a op ∨ Opens s s' op := by
  cases h with
  | initializeContract hinit => exact .inr (.mk hinit rfl ((Store.balance_resupply ..).trans (if_pos rfl)))
  | transfer hauth _ hpos _ hne _ hcredited =>
    obtain rfl := Store.eq_of_move_lt hpos (by rwa [Store.balance_setBalance, if_neg (Ne.symm hne)]) hlt
    exact .inl (.transfer hauth)
  | transferFrom hauth _ hpos hrecord hallowed _ _ _ hcredited =>
    -- The two accounts may be the same one, which then gets back what it gives.
    obtain rfl := Store.eq_of_move_lt hpos hcredited hlt
    exact .inl (.transferFrom hauth hrecord hallowed)
  | mint _ _ _ hpos _ hcredited =>
    have := (Store.resupply_lt hlt).2
    omega
  | burn hauth hadmin =>
    obtain ⟨rfl, _⟩ := Store.resupply_lt hlt
    exact .inl (.burn hauth hadmin)
  | burnSelf hauth =>
    obtain ⟨rfl, _⟩ := Store.resupply_lt hlt
    exact .inl (.burnSelf hauth)
  | _ => exact absurd hlt (lt_irrefl _)

/-- The call opens the contract with a negative supply, which becomes the balance of `a`. -/
def OpensBelow (s : Store) (a : Address) (op : Op) : Prop :=
  s.initialized = false ∧ ∃ supply name symbol decimals,
    op = .initializeContract a supply name symbol decimals ∧ supply.val < 0

/-- Where the balances add up to the supply, an opening lowers a balance only to below zero. -/
theorem Effect.debit_or_opensBelow (h : Effect env s op s') (hs : Conserved s) {a : Address}
    (hlt : (s'.balance a).val < (s.balance a).val) : Debit env s a op ∨ OpensBelow s a op := by
  rcases h.lowers hlt with hdebit | hopens
  · exact .inl hdebit
  · cases hopens with
    | mk hinit =>
      cases h with
      | initializeContract =>
        obtain ⟨rfl, hneg⟩ := Store.resupply_lt hlt
        -- There was nothing in the contract before.
        rw [(hs.fresh hinit).2.2] at hneg
        exact .inr ⟨hinit, _, _, _, _, rfl, hneg⟩

theorem OpensBelow.balance_lt {a : Address} (h : OpensBelow s a op) (hs : Conserved s) (env : HostEnv) :
    ((step s ⟨env, op⟩).balance a).val < (s.balance a).val := by
  obtain ⟨hinit, supply, name, symbol, decimals, rfl, hneg⟩ := h
  have he : Effect env s (.initializeContract a supply name symbol decimals) _ :=
    .initializeContract hinit
  have hbalance : (step s ⟨env, .initializeContract a supply name symbol decimals⟩).balance a = supply := by
    rw [step_of_effect he]
    exact (Store.balance_resupply ..).trans (if_pos rfl)
  rw [hbalance, (hs.fresh hinit).2.2]
  exact hneg

/-- An account that authorises no approval gives nobody an allowance. -/
theorem Effect.allowances_none (h : Effect env s op s') {a : Address}
    (happrove : ∀ spender amount expiry, op = .approve a spender amount expiry → env.auth a = false)
    (hnone : ∀ spender, s.allowances.lookup (a, spender) = none) (spender : Address) :
    s'.allowances.lookup (a, spender) = none := by
  cases h with
  | @transferFrom spender' owner _ _ _ _ _ record _ _ _ hrecord =>
    -- What is left of an allowance is written back, so there was one.
    have hne : (a, spender) ≠ (owner, spender') := by
      intro hkey
      obtain ⟨rfl, rfl⟩ := Prod.ext_iff.1 hkey
      rw [Store.allowance, hnone] at hrecord
      cases hrecord
    exact (Finmap.lookup_insert_of_ne _ hne).trans (hnone spender)
  | @approve owner spender' _ _ hauth =>
    have hne : (a, spender) ≠ (owner, spender') := by
      intro hkey
      obtain ⟨rfl, rfl⟩ := Prod.ext_iff.1 hkey
      have hfalse := happrove _ _ _ rfl
      rw [hauth] at hfalse
      cases hfalse
    exact (Finmap.lookup_insert_of_ne _ hne).trans (hnone spender)
  | _ => exact hnone spender

/-! ## The accounts of a call -/

/-- The account that a call takes tokens from. -/
def Op.source : Op → Option Address
  | .transfer from_ _ _ => some from_
  | .transferFrom _ from_ _ _ => some from_
  | .burn _ from_ _ => some from_
  | .burnSelf owner _ => some owner
  | _ => none

/-- The account that a call gives tokens to. -/
def Op.recipient : Op → Option Address
  | .initializeContract admin _ _ _ _ => some admin
  | .transfer _ to_ _ => some to_
  | .transferFrom _ _ to_ _ => some to_
  | .mint _ to_ _ => some to_
  | _ => none

/-- No other balance changes. -/
theorem Effect.balance_eq (h : Effect env s op s') {a : Address} (hsource : op.source ≠ some a)
    (hrecipient : op.recipient ≠ some a) : s'.balance a = s.balance a := by
  have hmove {t : Store} {b c : Address} {x y : I128} (hb : some b ≠ some a) (hc : some c ≠ some a) :
      (t.move b c x y).balance a = t.balance a := by
    rw [Store.balance_move, if_neg fun e => hc (by rw [e]), if_neg fun e => hb (by rw [e])]
  have hresupply {b : Address} {x supply : I128} (hb : some b ≠ some a) :
      (s.resupply b supply x).balance a = s.balance a := by
    rw [Store.balance_resupply, if_neg fun e => hb (by rw [e])]
  cases h with
  | initializeContract => exact hresupply hrecipient
  | transfer => exact hmove hsource hrecipient
  | transferFrom => exact hmove hsource hrecipient
  | mint => exact hresupply hrecipient
  | burn => exact hresupply hsource
  | burnSelf => exact hresupply hsource
  | _ => rfl

/-! ## Transfers -/

section Transfer

variable {a b : Address} {amount : I128}

/-- When a transfer succeeds. -/
theorem transfer_iff : (∃ s', Effect env s (.transfer a b amount) s') ↔
    env.auth a = true ∧ s.paused = false ∧ 0 < amount.val ∧ amount.val ≤ (s.balance a).val ∧
      (a = b ∨ ∃ credited : I128, (s.balance b).val + amount.val = credited.val) := by
  constructor
  · rintro ⟨s', h⟩
    cases h with
    | transferSelf hauth hpaused hpos hbal => exact ⟨hauth, hpaused, hpos, hbal, .inl rfl⟩
    | transfer hauth hpaused hpos hbal _ _ hcredited =>
      exact ⟨hauth, hpaused, hpos, hbal, .inr ⟨_, hcredited⟩⟩
  · rintro ⟨hauth, hpaused, hpos, hbal, hfits⟩
    by_cases hne : a = b
    · subst hne
      exact ⟨s, .transferSelf hauth hpaused hpos hbal⟩
    · obtain ⟨credited, hcredited⟩ := hfits.resolve_left hne
      -- The debit leaves what is not negative.
      have hle := (s.balance a).le_hi
      obtain ⟨debited, _, hdebited⟩ : ∃ x : I128, (s.balance a).checkedSub amount = some x ∧ _ :=
        IntRange.exists_fit (by omega) (by omega)
      exact ⟨_, .transfer hauth hpaused hpos hbal hne hdebited.symm hcredited⟩

/-- A transfer moves the amount from the one account to the other, which may be the same. -/
theorem Effect.transferred (h : Effect env s (.transfer a b amount) s') (c : Address) :
    (s'.balance c).val = (s.balance c).val - (if c = a then amount.val else 0) +
      if c = b then amount.val else 0 := by
  cases h with
  | transferSelf => split <;> omega
  | transfer _ _ _ _ hne hdebited hcredited =>
    rw [Store.balance_emit, Store.balance_move]
    split
    · rename_i hb
      rw [if_neg fun ha => hne (ha.symm.trans hb), hb]
      omega
    · split
      · rename_i ha
        rw [ha]
        omega
      · omega

end Transfer

/-! ## The supply -/

/-- The calls that change the supply, with who authorises each, and by how much. -/
inductive Resupplies (env : HostEnv) (s : Store) : Op → ℤ → Prop
  | mint {admin b : Address} {amount : I128} (hauth : env.auth admin = true)
      (hadmin : s.admin = some admin) : Resupplies env s (.mint admin b amount) amount.val
  | burn {admin a : Address} {amount : I128} (hauth : env.auth admin = true)
      (hadmin : s.admin = some admin) : Resupplies env s (.burn admin a amount) (-amount.val)
  | burnSelf {a : Address} {amount : I128} (hauth : env.auth a = true) :
      Resupplies env s (.burnSelf a amount) (-amount.val)

/-- A call that changes the supply was authorised to, unless it opens the contract. -/
theorem Effect.totalSupply (h : Effect env s op s') (hne : s'.totalSupply ≠ s.totalSupply) :
    (∃ δ, Resupplies env s op δ ∧ s'.totalSupply.val = s.totalSupply.val + δ) ∨ Opens s s' op := by
  cases h with
  | initializeContract hinit => exact .inr (.mk hinit rfl ((Store.balance_resupply ..).trans (if_pos rfl)))
  | mint hauth hadmin _ _ hsupply => exact .inl ⟨_, .mint hauth hadmin, hsupply.symm⟩
  | burn hauth hadmin _ _ _ hsupply =>
    exact .inl ⟨_, .burn hauth hadmin, by rw [← sub_eq_add_neg]; exact hsupply.symm⟩
  | burnSelf hauth _ _ hsupply =>
    exact .inl ⟨_, .burnSelf hauth, by rw [← sub_eq_add_neg]; exact hsupply.symm⟩
  | _ => exact absurd rfl hne

/-- A spender uses up what it moves of a live allowance. -/
theorem Effect.allowance_spent {spender a b : Address} {amount : I128}
    (h : Effect env s (.transferFrom spender a b amount) s') :
    ∃ record remaining, s.allowances.lookup (a, spender) = some record ∧
      env.sequence.val ≤ record.expiryLedger.val ∧ amount.val ≤ record.amount.val ∧
      record.amount.val - amount.val = remaining.val ∧
      s'.allowances.lookup (a, spender) = some ⟨remaining, record.expiryLedger⟩ := by
  cases h with
  | transferFrom _ _ _ hrecord hallowed _ hremaining =>
    rw [Store.allowance, Option.filter_eq_some_iff, decide_eq_true_eq, not_or, not_lt] at hrecord
    exact ⟨_, _, hrecord.1, hrecord.2.1, hallowed, hremaining, Finmap.lookup_insert _⟩

/-! ## The authority over the token -/

/-- In every reachable state:

    * a balance goes down only by a call that was authorised to lower it;
    * a spender that lowers a balance had a live allowance of at least the amount, and it is
      reduced by the amount;
    * the supply changes only by a call that was authorised to change it, by its amount;
    * no balance changes but those of the account that the call takes from and of its recipient;
    * a call that fails changes nothing.

    The call that initialises the contract is the one exception. -/
theorem token_authority (cs : List Input) (c : Input) :
    (∀ a, ((step (run step Store.empty cs) c).balance a).val <
        ((run step Store.empty cs).balance a).val →
      Debit c.env (run step Store.empty cs) a c.op ∨
        Opens (run step Store.empty cs) (step (run step Store.empty cs) c) c.op) ∧
    (∀ spender a b amount, c.op = .transferFrom spender a b amount →
      Succeeds (run step Store.empty cs) c →
      ∃ record remaining, (run step Store.empty cs).allowances.lookup (a, spender) = some record ∧
        c.env.sequence.val ≤ record.expiryLedger.val ∧ amount.val ≤ record.amount.val ∧
        record.amount.val - amount.val = remaining.val ∧
        (step (run step Store.empty cs) c).allowances.lookup (a, spender) =
          some ⟨remaining, record.expiryLedger⟩) ∧
    ((step (run step Store.empty cs) c).totalSupply ≠ (run step Store.empty cs).totalSupply →
      (∃ δ, Resupplies c.env (run step Store.empty cs) c.op δ ∧
        (step (run step Store.empty cs) c).totalSupply.val =
          (run step Store.empty cs).totalSupply.val + δ) ∨
        Opens (run step Store.empty cs) (step (run step Store.empty cs) c) c.op) ∧
    (∀ a, (step (run step Store.empty cs) c).balance a ≠ (run step Store.empty cs).balance a →
      c.op.source = some a ∨ c.op.recipient = some a) ∧
    (¬Succeeds (run step Store.empty cs) c → step (run step Store.empty cs) c = run step Store.empty cs) := by
  generalize run step Store.empty cs = s
  by_cases hc : Succeeds s c
  · have he := hc.effect
    refine ⟨fun a => he.lowers, ?_, he.totalSupply, ?_, fun hfails => absurd hc hfails⟩
    · intro spender a b amount hop _
      rw [hop] at he
      exact he.allowance_spent
    · intro a hne
      by_contra hnot
      obtain ⟨hsource, hrecipient⟩ := not_or.1 hnot
      exact hne (he.balance_eq hsource hrecipient)
  · rw [step_of_not_succeeds hc]
    exact ⟨fun _ h => absurd h (lt_irrefl _), fun _ _ _ _ _ h => absurd h hc, fun h => absurd rfl h,
      fun _ h => absurd rfl h, fun _ => rfl⟩

/-- The contract is initialised by a call that nobody has signed. -/
def unsignedOpening : Input :=
  ⟨⟨.lit 0, .lit 1, fun _ => false, .ignored⟩, .initializeContract (.account 1) (.lit 100) [86] [86] (.lit 7)⟩

/-- The supply it sets was not minted or burned by anyone. -/
theorem supply_opens :
    (step (run step Store.empty []) unsignedOpening).totalSupply ≠ (run step Store.empty []).totalSupply ∧
    ¬∃ δ, Resupplies unsignedOpening.env (run step Store.empty []) unsignedOpening.op δ := by
  refine ⟨by decide, ?_⟩
  rintro ⟨δ, hδ⟩
  cases hδ

end CosmosVote.Token
