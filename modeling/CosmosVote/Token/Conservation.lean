import CosmosVote.Soroban.Run
import CosmosVote.Token.Effect

/-!
# Conservation of the token

In every reachable state the stored balances add up to the total supply
(`Conserved`), whatever the calls and whoever makes them. When the supply the
contract was initialised with is not negative, no balance is ever negative
(`Nonneg`), so that every balance is at most the supply, and the arithmetic of
transfers and burns cannot overflow, although it is not checked.

Minting is the only call that can overflow: it is aborted, and rolled back.
-/

namespace CosmosVote.Token

open Soroban

/-- The balances add up to the supply; before the contract is initialised, there are none. -/
structure Conserved (s : Store) : Prop where
  held_eq : s.held = s.totalSupply.val
  fresh : s.initialized = false →
    s.admin = none ∧ s.totalSupply.val = 0 ∧ ∀ a, (s.balance a).val = 0

/-- No balance is negative. -/
def Nonneg (s : Store) : Prop := ∀ a, 0 ≤ (s.balance a).val

/-- If the call initialises the contract, it is not with a negative supply. -/
def Op.SupplyNonneg : Op → Prop
  | .initializeContract _ initialSupply _ _ _ => 0 ≤ initialSupply.val
  | _ => True

/-! ## Writes -/

section Writes

variable (s : Store) (a b : Address) (x y supply : I128)

/-- Moving tokens keeps the sum of the balances, also when they are moved to where they were. -/
theorem Store.held_move {amount : ℤ} (hx : (s.balance a).val - amount = x.val)
    (hy : ((s.setBalance a x).balance b).val + amount = y.val) :
    (s.move a b x y).held = s.held := by
  rw [Store.move, Store.held_setBalance, Store.held_setBalance]
  omega

theorem Store.balance_move (c : Address) :
    (s.move a b x y).balance c = if c = b then y else if c = a then x else s.balance c := by
  rw [Store.move, Store.balance_setBalance, Store.balance_setBalance]

theorem Store.held_resupply :
    (s.resupply a supply x).held = s.held - (s.balance a).val + x.val := by
  rw [Store.resupply, Store.held_setBalance, Store.held_setTotalSupply, Store.balance_setTotalSupply]

/-- The sum of the balances follows the supply, when both change by the same amount. -/
theorem Store.held_resupply_eq {s : Store} {a : Address} {x supply : I128} {δ : ℤ}
    (hs : s.held = s.totalSupply.val) (hsupply : s.totalSupply.val + δ = supply.val)
    (hx : (s.balance a).val + δ = x.val) :
    (s.resupply a supply x).held = (s.resupply a supply x).totalSupply.val := by
  rw [Store.held_resupply]
  change _ = supply.val
  omega

theorem Store.balance_resupply (c : Address) :
    (s.resupply a supply x).balance c = if c = a then x else s.balance c := by
  rw [Store.resupply, Store.balance_setBalance, Store.balance_setTotalSupply]

/-- Moved tokens leave no balance negative. -/
theorem Nonneg.move {s : Store} {a b : Address} {x y : I128} {amount : ℤ} (hs : Nonneg s)
    (hpos : 0 < amount) (hbal : amount ≤ (s.balance a).val) (hx : (s.balance a).val - amount = x.val)
    (hy : ((s.setBalance a x).balance b).val + amount = y.val) : Nonneg (s.move a b x y) := by
  intro c
  have hx0 : 0 ≤ x.val := by omega
  have hb : 0 ≤ ((s.setBalance a x).balance b).val := by
    rw [Store.balance_setBalance]
    split
    · exact hx0
    · exact hs b
  rw [Store.balance_move]
  split
  · omega
  split
  · exact hx0
  · exact hs c

theorem Nonneg.resupply {s : Store} {a : Address} {x supply : I128} (hs : Nonneg s)
    (hx : 0 ≤ x.val) : Nonneg (s.resupply a supply x) := by
  intro c
  rw [Store.balance_resupply]
  split
  · exact hx
  · exact hs c

end Writes

/-! ## Bounds -/

variable {s s' : Store}

theorem termAt_balances (s : Store) (a : Address) :
    s.balances.termAt (fun _ v => v.val) a = (s.balance a).val := by
  rw [Finmap.termAt, Store.balance]
  cases s.balances.lookup a <;> rfl

theorem Nonneg.entry (hs : Nonneg s) (a : Address) (v : I128) (h : s.balances.lookup a = some v) :
    0 ≤ v.val := by
  have := hs a
  rwa [Store.balance, h] at this

/-- A balance is at most the supply. -/
theorem Conserved.balance_le (hs : Conserved s) (hn : Nonneg s) (a : Address) :
    (s.balance a).val ≤ s.totalSupply.val := by
  rw [← hs.held_eq, ← termAt_balances]
  exact Finmap.le_sum hn.entry a

/-- Two balances are together at most the supply. -/
theorem Conserved.balance_add_le (hs : Conserved s) (hn : Nonneg s) {a b : Address} (hne : a ≠ b) :
    (s.balance a).val + (s.balance b).val ≤ s.totalSupply.val := by
  rw [← hs.held_eq, ← termAt_balances, ← termAt_balances]
  exact Finmap.add_le_sum hn.entry hne

/-- Nothing negative is credited. -/
theorem Nonneg.credit_nonneg (hn : Nonneg s) {a : Address} {x amount : I128}
    (hbal : amount.val ≤ (s.balance a).val) (hx : (s.balance a).val - amount.val = x.val)
    (b : Address) : 0 ≤ (if b = a then x else s.balance b).val := by
  split
  · omega
  · exact hn b

/-- The credit of a transfer fits: what is credited was debited before. -/
theorem Conserved.credit_le (hs : Conserved s) (hn : Nonneg s) {a b : Address} {x amount : I128}
    (hbal : amount.val ≤ (s.balance a).val) (hx : (s.balance a).val - amount.val = x.val) :
    ((s.setBalance a x).balance b).val + amount.val ≤ s.totalSupply.val := by
  rw [Store.balance_setBalance]
  -- To the same account, nothing is added in all; to another one, both balances are in the supply.
  split
  · have := hs.balance_le hn a
    omega
  · rename_i hne
    have := hs.balance_add_le hn hne
    omega

/-! ## Runs -/

theorem Conserved.empty : Conserved Store.empty where
  held_eq := Finmap.sum_empty _
  fresh _ := ⟨rfl, rfl, fun _ => rfl⟩

/-- What a call does keeps the sum of the balances at the supply. -/
theorem Effect.conserved {env : HostEnv} {op : Op} (h : Effect env s op s') (hs : Conserved s) :
    Conserved s' := by
  obtain ⟨hheld, hfresh⟩ := hs
  -- Before the contract is initialised, it has no admin and all balances are `0`.
  have hready (hor : s.admin ≠ none ∨ ∃ a, 0 < (s.balance a).val) : s.initialized ≠ false := by
    intro hinit
    obtain ⟨hadmin, _, hzero⟩ := hfresh hinit
    rcases hor with hne | ⟨a, ha⟩
    · exact hne hadmin
    · rw [hzero a] at ha
      exact lt_irrefl 0 ha
  have hadmin {a : Address} (h : s.admin = some a) : s.initialized ≠ false :=
    hready (.inl (by rw [h]; exact Option.some_ne_none a))
  cases h with
  | @initializeContract admin supply _ _ _ hinit =>
    -- From nothing, the supply is credited to the admin.
    obtain ⟨_, hsupply, hzero⟩ := hfresh hinit
    refine ⟨?_, fun h => absurd h Bool.true_eq_false_eq_False⟩
    exact Store.held_resupply_eq (a := admin) (δ := supply.val) hheld (by omega)
      (by rw [hzero, zero_add])
  | transferSelf => exact ⟨hheld, hfresh⟩
  | @transfer a b _ _ _ _ _ hpos hbal hne hd hc =>
    refine ⟨(s.held_move a b _ _ hd ?_).trans hheld, fun h => (hready (.inr ⟨a, by omega⟩) h).elim⟩
    rw [Store.balance_setBalance, if_neg (Ne.symm hne), hc]
  | @transferFrom _ a b _ _ _ _ _ _ _ hpos _ _ hbal _ hd hc =>
    refine ⟨?_, fun h => (hready (.inr ⟨a, by omega⟩) h).elim⟩
    exact (Store.held_move (s.setAllowance a _ _) a b _ _ hd hc).trans hheld
  | approve => exact ⟨hheld, hfresh⟩
  | mint _ ha _ _ hsupply hc =>
    exact ⟨Store.held_resupply_eq hheld hsupply hc, fun h => (hadmin ha h).elim⟩
  | burn _ ha _ _ _ hsupply hd =>
    rw [sub_eq_add_neg] at hsupply hd
    exact ⟨Store.held_resupply_eq hheld hsupply hd, fun h => (hadmin ha h).elim⟩
  | @burnSelf a _ _ _ _ hpos hbal hsupply hd =>
    have hpositive : 0 < (s.balance a).val := by omega
    rw [sub_eq_add_neg] at hsupply hd
    exact ⟨Store.held_resupply_eq hheld hsupply hd, fun h => (hready (.inr ⟨a, hpositive⟩) h).elim⟩
  | delegate => exact ⟨hheld, hfresh⟩
  | undelegate => exact ⟨hheld, hfresh⟩
  | proposeAdmin => exact ⟨hheld, hfresh⟩
  | acceptAdmin _ _ hprevious => exact ⟨hheld, fun h => (hadmin hprevious h).elim⟩
  | pause => exact ⟨hheld, hfresh⟩
  | unpause => exact ⟨hheld, hfresh⟩
  | upgrade => exact ⟨hheld, hfresh⟩

/-- A call leaves no balance negative, unless it initialises the contract with a negative supply. -/
theorem Effect.nonneg {env : HostEnv} {op : Op} (h : Effect env s op s') (hop : op.SupplyNonneg)
    (hs : Nonneg s) : Nonneg s' := by
  cases h with
  | initializeContract => exact Nonneg.resupply hs hop
  | transferSelf => exact hs
  | transfer _ _ hpos hbal hne hd hc =>
    refine Nonneg.move hs hpos hbal hd ?_
    rw [Store.balance_setBalance, if_neg (Ne.symm hne), hc]
  | @transferFrom _ a _ _ _ _ _ _ _ _ hpos _ _ hbal _ hd hc =>
    exact Nonneg.move (s := s.setAllowance a _ _) hs hpos hbal hd hc
  | approve => exact hs
  | @mint _ b _ _ _ _ _ _ hpos _ hc =>
    have := hs b
    exact Nonneg.resupply hs (by omega)
  | burn _ _ _ _ hbal _ hd => exact Nonneg.resupply hs (by omega)
  | burnSelf _ _ hbal _ hd => exact Nonneg.resupply hs (by omega)
  | delegate => exact hs
  | undelegate => exact hs
  | proposeAdmin => exact hs
  | acceptAdmin => exact hs
  | pause => exact hs
  | unpause => exact hs
  | upgrade => exact hs

theorem step_conserved (s : Store) (c : Input) (hs : Conserved s) : Conserved (step s c) :=
  step_invariant hs fun _ h => h.conserved hs

theorem run_conserved (cs : List Input) : Conserved (run step Store.empty cs) :=
  run_invariant step_conserved Conserved.empty cs

theorem run_nonneg {cs : List Input} (h : ∀ c ∈ cs, c.op.SupplyNonneg) :
    Nonneg (run step Store.empty cs) := by
  refine run_invariant_of (P := fun _ c => c.op.SupplyNonneg)
    (fun s c hc hs => step_invariant hs fun _ he => he.nonneg hc hs) ?_ fun _ => le_rfl
  rintro xs c ys rfl
  exact h c (by simp)

/-! ## Overflow -/

@[simp]
theorem run_admin_trap {s s' : Store} {t : Trap} :
    Storage.admin.run s = (.trap t, s') ↔ s.admin = none ∧ .unwrapNone = t ∧ s = s' := by
  simp [Storage.admin]

@[simp]
theorem run_assertAdmin_trap {a : Address} {s s' : Store} {t : Trap} :
    (assertAdmin a).run s = (.trap t, s') ↔ s.admin = none ∧ .unwrapNone = t ∧ s = s' := by
  simp [assertAdmin]

@[simp]
theorem run_assertNotPaused_trap {s s' : Store} {t : Trap} :
    assertNotPaused.run s ≠ (.trap t, s') := by
  simp [assertNotPaused]

@[simp]
theorem run_validateAmount_trap {amount : I128} {s s' : Store} {t : Trap} :
    (validateAmount amount).run s ≠ (.trap t, s') := by
  simp [validateAmount]

/-- The arithmetic of the token cannot overflow, but for that of `mint`. -/
theorem exec_not_overflow {env : HostEnv} {op : Op} {s : Store} (hs : Conserved s) (hn : Nonneg s)
    (hop : ∀ admin to_ amount, op ≠ .mint admin to_ amount) :
    ((exec env op).run s).1 ≠ .trap .overflow := by
  intro htrap
  obtain ⟨s', h⟩ : ∃ s', (exec env op).run s = (.trap .overflow, s') := ⟨_, Prod.ext htrap rfl⟩
  cases op with
  | initializeContract => simp [exec, initializeContract] at h
  | transfer a b amount =>
    simp [exec, transfer] at h
    -- It can overflow in the debit or in the credit.
    obtain ⟨_, _, hpos, hbal, _, ⟨hover, _⟩ | ⟨x, hx, _, hover⟩⟩ := h
    · have := (s.balance a).le_hi
      omega
    · have hle := hs.credit_le hn (b := b) hbal hx
      rw [Store.balance_setBalance] at hle
      have hnn := hn.credit_nonneg hbal hx b
      have := s.totalSupply.le_hi
      omega
  | transferFrom spender a b amount =>
    simp [exec, transferFrom] at h
    -- It can overflow in the allowance, in the debit, or in the credit.
    obtain ⟨_, _, hpos, r, _, hall, hbal, ⟨hover, _⟩ | ⟨z, hz, ⟨hover, _⟩ | ⟨x, hx, _, hover⟩⟩⟩ := h
    · have := r.amount.le_hi
      omega
    · have := (s.balance a).le_hi
      omega
    · have hle := hs.credit_le hn (b := b) hbal hx
      rw [Store.balance_setBalance] at hle
      have hnn := hn.credit_nonneg hbal hx b
      have := s.totalSupply.le_hi
      omega
  | approve => simp [exec, approve] at h
  | mint admin b amount => exact hop admin b amount rfl
  | burn admin a amount =>
    simp [exec, burn, burnFrom] at h
    obtain ⟨_, _, _, hpos, hbal, ⟨hover, _⟩ | ⟨_, _, hover, _⟩⟩ := h
    · have hle := hs.balance_le hn a
      have := s.totalSupply.le_hi
      omega
    · have := (s.balance a).le_hi
      omega
  | burnSelf a amount =>
    simp [exec, burnSelf, burnFrom] at h
    obtain ⟨_, hpos, hbal, ⟨hover, _⟩ | ⟨_, _, hover, _⟩⟩ := h
    · have hle := hs.balance_le hn a
      have := s.totalSupply.le_hi
      omega
    · have := (s.balance a).le_hi
      omega
  | delegate => simp [exec, delegate] at h
  | undelegate => simp [exec, undelegate] at h
  | proposeAdmin => simp [exec, proposeAdmin] at h
  | acceptAdmin => simp [exec, acceptAdmin] at h
  | pause => simp [exec, pause] at h
  | unpause => simp [exec, unpause] at h
  | upgrade => simp [exec, upgrade] at h

/-- A mint whose supply or balance does not fit is aborted. -/
theorem exec_mint_overflow {env : HostEnv} {admin b : Address} {amount : I128} {s : Store}
    (hauth : env.auth admin = true) (hadmin : s.admin = some admin) (hpaused : s.paused = false)
    (hpos : 0 < amount.val)
    (hover : s.totalSupply.checkedAdd amount = none ∨ (s.balance b).checkedAdd amount = none) :
    ((exec env (.mint admin b amount)).run s).1 = .trap .overflow := by
  suffices h : ∃ s', (exec env (.mint admin b amount)).run s = (.trap .overflow, s') by
    obtain ⟨s', h⟩ := h
    rw [h]
  cases hsupply : s.totalSupply.checkedAdd amount with
  | none =>
    rw [IntRange.checkedAdd, IntRange.fit_eq_none] at hsupply
    exact ⟨s, by simp [exec, mint, hauth, hadmin, hpaused, hpos, hsupply]⟩
  | some supply =>
    -- The supply has been written when the balance does not fit.
    have hbal := hover.resolve_left (by rw [hsupply]; exact Option.some_ne_none supply)
    rw [IntRange.checkedAdd_eq_some] at hsupply
    rw [IntRange.checkedAdd, IntRange.fit_eq_none] at hbal
    exact ⟨s.setTotalSupply supply,
      by simp [exec, mint, hauth, hadmin, hpaused, hpos, hsupply, hbal]⟩

/-! ## The token conserves its supply -/

/-- Along every run, the balances add up to the supply, and a mint that does not fit is aborted and
    rolled back. If the token was not initialised with a negative supply, every balance lies
    between `0` and the supply, and no other call overflows. -/
theorem token_conservation (cs : List Input) :
    (run step Store.empty cs).held = (run step Store.empty cs).totalSupply.val ∧
    ((∀ c ∈ cs, c.op.SupplyNonneg) →
      (∀ a, 0 ≤ ((run step Store.empty cs).balance a).val ∧
        ((run step Store.empty cs).balance a).val ≤ (run step Store.empty cs).totalSupply.val) ∧
      ∀ env op, (∀ admin to_ amount, op ≠ .mint admin to_ amount) →
        ((exec env op).run (run step Store.empty cs)).1 ≠ .trap .overflow) ∧
    ∀ (env : HostEnv) (admin b : Address) (amount : I128),
      env.auth admin = true → (run step Store.empty cs).admin = some admin →
      (run step Store.empty cs).paused = false → 0 < amount.val →
      ((run step Store.empty cs).totalSupply.checkedAdd amount = none ∨
        ((run step Store.empty cs).balance b).checkedAdd amount = none) →
      ((exec env (.mint admin b amount)).run (run step Store.empty cs)).1 = .trap .overflow ∧
        step (run step Store.empty cs) ⟨env, .mint admin b amount⟩ = run step Store.empty cs := by
  have hs := run_conserved cs
  refine ⟨hs.held_eq, fun hsupply => ?_, fun env admin b amount hauth hadmin hpaused hpos hover => ?_⟩
  · have hn := run_nonneg hsupply
    exact ⟨fun a => ⟨hn a, hs.balance_le hn a⟩, fun env op hop => exec_not_overflow hs hn hop⟩
  · have htrap := exec_mint_overflow hauth hadmin hpaused hpos hover
    refine ⟨htrap, Call.commit_of_not_ok fun u s' h => ?_⟩
    rw [h] at htrap
    exact absurd htrap (by simp)

/-- A supply of `100`, of which the admin moves `40`. -/
def transferRun : List Input :=
  [⟨⟨.lit 0, .lit 1, fun _ => true, .ignored⟩,
      .initializeContract (.account 1) (.lit 100) [86] [86] (.lit 7)⟩,
    ⟨⟨.lit 0, .lit 2, fun _ => true, .ignored⟩, .transfer (.account 1) (.account 2) (.lit 40)⟩]

theorem token_conservation_transferRun :
    (run step Store.empty transferRun).balance (.account 2) = .lit 40 ∧
    ((run step Store.empty transferRun).balance (.account 2)).val ≤
      (run step Store.empty transferRun).totalSupply.val ∧
    ((exec ⟨.lit 0, .lit 3, fun _ => true, .ignored⟩ (.burnSelf (.account 2) (.lit 40))).run
      (run step Store.empty transferRun)).1 ≠ .trap .overflow := by
  have hsupply : ∀ c ∈ transferRun, c.op.SupplyNonneg := by
    simp [transferRun, Op.SupplyNonneg]
  obtain ⟨hbal, hover⟩ := (token_conservation transferRun).2.1 hsupply
  exact ⟨by decide, (hbal _).2, hover _ _ (by simp)⟩

end CosmosVote.Token
