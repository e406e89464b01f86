import CosmosVote.Token.Authority

/-!
# What is left of an allowance

An allowance goes down by what the spender moves, and keeps the ledger it expires at. An
expired or a used up one reads as `0`, although its entry is still there.

* `step_allowance`: only the approvals of the owner for the spender, and what the spender
  moves from the owner, change the entry;
* `allowance_accounting`: from an approval to the next one, the allowance reads as the amount
  less what has been moved, until it expires;
* `approve_replaces_iff`: `approve` does not look at the allowance it replaces. That reads as `0`
  exactly if the last one is used up (`UsedUp`).
-/

namespace CosmosVote.Token

open Soroban

/-- The owner and the spender of the allowance that a call writes. -/
def Op.allowanceKey : Op → Option (Address × Address)
  | .transferFrom spender from_ _ _ => some (from_, spender)
  | .approve owner spender _ _ => some (owner, spender)
  | _ => none

/-- The call is a successful `approve` of the owner for the spender. -/
def Approves (owner spender : Address) (s : Store) (c : Input) : Prop :=
  (∃ amount expiry, c.op = .approve owner spender amount expiry) ∧ Succeeds s c

/-- The call is a successful `transfer_from` by the spender from the owner. -/
def Spends (owner spender : Address) (s : Store) (c : Input) : Prop :=
  (∃ to_ amount, c.op = .transferFrom spender owner to_ amount) ∧ Succeeds s c

/-- The amount that a call is to move from the owner by the spender. -/
def Op.moved (owner spender : Address) : Op → ℤ
  | .transferFrom spender' from_ _ amount =>
    if from_ = owner ∧ spender' = spender then amount.val else 0
  | _ => 0

/-- The amount that a call moves from the owner by the spender: none if it fails. -/
def spent (owner spender : Address) (s : Store) (c : Input) : ℤ :=
  if Succeeds s c then c.op.moved owner spender else 0

/-- What the query of an allowance answers at the ledger `sequence`. -/
def Store.allowanceAt (s : Store) (sequence : U32) (owner spender : Address) : I128 :=
  ((s.allowance sequence owner spender).map Allowance.amount).getD (.lit 0)

@[simp]
theorem run_allowance (env : HostEnv) (owner spender : Address) (s : Store) :
    (allowance env owner spender).run s = (.ok (s.allowanceAt env.sequence owner spender), s) := by
  rw [allowance, Call.run_bind_of_ok (Storage.run_allowanceRecord env owner spender s), Call.run_pure,
    Store.allowanceAt]

/-- The amount of the entry for the owner and the spender. -/
def Store.amountLeft (s : Store) (owner spender : Address) : ℤ :=
  (s.allowances.lookup (owner, spender)).elim 0 fun a => a.amount.val

/-- There is an entry for the owner and the spender that expires at `expiry`, and is not negative. -/
def Store.ExpiresAt (s : Store) (owner spender : Address) (expiry : U32) : Prop :=
  ∃ amount : I128, s.allowances.lookup (owner, spender) = some ⟨amount, expiry⟩ ∧ 0 ≤ amount.val

variable {s s' : Store} {owner spender : Address} {expiry : U32}

/-- An entry reads as its amount until it expires. -/
theorem Store.ExpiresAt.allowanceAt_eq (h : s.ExpiresAt owner spender expiry) (sequence : U32) :
    (s.allowanceAt sequence owner spender).val =
      if sequence.val ≤ expiry.val then s.amountLeft owner spender else 0 := by
  obtain ⟨amount, hlookup, hnonneg⟩ := h
  rw [allowanceAt, allowance, amountLeft, hlookup, Option.filter_some, Option.elim_some]
  by_cases hexpired : expiry.val < sequence.val
  · rw [if_neg (by simp [hexpired]), if_neg (not_le.2 hexpired)]
    rfl
  · rw [if_pos (not_lt.1 hexpired)]
    by_cases hspent : amount.val ≤ 0
    · rw [if_neg (by simp [hspent])]
      exact le_antisymm hnonneg hspent
    · rw [if_pos (by simp [hexpired, hspent])]
      rfl

theorem Store.ExpiresAt.amountLeft_nonneg (h : s.ExpiresAt owner spender expiry) :
    0 ≤ s.amountLeft owner spender := by
  obtain ⟨amount, hlookup, hnonneg⟩ := h
  rwa [amountLeft, hlookup]

theorem Store.allowanceAt_of_none (h : s.allowances.lookup (owner, spender) = none) (sequence : U32) :
    s.allowanceAt sequence owner spender = .lit 0 := by
  rw [allowanceAt, allowance, h]
  rfl

/-! ## One call -/

/-- A call writes no other allowance than that of its own owner and spender. -/
theorem Effect.allowances_eq {env : HostEnv} {op : Op} (h : Effect env s op s')
    {k : Address × Address} (hk : op.allowanceKey ≠ some k) :
    s'.allowances.lookup k = s.allowances.lookup k := by
  cases h with
  | transferFrom => exact Finmap.lookup_insert_of_ne _ fun e => hk (by rw [e]; rfl)
  | approve => exact Finmap.lookup_insert_of_ne _ fun e => hk (by rw [e]; rfl)
  | _ => rfl

/-- An approval replaces the entry. -/
theorem Effect.approved {env : HostEnv} {amount : I128}
    (h : Effect env s (.approve owner spender amount expiry) s') :
    s'.ExpiresAt owner spender expiry ∧ s'.amountLeft owner spender = amount.val := by
  cases h with
  | approve _ hnonneg =>
    have hlookup : (s.allowances.insert (owner, spender) ⟨amount, expiry⟩).lookup (owner, spender) =
        some ⟨amount, expiry⟩ := Finmap.lookup_insert _
    refine ⟨⟨amount, hlookup, hnonneg⟩, ?_⟩
    rw [Store.amountLeft, Store.emit, Store.setAllowance, hlookup, Option.elim_some]

/-- A call on the entry that is not an approval is a `transfer_from`. -/
theorem exists_transferFrom {c : Input} (hsucc : Succeeds s c) (hc : ¬Approves owner spender s c)
    (hkey : c.op.allowanceKey = some (owner, spender)) :
    ∃ to_ amount, c.op = .transferFrom spender owner to_ amount := by
  cases hop : c.op with
  | approve =>
    rw [hop] at hkey
    cases hkey
    exact absurd ⟨⟨_, _, hop⟩, hsucc⟩ hc
  | transferFrom =>
    rw [hop] at hkey
    cases hkey
    exact ⟨_, _, rfl⟩
  | _ =>
    rw [hop] at hkey
    cases hkey

/-- A call that is not an approval takes what the spender moves off the entry, which has not expired
    then. -/
theorem step_allowance (h : s.ExpiresAt owner spender expiry) {c : Input}
    (hc : ¬Approves owner spender s c) :
    (step s c).ExpiresAt owner spender expiry ∧
      (step s c).amountLeft owner spender + spent owner spender s c = s.amountLeft owner spender ∧
      (Spends owner spender s c → c.env.sequence.val ≤ expiry.val) := by
  obtain ⟨amount, hlookup, hnonneg⟩ := h
  by_cases hsucc : Succeeds s c
  · have he := hsucc.effect
    rw [spent, if_pos hsucc]
    by_cases hkey : c.op.allowanceKey = some (owner, spender)
    · -- It finds the entry live.
      obtain ⟨to_, moved, hop⟩ := exists_transferFrom hsucc hc hkey
      rw [hop] at he ⊢
      obtain ⟨record, remaining, hrecord, hlive, hallowed, hremaining, hafter⟩ := he.allowance_spent
      obtain rfl := Option.some_inj.1 (hlookup.symm.trans hrecord)
      dsimp only at hallowed hremaining
      refine ⟨⟨remaining, hafter, by omega⟩, ?_, fun _ => hlive⟩
      rw [Store.amountLeft, Store.amountLeft, hafter, hlookup, Op.moved, if_pos ⟨rfl, rfl⟩]
      simp only [Option.elim_some]
      omega
    · have hsame := he.allowances_eq hkey
      refine ⟨⟨amount, hsame.trans hlookup, hnonneg⟩, ?_, ?_⟩
      · have hnone : c.op.moved owner spender = 0 := by
          rw [Op.moved.eq_def]
          split
          · rename_i hop
            rw [hop] at hkey
            exact if_neg fun e => hkey (by rw [Op.allowanceKey, e.1, e.2])
          · rfl
        rw [Store.amountLeft, hsame, hnone, add_zero, Store.amountLeft]
      · rintro ⟨⟨_, _, hop⟩, _⟩
        rw [hop] at hkey
        exact absurd rfl hkey
  · rw [step_of_not_succeeds hsucc, spent, if_neg hsucc]
    exact ⟨⟨amount, hlookup, hnonneg⟩, add_zero _, fun hspends => absurd hspends.2 hsucc⟩

/-! ## From one approval to the next -/

variable {cs ds : List Input} {c : Input} {amount : I128}

/-- Until the next approval, the entry goes down by what has been moved, all of it before it
    expires. -/
theorem run_amountLeft (h : s.ExpiresAt owner spender expiry)
    (hnone : Along step (fun s c => ¬Approves owner spender s c) s ds) :
    (run step s ds).ExpiresAt owner spender expiry ∧
      (run step s ds).amountLeft owner spender + total step (spent owner spender) s ds =
        s.amountLeft owner spender ∧
      Along step (fun s c => Spends owner spender s c → c.env.sequence.val ≤ expiry.val) s ds := by
  have hrun {s : Store} {xs : List Input} (h : s.ExpiresAt owner spender expiry)
      (hnone : Along step (fun s c => ¬Approves owner spender s c) s xs) :
      (run step s xs).ExpiresAt owner spender expiry :=
    run_invariant_of (I := fun s : Store => s.ExpiresAt owner spender expiry)
      (fun s c hc hs => (step_allowance hs hc).1) hnone h
  refine ⟨hrun h hnone, ?_, ?_⟩
  · exact run_total (I := fun s : Store => s.ExpiresAt owner spender expiry)
      (g := fun s => s.amountLeft owner spender)
      (fun s c hc hs => ⟨(step_allowance hs hc).1, (step_allowance hs hc).2.1⟩) hnone h
  · rintro xs c ys rfl
    exact (step_allowance (hrun h hnone.left) (hnone xs c ys rfl)).2.2

/-- The same, from the approval on. -/
theorem run_approved (hop : c.op = .approve owner spender amount expiry) (hc : Succeeds s c)
    (hnone : Along step (fun s d => ¬Approves owner spender s d) (step s c) ds) :
    (run step (step s c) ds).ExpiresAt owner spender expiry ∧
      (run step (step s c) ds).amountLeft owner spender +
        total step (spent owner spender) (step s c) ds = amount.val ∧
      Along step (fun s d => Spends owner spender s d → d.env.sequence.val ≤ expiry.val) (step s c) ds := by
  have he := hc.effect
  rw [hop] at he
  obtain ⟨hexpires, hamount⟩ := he.approved
  rw [← hamount]
  exact run_amountLeft hexpires hnone

/-- From a successful approval in a reachable state to the next one of the owner for the spender, whatever
    else is called, at whatever ledgers:

    * what the spender moves from the owner is at most the amount, and moved before it expires;
    * the allowance reads as the amount less what has been moved until it expires, and as `0` from then
      on;
    * no call on another owner or spender changes what it reads as. -/
theorem allowance_accounting (hop : c.op = .approve owner spender amount expiry)
    (hc : Succeeds (run step Store.empty cs) c)
    (hnone : Along step (fun s d => ¬Approves owner spender s d) (run step Store.empty (cs ++ [c])) ds) :
    total step (spent owner spender) (run step Store.empty (cs ++ [c])) ds ≤ amount.val ∧
    Along step (fun s d => Spends owner spender s d → d.env.sequence.val ≤ expiry.val)
      (run step Store.empty (cs ++ [c])) ds ∧
    (∀ env : HostEnv, ∃ v : I128,
      (allowance env owner spender).run (run step Store.empty (cs ++ c :: ds)) =
        (.ok v, run step Store.empty (cs ++ c :: ds)) ∧
      v.val = if env.sequence.val ≤ expiry.val then
        amount.val - total step (spent owner spender) (run step Store.empty (cs ++ [c])) ds else 0) ∧
    ∀ d : Input, d.op.allowanceKey ≠ some (owner, spender) → ∀ env : HostEnv,
      ((allowance env owner spender).run (step (run step Store.empty (cs ++ c :: ds)) d)).1 =
        ((allowance env owner spender).run (run step Store.empty (cs ++ c :: ds))).1 := by
  rw [run_concat] at hnone ⊢
  obtain ⟨hexpires, hleft, hlive⟩ := run_approved hop hc hnone
  rw [run_append, run_cons]
  refine ⟨?_, hlive, fun env => ?_, fun d hkey env => ?_⟩
  · have := hexpires.amountLeft_nonneg
    omega
  · refine ⟨_, run_allowance env owner spender _, ?_⟩
    rw [hexpires.allowanceAt_eq, ← hleft, add_sub_cancel_right]
  · rw [run_allowance, run_allowance, Store.allowanceAt, Store.allowanceAt, Store.allowance, Store.allowance]
    have hsame := step_invariant (c := d) (I := fun t : Store => t.allowances.lookup (owner, spender) =
      (run step (step (run step Store.empty cs) c) ds).allowances.lookup (owner, spender)) rfl
      fun _ he => he.allowances_eq hkey
    rw [hsame]

/-- A call that everyone has signed, at a ledger. -/
def signedAt (sequence : U32) (op : Op) : Input := ⟨⟨.lit 0, sequence, fun _ => true, .ignored⟩, op⟩

/-- The account `1` holds a supply of `100`. -/
def funded : List Input :=
  [signedAt (.lit 1) (.initializeContract (.account 1) (.lit 100) [86] [86] (.lit 7))]

/-- It approves `60` of it for the account `2`, until the ledger `10`. -/
def approval : Input := signedAt (.lit 2) (.approve (.account 1) (.account 2) (.lit 60) (.lit 10))

/-- The account `2` moves `40` of them. -/
def spending : Input := signedAt (.lit 5) (.transferFrom (.account 2) (.account 1) (.account 3) (.lit 40))

/-- `20` are left at the ledger `10`. -/
theorem allowance_accounting_spending :
    total step (spent (.account 1) (.account 2)) (run step Store.empty (funded ++ [approval]))
      [spending] = 40 ∧
    ∃ v : I128, (allowance (signedAt (.lit 10) spending.op).env (.account 1) (.account 2)).run
        (run step Store.empty (funded ++ [approval, spending])) =
      (.ok v, run step Store.empty (funded ++ [approval, spending])) ∧ v.val = 20 := by
  have htotal : total step (spent (.account 1) (.account 2)) (run step Store.empty (funded ++ [approval]))
      [spending] = 40 := by decide
  have hnone : Along step (fun s d => ¬Approves (.account 1) (.account 2) s d)
      (run step Store.empty (funded ++ [approval])) [spending] := by
    refine .cons ?_ along_nil
    rintro ⟨⟨_, _, hop⟩, _⟩
    cases hop
  have hc : Succeeds (run step Store.empty funded) approval := by decide
  obtain ⟨_, _, hreads, _⟩ := allowance_accounting rfl hc hnone
  obtain ⟨v, hv, hval⟩ := hreads (signedAt (.lit 10) spending.op).env
  exact ⟨htotal, v, hv, hval.trans (by decide)⟩

/-! ## One approval after another -/

/-- The call is a successful `approve` of the owner for the spender, of more than `0`. -/
def Grants (owner spender : Address) (s : Store) (c : Input) : Prop :=
  ∃ amount expiry, c.op = .approve owner spender amount expiry ∧ 0 < amount.val ∧ Succeeds s c

/-- At the ledger `sequence`, nothing is left of the last approval of the owner for the spender in a
    run. -/
inductive UsedUp (owner spender : Address) (sequence : U32) : List Input → Prop
  /-- There was none. -/
  | never {cs : List Input}
      (hnone : Along step (fun s d => ¬Approves owner spender s d) Store.empty cs) :
      UsedUp owner spender sequence cs
  /-- It has expired, or the spender has moved all of it since; there is nothing to move if it was of
      `0`. -/
  | since {cs ds : List Input} {c : Input} {amount : I128} {expiry : U32}
      (hop : c.op = .approve owner spender amount expiry) (hc : Succeeds (run step Store.empty cs) c)
      (hnone : Along step (fun s d => ¬Approves owner spender s d) (run step Store.empty (cs ++ [c])) ds)
      (hused : expiry.val < sequence.val ∨
        total step (spent owner spender) (run step Store.empty (cs ++ [c])) ds = amount.val) :
      UsedUp owner spender sequence (cs ++ c :: ds)

/-- Without an approval there is no entry. -/
theorem run_allowances_none
    (hnone : Along step (fun s d => ¬Approves owner spender s d) Store.empty cs) :
    (run step Store.empty cs).allowances.lookup (owner, spender) = none := by
  refine run_invariant_of (I := fun s : Store => s.allowances.lookup (owner, spender) = none) ?_ hnone
    (Finmap.lookup_empty _)
  intro s c hc hs
  by_cases hsucc : Succeeds s c
  · have he := hsucc.effect
    by_cases hkey : c.op.allowanceKey = some (owner, spender)
    · -- A spender needs an entry to move anything.
      obtain ⟨_, _, hop⟩ := exists_transferFrom hsucc hc hkey
      rw [hop] at he
      obtain ⟨record, _, hrecord, _⟩ := he.allowance_spent
      cases hs.symm.trans hrecord
    · rw [he.allowances_eq hkey, hs]
  · rwa [step_of_not_succeeds hsucc]

/-- After an approval, the allowance reads as `0` exactly if it has expired, or all of it has been
    moved. -/
theorem approved_reads_zero_iff (hop : c.op = .approve owner spender amount expiry)
    (hc : Succeeds (run step Store.empty cs) c)
    (hnone : Along step (fun s d => ¬Approves owner spender s d) (run step Store.empty (cs ++ [c])) ds)
    (sequence : U32) :
    (run step Store.empty (cs ++ c :: ds)).allowanceAt sequence owner spender = .lit 0 ↔
      expiry.val < sequence.val ∨
        total step (spent owner spender) (run step Store.empty (cs ++ [c])) ds = amount.val := by
  rw [run_concat] at hnone ⊢
  obtain ⟨hexpires, hleft, _⟩ := run_approved hop hc hnone
  rw [run_append, run_cons, ← IntRange.val_inj, hexpires.allowanceAt_eq]
  change (if sequence.val ≤ expiry.val then _ else 0) = (0 : ℤ) ↔ _
  split
  · rename_i hlive
    rw [or_iff_right (not_lt.2 hlive)]
    omega
  · rename_i hexpired
    exact iff_of_true rfl (.inl (not_le.1 hexpired))

/-- The allowance reads as `0` exactly if the last approval is used up. -/
theorem reads_zero_iff (sequence : U32) :
    (run step Store.empty cs).allowanceAt sequence owner spender = .lit 0 ↔
      UsedUp owner spender sequence cs := by
  constructor
  · intro hzero
    rcases along_not_or_exists_last step (Approves owner spender) Store.empty cs with
      hnone | ⟨xs, c, ys, rfl, ⟨⟨_, _, hop⟩, hc⟩, hnone⟩
    · exact .never hnone
    · exact .since hop hc hnone ((approved_reads_zero_iff hop hc hnone sequence).1 hzero)
  · rintro (hnone | ⟨hop, hc, hnone, hused⟩)
    · exact Store.allowanceAt_of_none (run_allowances_none hnone) sequence
    · exact (approved_reads_zero_iff hop hc hnone sequence).2 hused

/-- Along every run, the allowance reads as `0` before each approval of more than `0` exactly if each of
    these is made when the last approval of the owner for the spender is used up. Of two approvals with
    none in between, where the first has not expired at the second, it reads as `0` before the second
    exactly if the spender has moved all of the first. -/
theorem approve_replaces_iff (owner spender : Address) (cs : List Input) :
    ((∀ xs c ys, cs = xs ++ c :: ys → Grants owner spender (run step Store.empty xs) c →
        ((allowance c.env owner spender).run (run step Store.empty xs)).1 = .ok (.lit 0)) ↔
      ∀ xs c ys, cs = xs ++ c :: ys → Grants owner spender (run step Store.empty xs) c →
        UsedUp owner spender c.env.sequence xs) ∧
    ∀ xs c ys d zs amount expiry, cs = xs ++ c :: (ys ++ d :: zs) →
      c.op = .approve owner spender amount expiry → Succeeds (run step Store.empty xs) c →
      Along step (fun s d => ¬Approves owner spender s d) (run step Store.empty (xs ++ [c])) ys →
      d.env.sequence.val ≤ expiry.val →
      (((allowance d.env owner spender).run (run step Store.empty (xs ++ c :: ys))).1 = .ok (.lit 0) ↔
        total step (spent owner spender) (run step Store.empty (xs ++ [c])) ys = amount.val) := by
  have hreads (env : HostEnv) (s : Store) :
      ((allowance env owner spender).run s).1 = .ok (.lit 0) ↔
        s.allowanceAt env.sequence owner spender = .lit 0 := by
    rw [run_allowance, Outcome.ok.injEq]
  refine ⟨?_, ?_⟩
  · simp only [hreads, reads_zero_iff]
  · intro xs c ys d zs amount expiry _ hop hc hnone hlive
    rw [hreads, approved_reads_zero_iff hop hc hnone, or_iff_right (not_lt.2 hlive)]

/-- The account `1` approves `30` for the account `2`. -/
def approvingAgain : Input :=
  signedAt (.lit 3) (.approve (.account 1) (.account 2) (.lit 30) (.lit 10))

/-- It does so although `60` are left of its last approval, which nobody has moved. -/
theorem approve_not_reset :
    Grants (.account 1) (.account 2) (run step Store.empty (funded ++ [approval])) approvingAgain ∧
    ((allowance approvingAgain.env (.account 1) (.account 2)).run
      (run step Store.empty (funded ++ [approval]))).1 = .ok (.lit 60) ∧
    ((allowance approvingAgain.env (.account 1) (.account 2)).run
      (run step Store.empty (funded ++ [approval, approvingAgain]))).1 = .ok (.lit 30) :=
  ⟨⟨.lit 30, .lit 10, rfl, by decide, by decide⟩, by decide, by decide⟩

end CosmosVote.Token
