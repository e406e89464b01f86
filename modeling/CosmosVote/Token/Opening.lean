import CosmosVote.Token.Conservation

/-!
# The supply the token opens with

No call but the one that opens the contract can take a balance, or the supply, below zero
(`Effect.nonneg`). That one writes the supply it is given, and checks nothing about it.

* `run_nonneg_of`: no balance is negative if the contract was not opened with a negative supply;
* `nonneg_ledger_iff`: no balance and no supply of a run is negative exactly if the contract is
  opened with a supply that is not.
-/

namespace CosmosVote.Token

open Soroban

/-- If the call opens the contract, it is not with a negative supply. -/
def OpensNonneg (s : Store) (c : Input) : Prop := s.initialized = false → c.op.SupplyNonneg

/-- Neither the supply nor any balance is negative. -/
structure NonnegLedger (s : Store) : Prop where
  totalSupply : 0 ≤ s.totalSupply.val
  balance : ∀ a, 0 ≤ (s.balance a).val

variable {s s' : Store} {env : HostEnv} {op : Op} {c : Input}

/-- A contract stays initialised. -/
theorem Effect.initialized (h : Effect env s op s') (hinit : s.initialized = true) :
    s'.initialized = true := by
  cases h with
  | initializeContract => rfl
  | _ => exact hinit

theorem run_initialized (hinit : s.initialized = true) (cs : List Input) :
    (run step s cs).initialized = true :=
  run_invariant (I := fun t : Store => t.initialized = true)
    (fun _ _ hs => step_invariant hs fun _ he => he.initialized hs) hinit cs

/-- The call that opens the contract finds it closed, and writes the supply it is given. -/
theorem Effect.opened {admin : Address} {supply : I128} {name symbol : Text} {decimals : U32}
    (h : Effect env s (.initializeContract admin supply name symbol decimals) s') :
    s.initialized = false ∧ s'.initialized = true ∧ s'.totalSupply = supply := by
  cases h with
  | initializeContract hinit => exact ⟨hinit, rfl, rfl⟩

/-- A closed contract can always be opened. -/
theorem step_opens (hinit : s.initialized = false) {admin : Address} {supply : I128} {name symbol : Text}
    {decimals : U32} (hop : c.op = .initializeContract admin supply name symbol decimals) :
    (step s c).initialized = true := by
  have he : Effect c.env s c.op _ := hop ▸ Effect.initializeContract hinit
  rw [step_of_effect he]
  rfl

/-- A call leaves no balance negative, unless it opens the contract with a negative supply. -/
theorem step_nonneg (hc : OpensNonneg s c) (hs : Nonneg s) : Nonneg (step s c) := by
  obtain ⟨env, op⟩ := c
  refine step_invariant hs fun s' he => he.nonneg ?_ hs
  -- The contract is not opened twice.
  cases he with
  | initializeContract hinit => exact hc hinit
  | _ => trivial

theorem run_nonneg_of {cs : List Input} (h : Along step OpensNonneg Store.empty cs) :
    Nonneg (run step Store.empty cs) :=
  run_invariant_of (fun _ _ hc hs => step_nonneg hc hs) h fun _ => le_rfl

/-- The supply is what the balances add up to. -/
theorem Conserved.nonnegLedger (hs : Conserved s) (hn : Nonneg s) : NonnegLedger s := by
  refine ⟨?_, hn⟩
  rw [← hs.held_eq]
  exact Finmap.sum_nonneg hn.entry

/-- The contract is opened with the supply `supply`. -/
structure OpensWith (s : Store) (c : Input) (supply : I128) : Prop where
  op_eq : ∃ admin name symbol decimals, c.op = .initializeContract admin supply name symbol decimals
  succeeds : Succeeds s c

/-- Along a run in which the contract is opened, whether that is with a negative supply is a matter of
    the one call that opens it. -/
theorem OpensWith.along_iff {cs ds : List Input} {supply : I128}
    (h : OpensWith (run step Store.empty cs) c supply) :
    Along step OpensNonneg Store.empty (cs ++ c :: ds) ↔ 0 ≤ supply.val := by
  obtain ⟨⟨admin, name, symbol, decimals, hop⟩, hsucc⟩ := h
  have he := hsucc.effect
  rw [hop] at he
  have hinit := he.opened.1
  constructor
  · intro halong
    have hsupply := halong cs c ds rfl hinit
    rwa [hop] at hsupply
  · intro hsupply
    refine .append ?_ (.cons (fun _ => by rw [hop]; exact hsupply) ?_)
    · -- No call before it opens the contract.
      rintro xs d ys rfl hbefore
      cases hd : d.op with
      | initializeContract =>
        rw [run_append, run_cons, run_initialized (step_opens hbefore hd)] at hinit
        cases hinit
      | _ => trivial
    · -- From then on it is open.
      rintro xs d ys rfl hafter
      rw [run_initialized (step_opens hinit hop)] at hafter
      cases hafter

/-- Along every run in which the contract is opened, no balance and no supply is ever negative, in any
    state of the run, exactly if the supply it is opened with is not. -/
theorem nonneg_ledger_iff {cs : List Input} {supply : I128}
    (h : OpensWith (run step Store.empty cs) c supply) (ds : List Input) :
    (∀ zs, zs <+: cs ++ c :: ds → NonnegLedger (run step Store.empty zs)) ↔ 0 ≤ supply.val := by
  constructor
  · intro hall
    obtain ⟨⟨admin, name, symbol, decimals, hop⟩, hsucc⟩ := h
    -- The supply is read in the state that the opening leaves.
    have hnonneg := (hall (cs ++ [c]) ⟨ds, by rw [List.append_assoc, List.singleton_append]⟩).totalSupply
    have he := hsucc.effect
    rw [hop] at he
    rwa [run_concat, he.opened.2.2] at hnonneg
  · rintro hsupply zs ⟨ws, hws⟩
    have halong : Along step OpensNonneg Store.empty (cs ++ c :: ds) := h.along_iff.2 hsupply
    rw [← hws] at halong
    exact (run_conserved zs).nonnegLedger (run_nonneg_of halong.left)

/-- The contract is opened for the account `1`. -/
def openingWith (supply : I128) : Input :=
  ⟨⟨.lit 0, .lit 1, fun _ => true, .ignored⟩, .initializeContract (.account 1) supply [86] [86] (.lit 7)⟩

/-- Of a supply of `100`, the account burns `40`. -/
theorem nonneg_ledger_iff_burn :
    NonnegLedger (run step Store.empty [openingWith (.lit 100),
      ⟨⟨.lit 0, .lit 2, fun _ => true, .ignored⟩, .burnSelf (.account 1) (.lit 40)⟩]) := by
  have hopens : OpensWith (run step Store.empty []) (openingWith (.lit 100)) (.lit 100) :=
    ⟨⟨_, _, _, _, rfl⟩, by decide⟩
  exact (nonneg_ledger_iff hopens _).2 (by decide) _ (List.prefix_refl _)

/-- The contract can be opened with a supply of `-100`, which is then the balance of its admin. -/
theorem opens_negative :
    OpensWith (run step Store.empty []) (openingWith (.lit (-100))) (.lit (-100)) ∧
    (run step Store.empty [openingWith (.lit (-100))]).balance (.account 1) = .lit (-100) ∧
    ¬NonnegLedger (run step Store.empty [openingWith (.lit (-100))]) :=
  ⟨⟨⟨_, _, _, _, rfl⟩, by decide⟩, by decide, fun h => absurd h.totalSupply (by decide)⟩

end CosmosVote.Token
