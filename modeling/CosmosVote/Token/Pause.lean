import CosmosVote.Token.Conservation

/-!
# The pause of the token

While the token is paused, no tokens are moved or minted, and the admin burns none. But an
owner can still burn their own (`Burns`): `burn_self` does not check whether the token is
paused.

* `step_paused`: what any call but `unpause` does to a paused token;
* `pause_freeze_iff`: the balances and the supply stay as they are exactly as long as no
  owner burns tokens.
-/

namespace CosmosVote.Token

open Soroban

/-- The balances and the supply are as they were. -/
structure SameFunds (s s' : Store) : Prop where
  totalSupply : s'.totalSupply = s.totalSupply
  balance : ∀ a, s'.balance a = s.balance a

theorem SameFunds.refl (s : Store) : SameFunds s s := ⟨rfl, fun _ => rfl⟩

theorem SameFunds.trans {s t u : Store} (h : SameFunds s t) (h' : SameFunds t u) : SameFunds s u where
  totalSupply := h'.totalSupply.trans h.totalSupply
  balance a := (h'.balance a).trans (h.balance a)

/-- The call is a `burn_self` by an owner who has signed it and holds the amount. -/
def Burns (s : Store) (c : Input) : Prop :=
  ∃ owner amount, c.op = .burnSelf owner amount ∧ c.env.auth owner = true ∧ 0 < amount.val ∧
    amount.val ≤ (s.balance owner).val ∧ ∃ supply : I128, s.totalSupply.val - amount.val = supply.val

/-- The token has been initialised, and is paused. -/
structure Paused (s : Store) : Prop where
  initialized : s.initialized = true
  paused : s.paused = true

/-- Only an admin can pause the token, so that it has been initialised before. -/
theorem run_paused {cs : List Input} (h : (run step Store.empty cs).paused = true) :
    Paused (run step Store.empty cs) := by
  refine ⟨(run_invariant (I := fun s => Conserved s ∧ (s.paused = true → s.initialized = true)) ?_
    ⟨Conserved.empty, Bool.noConfusion⟩ cs).2 h, h⟩
  rintro s ⟨env, op⟩ ⟨hs, hinit⟩
  refine ⟨step_conserved s _ hs,
    step_invariant (I := fun t => t.paused = true → t.initialized = true) hinit fun s' he => ?_⟩
  cases he with
  | initializeContract => exact fun _ => rfl
  | pause _ hadmin =>
    intro _
    by_contra hnot
    have hnone := (hs.fresh (Bool.eq_false_of_not_eq_true hnot)).1
    rw [hadmin] at hnone
    cases hnone
  | unpause => exact Bool.noConfusion
  | _ => exact hinit

variable {s s' : Store} {c : Input}

/-- An owner's burn takes its amount off the supply. -/
theorem Burns.totalSupply_lt (h : Burns s c) : (step s c).totalSupply.val < s.totalSupply.val := by
  obtain ⟨owner, amount, hop, hauth, hpos, hbal, supply, hsupply⟩ := h
  obtain ⟨x, hx, _⟩ : ∃ x : I128, (s.balance owner).checkedSub amount = some x ∧ _ := by
    have := (s.balance owner).le_hi
    exact IntRange.exists_fit (by omega) (by omega)
  rw [IntRange.checkedSub_eq_some] at hx
  have he : Effect c.env s c.op ((s.resupply owner supply x).emit (.burned owner owner amount)) := by
    rw [hop]
    exact .burnSelf hauth hpos hbal hsupply hx
  rw [step_of_effect he]
  change supply.val < s.totalSupply.val
  omega

/-- A call of the paused token leaves it paused and the funds as they are, or it burns some. -/
theorem step_paused (hs : Paused s) (hop : ∀ admin, c.op ≠ .unpause admin) :
    Paused (step s c) ∧ (SameFunds s (step s c) ∧ ¬Burns s c ∨
      Burns s c ∧ (step s c).totalSupply.val < s.totalSupply.val) := by
  by_cases hburns : Burns s c
  · refine ⟨?_, .inr ⟨hburns, hburns.totalSupply_lt⟩⟩
    obtain ⟨owner, amount, hburn, _⟩ := hburns
    refine step_invariant hs fun s' he => ?_
    rw [hburn] at he
    cases he
    exact ⟨hs.initialized, hs.paused⟩
  · suffices h : Paused (step s c) ∧ SameFunds s (step s c) from ⟨h.1, .inl ⟨h.2, hburns⟩⟩
    refine step_invariant (I := fun t => Paused t ∧ SameFunds s t) ⟨hs, .refl s⟩ fun s' he => ?_
    obtain ⟨hinit, hpaused⟩ := hs
    obtain ⟨env, op⟩ := c
    have hactive (h : s.paused = false) : False := Bool.false_ne_true (h.symm.trans hpaused)
    cases he with
    | initializeContract hnot => exact absurd (hnot.symm.trans hinit) Bool.false_ne_true
    | transferSelf _ h => exact (hactive h).elim
    | transfer _ h => exact (hactive h).elim
    | transferFrom _ h => exact (hactive h).elim
    | mint _ _ h => exact (hactive h).elim
    | burn _ _ h => exact (hactive h).elim
    | burnSelf hauth hpos hbal hsupply =>
      exact absurd ⟨_, _, rfl, hauth, hpos, hbal, _, hsupply⟩ hburns
    | pause _ _ h => exact (hactive h).elim
    | unpause => exact absurd rfl (hop _)
    | _ => exact ⟨⟨hinit, hpaused⟩, rfl, fun _ => rfl⟩

/-- From every reachable state in which the token is paused, along every sequence of calls other than
    `unpause`: the balances and the supply are as they were exactly if no call of it is a burn by an
    owner. -/
theorem pause_freeze_iff {cs ds : List Input} (hpaused : (run step Store.empty cs).paused = true)
    (hds : ∀ c ∈ ds, ∀ admin, c.op ≠ .unpause admin) :
    SameFunds (run step Store.empty cs) (run step Store.empty (cs ++ ds)) ↔
      Along step (fun s c => ¬Burns s c) (run step Store.empty cs) ds := by
  rw [run_append]
  have hs := run_paused hpaused
  have halong : Along step (fun _ c => ∀ admin, c.op ≠ .unpause admin) (run step Store.empty cs) ds := by
    rintro xs c ys rfl
    exact hds c (by simp)
  constructor
  · -- A burn takes its amount off the supply, and nothing puts it back.
    intro hsame
    refine (run_eq_iff (I := Paused) (f := fun s : Store => -s.totalSupply.val) halong hs
      (fun s c hop hs => (step_paused hs hop).1) fun s c hop hs => ?_).2.1 (by rw [hsame.totalSupply])
    rcases (step_paused hs hop).2 with ⟨hfunds, hnot⟩ | ⟨hburns, hlt⟩
    · exact .inr ⟨hnot, by rw [hfunds.totalSupply]⟩
    · exact .inl ⟨hburns, neg_lt_neg hlt⟩
  · intro hnot
    refine (run_invariant_of (I := fun t => Paused t ∧ SameFunds (run step Store.empty cs) t)
      (fun s c h hs => ?_) (halong.and hnot) ⟨hs, .refl _⟩).2
    obtain ⟨hpaused, ⟨hfunds, _⟩ | ⟨hburns, _⟩⟩ := step_paused hs.1 h.1
    · exact ⟨hpaused, hs.2.trans hfunds⟩
    · exact absurd hburns h.2

/-- A call that everyone has signed. -/
def signed (op : Op) : Input := ⟨⟨.lit 0, .lit 1, fun _ => true, .ignored⟩, op⟩

/-- The account `1` holds a supply of `100`, and pauses the token. -/
def pausing : List Input :=
  [signed (.initializeContract (.account 1) (.lit 100) [86] [86] (.lit 7)), signed (.pause (.account 1))]

/-- Neither a transfer nor a burn of the admin goes through. -/
theorem pause_freeze_iff_transfer :
    SameFunds (run step Store.empty pausing) (run step Store.empty (pausing ++
      [signed (.transfer (.account 1) (.account 2) (.lit 40)),
        signed (.burn (.account 1) (.account 1) (.lit 40))])) := by
  refine (pause_freeze_iff (by decide) (by simp [signed])).2 (.cons ?_ (.cons ?_ along_nil))
  · rintro ⟨_, _, hop, _⟩
    cases hop
  · rintro ⟨_, _, hop, _⟩
    cases hop

/-- A burn of the owner does. -/
theorem pause_not_frozen :
    (run step Store.empty pausing).paused = true ∧
    ¬SameFunds (run step Store.empty pausing)
      (run step Store.empty (pausing ++ [signed (.burnSelf (.account 1) (.lit 40))])) := by
  refine ⟨by decide, fun h => ?_⟩
  have hsupply := h.totalSupply
  revert hsupply
  decide

end CosmosVote.Token
