import CosmosVote.Governance.Lifecycle

/-!
# The cooldown of a proposer

A proposer waits, after each proposal, for as long as the cooldown says that is configured when
they make the next one.

* `Effect.lastProposal`: the time of the last proposal of a proposer is written by that proposal
  only, and by each, whatever the cooldown is at that time;
* `run_lastProposal`: so it is kept up to the next one;
* `cooldown_spacing`: that one comes when the wait is over.
-/

namespace CosmosVote.Governance

open Soroban

variable {ω : Type} {s s' : Store} {env : Env ω} {op : Op} {o o' : ω} {proposer : Address}

/-- Who makes a proposal with the call. -/
def Op.creator : Op → Option Address
  | .createProposal proposer _ _ _ _ _ _ => some proposer
  | _ => none

/-- The call makes a proposal of this proposer. -/
def Proposes (proposer : Address) (s : Store) (i : Input ω) : Prop :=
  i.op.creator = some proposer ∧ Succeeds s i

instance (proposer : Address) (s : Store) (i : Input ω) : Decidable (Proposes proposer s i) :=
  inferInstanceAs (Decidable (_ ∧ _))

/-- A proposal writes its time for its proposer, and no other call writes one. -/
theorem Effect.lastProposal (h : Effect env s o op s' o') (proposer : Address) :
    s'.lastProposal.lookup proposer =
      if op.creator = some proposer then some env.timestamp else s.lastProposal.lookup proposer := by
  obtain ⟨⟩ := s
  cases h with
  | createProposal =>
    refine (Finmap.lookup_insert_eq_ite ..).trans ?_
    simp only [Op.creator, Option.some_inj, eq_comm]
    rfl
  | _ => exact (if_neg nofun).symm

/-- A proposal is made when the wait that the last one asks for is over. -/
theorem Effect.cooldown (h : Effect env s o op s' o') (hop : op.creator = some proposer) {last : U64}
    (hlast : s.lastProposal.lookup proposer = some last) (hpos : 0 < s.proposalCooldown.val) :
    last.val + s.proposalCooldown.val ≤ env.timestamp.val := by
  cases h with
  | createProposal _ _ _ _ _ _ _ _ _ _ _ _ _ hcooldown =>
    obtain rfl := Option.some_inj.1 hop
    obtain ⟨ready, hready, hle⟩ := hcooldown hpos last hlast
    rwa [hready]
  | _ => cases hop

/-- The time of the last proposal is kept up to the next one. -/
theorem run_lastProposal {is : List (Input ω)} (h : Along step (fun t i => ¬Proposes proposer t i) s is) :
    (run step s is).lastProposal.lookup proposer = s.lastProposal.lookup proposer := by
  refine run_eq_of_none (f := fun t : Store => t.lastProposal.lookup proposer)
    (Q := fun op => op.creator = some proposer) ?_ h
  intro t i t' o he hop
  rw [he.lastProposal, if_neg hop]

/-- In every run, after a proposal, the proposer waits for the next one as long as the cooldown says that
    is configured then; the time they wait from is the same whatever else happens in between. Without a
    cooldown, they do not wait, and it is left to the clock that the next one is not earlier. -/
theorem cooldown_spacing {xs ys : List (Input ω)} {i : Input ω}
    (hi : Proposes proposer (run step Store.empty xs) i)
    (hbetween : Along step (fun s k => ¬Proposes proposer s k) (run step Store.empty (xs ++ [i])) ys) :
    (∀ zs, zs <+: ys →
      (run step Store.empty (xs ++ i :: zs)).lastProposal.lookup proposer = some i.env.timestamp) ∧
    ∀ (j : Input ω) (cooldown : U64), Proposes proposer (run step Store.empty (xs ++ i :: ys)) j →
      (run step Store.empty (xs ++ i :: ys)).proposalCooldown = cooldown →
      0 < cooldown.val ∨ i.env.timestamp.val ≤ j.env.timestamp.val →
        i.env.timestamp.val + cooldown.val ≤ j.env.timestamp.val := by
  obtain ⟨o, he⟩ := hi.2.effect
  have hlast (zs : List (Input ω)) (hzs : zs <+: ys) :
      (run step Store.empty (xs ++ i :: zs)).lastProposal.lookup proposer = some i.env.timestamp := by
    obtain ⟨ws, rfl⟩ := hzs
    rw [List.append_cons, run_append, run_lastProposal hbetween.left, run_concat, he.lastProposal,
      if_pos hi.1]
  refine ⟨hlast, fun j cooldown hj hcooldown hwait => ?_⟩
  by_cases hpos : 0 < cooldown.val
  · obtain ⟨o', he'⟩ := hj.2.effect
    rw [← hcooldown] at hpos ⊢
    exact he'.cooldown hj.1 (hlast ys (List.prefix_refl ys)) hpos
  · -- Only the clock keeps the two apart.
    have hnonneg := cooldown.lo_le
    omega

/-- The account `1` makes a proposal, the admin sets a cooldown of 30 seconds and cancels the proposal, and
    the account `1` makes the next one a second after they have passed. -/
theorem cooldown_spacing_set :
    Proposes (.account 1) (run step Store.empty (opening ++
      [signed (.lit 5) (.setProposalCooldown (.account 9) (.lit 30)),
        signed (.lit 6) (.cancel (.account 9) (.lit 0) none)]))
      (signed (.lit 31) (.createProposal (.account 1) [84] [68] (.lit 10) (.lit 60) none none)) ∧
    (0 : ℤ) + 30 ≤ 31 := by
  have hfirst : Proposes (.account 1) (run step Store.empty (opening.take 1))
      (signed (.lit 0) (.createProposal (.account 1) [84] [68] (.lit 10) (.lit 60) none none)) := by decide
  have hbetween : Along step (fun s k => ¬Proposes (.account 1) s k) (run step Store.empty opening)
      [signed (.lit 5) (.setProposalCooldown (.account 9) (.lit 30)),
        signed (.lit 6) (.cancel (.account 9) (.lit 0) none)] :=
    .cons (by decide) (.cons (by decide) along_nil)
  have hnext : Proposes (.account 1) (run step Store.empty (opening ++
      [signed (.lit 5) (.setProposalCooldown (.account 9) (.lit 30)),
        signed (.lit 6) (.cancel (.account 9) (.lit 0) none)]))
      (signed (.lit 31) (.createProposal (.account 1) [84] [68] (.lit 10) (.lit 60) none none)) := by decide
  exact ⟨hnext, (cooldown_spacing hfirst hbetween).2 _ (.lit 30) hnext rfl (.inl (by decide))⟩

end CosmosVote.Governance
