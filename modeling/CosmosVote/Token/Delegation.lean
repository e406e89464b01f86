import Mathlib.Algebra.BigOperators.Finprod
import CosmosVote.Token.Opening

/-!
# The weight of delegations

`get_delegated_weight` adds to the balance of a voter those of the delegators it is given, as far
as they have delegated to the voter (`Store.delegatorsOf`). An account has at most one delegate,
and one that has any is not a voter itself: whichever lists are given for the voters, every
balance is counted for one of them at most (`pairwiseDisjoint_counted`).

* `delegated_weight_le`: the weights of all voters are together at most the supply.
-/

namespace CosmosVote.Token

open Soroban

namespace Store

variable (s : Store)

/-- What the loop of `get_delegated_weight` makes of the weight it has so far. -/
def addDelegators (voter : Address) (weight : I128) (delegators : List Address) : I128 :=
  delegators.foldl (fun weight delegator =>
    if s.delegations.lookup delegator = some voter then weight.saturatingAdd (s.balance delegator)
    else weight) weight

/-- What `get_delegated_weight` answers. -/
def delegatedWeight (voter : Address) (delegators : List Address) : I128 :=
  s.addDelegators voter (s.balance voter) delegators

/-- Those of some accounts that have delegated to the voter. -/
def delegatorsOf (voter : Address) (delegators : List Address) : Finset Address :=
  delegators.toFinset.filter fun delegator => s.delegations.lookup delegator = some voter

/-- The accounts whose balances are counted for a voter. -/
def counted (voter : Address) (delegators : List Address) : Finset Address :=
  insert voter (s.delegatorsOf voter delegators)

end Store

variable {s : Store} {voter : Address} {delegators : List Address}

theorem run_addDelegator (env : HostEnv) (voter : Address) (weight : I128) (delegator : Address) (s : Store) :
    (addDelegator env voter weight delegator).run s =
      (.ok (if s.delegations.lookup delegator = some voter then weight.saturatingAdd (s.balance delegator)
        else weight), s) := by
  have hget : (getDelegation delegator).run s = (.ok (s.delegations.lookup delegator), s) := rfl
  rw [addDelegator, Call.run_bind_of_ok hget]
  cases s.delegations.lookup delegator with
  | none => rfl
  | some delegate =>
    by_cases h : delegate = voter
    · rw [if_pos (congrArg some h)]
      exact (congrArg (Call.run · s) (if_pos h)).trans
        (Call.run_bind_of_ok (Storage.run_balance env delegator s))
    · rw [if_neg fun e => h (Option.some_inj.1 e)]
      exact congrArg (Call.run · s) (if_neg h)

/-- The query always answers, and writes nothing. -/
theorem run_getDelegatedWeight (env : HostEnv) (voter : Address) (delegators : List Address) (s : Store) :
    (getDelegatedWeight env voter delegators).run s = (.ok (s.delegatedWeight voter delegators), s) := by
  rw [getDelegatedWeight, Call.run_bind_of_ok (Storage.run_balance env voter s), Store.delegatedWeight,
    Store.addDelegators]
  generalize s.balance voter = weight
  induction delegators generalizing weight with
  | nil => rfl
  | cons delegator delegators ih =>
    rw [List.foldlM_cons, Call.run_bind_of_ok (run_addDelegator env voter weight delegator s), ih,
      List.foldl_cons]

/-- What is added is at most the balances of those who have delegated to the voter, each once. -/
theorem Store.addDelegators_le (hn : Nonneg s) (hnodup : delegators.Nodup) {weight : I128}
    (hweight : 0 ≤ weight.val) :
    (s.addDelegators voter weight delegators).val ≤
      weight.val + ∑ a ∈ s.delegatorsOf voter delegators, (s.balance a).val := by
  induction delegators generalizing weight with
  | nil => exact (add_zero _).ge
  | cons delegator delegators ih =>
    obtain ⟨hnot, hnodup⟩ := List.nodup_cons.1 hnodup
    rw [addDelegators, List.foldl_cons]
    by_cases hdelegate : s.delegations.lookup delegator = some voter
    · -- A balance is not negative, so that the sum can only be moved down to the bound.
      have hadd : 0 ≤ (weight.saturatingAdd (s.balance delegator)).val ∧
          (weight.saturatingAdd (s.balance delegator)).val ≤ weight.val + (s.balance delegator).val := by
        have := hn delegator
        have := weight.le_hi
        simp only [IntRange.saturatingAdd]
        omega
      have hset : s.delegatorsOf voter (delegator :: delegators) =
          insert delegator (s.delegatorsOf voter delegators) := by
        rw [delegatorsOf, List.toFinset_cons, Finset.filter_insert, if_pos hdelegate, delegatorsOf]
      have hmem : delegator ∉ s.delegatorsOf voter delegators := fun h =>
        hnot (List.mem_toFinset.1 (Finset.mem_filter.1 h).1)
      rw [if_pos hdelegate, hset, Finset.sum_insert hmem]
      have hle := ih hnodup hadd.1
      rw [addDelegators] at hle
      omega
    · have hset : s.delegatorsOf voter (delegator :: delegators) = s.delegatorsOf voter delegators := by
        rw [delegatorsOf, List.toFinset_cons, Finset.filter_insert, if_neg hdelegate, delegatorsOf]
      rw [if_neg hdelegate, hset]
      exact ih hnodup hweight

/-- The weight of a voter is at most the balances that are counted for them. -/
theorem Store.delegatedWeight_le (hn : Nonneg s) (hnodup : delegators.Nodup)
    (hvoter : s.delegations.lookup voter = none) :
    (s.delegatedWeight voter delegators).val ≤
      ∑ a ∈ s.counted voter delegators, s.balances.termAt (fun _ v => v.val) a := by
  have hnot : voter ∉ s.delegatorsOf voter delegators := fun h => by
    cases hvoter.symm.trans (Finset.mem_filter.1 h).2
  rw [counted, Finset.sum_insert hnot]
  simp only [termAt_balances]
  exact addDelegators_le hn hnodup (hn voter)

/-- No balance is counted for two voters who have not delegated. -/
theorem Store.pairwiseDisjoint_counted {S : Finset Address} (hS : ∀ v ∈ S, s.delegations.lookup v = none)
    (lists : Address → List Address) :
    (S : Set Address).PairwiseDisjoint fun v => s.counted v (lists v) := by
  intro v hv w hw hne
  rw [Function.onFun, Finset.disjoint_left]
  intro a hav haw
  -- The account is a voter itself, or has one delegate.
  rcases Finset.mem_insert.1 hav with rfl | hav <;> rcases Finset.mem_insert.1 haw with rfl | haw
  · exact hne rfl
  · cases (hS a hv).symm.trans (Finset.mem_filter.1 haw).2
  · cases (hS a hw).symm.trans (Finset.mem_filter.1 hav).2
  · exact hne (Option.some_inj.1 ((Finset.mem_filter.1 hav).2.symm.trans (Finset.mem_filter.1 haw).2))

/-- Only those who hold tokens, or to whom somebody has delegated, have any weight. -/
theorem Store.delegatedWeight_support (s : Store) (lists : Address → List Address) :
    {v | (s.delegatedWeight v (lists v)).val ≠ 0} ⊆
      (s.balances.keys ∪ s.delegations.keys.image fun a => (s.delegations.lookup a).getD a :
        Finset Address) := by
  intro v hv
  by_contra hnot
  rw [Finset.mem_coe, Finset.mem_union, not_or] at hnot
  have hbalance : s.balance v = .lit 0 := by
    have hnone := (Finmap.mem_keys_iff s.balances v).not.1 hnot.1
    rw [Option.not_isSome_iff_eq_none] at hnone
    rw [balance, hnone, Option.getD_none]
  have hnobody (a : Address) : s.delegations.lookup a ≠ some v := by
    intro ha
    refine hnot.2 (Finset.mem_image.2 ⟨a, ?_, by rw [ha, Option.getD_some]⟩)
    rw [Finmap.mem_keys_iff, ha]
    rfl
  apply hv
  rw [delegatedWeight, addDelegators, hbalance]
  simp only [if_neg (hnobody _)]
  rw [List.foldl_fixed]

/-- In every reachable state of a contract that was not opened with a negative supply, and for whatever
    lists of delegators, one for each address and without repetitions: the weights that
    `get_delegated_weight` answers for those who have not delegated themselves are together at most the
    supply. -/
theorem delegated_weight_le {cs : List Input} (h : Along step OpensNonneg Store.empty cs)
    {lists : Address → List Address} (hnodup : ∀ v, (lists v).Nodup) :
    ∃ weight : Address → I128,
      (∀ v env, (getDelegatedWeight env v (lists v)).run (run step Store.empty cs) =
        (.ok (weight v), run step Store.empty cs)) ∧
      {v | (weight v).val ≠ 0}.Finite ∧
      ∑ᶠ v ∈ {v | (run step Store.empty cs).delegations.lookup v = none}, (weight v).val ≤
        (run step Store.empty cs).totalSupply.val := by
  have hn := run_nonneg_of h
  have hs := run_conserved cs
  generalize run step Store.empty cs = s at hn hs
  have hfinite : {v | (s.delegatedWeight v (lists v)).val ≠ 0}.Finite :=
    (Finset.finite_toSet _).subset (s.delegatedWeight_support lists)
  refine ⟨fun v => s.delegatedWeight v (lists v), fun v env => run_getDelegatedWeight env v (lists v) s,
    hfinite, ?_⟩
  -- The sum is over the finitely many voters who have any weight.
  obtain ⟨S, hS⟩ := (hfinite.inter_of_right {v | s.delegations.lookup v = none}).exists_finset_coe
  rw [finsum_mem_eq_sum_of_inter_support_eq (t := S) _ ?_, ← hs.held_eq]
  · have hvoters : ∀ v ∈ S, s.delegations.lookup v = none := fun v hv =>
      (hS.le (Finset.mem_coe.2 hv)).1
    calc ∑ v ∈ S, (s.delegatedWeight v (lists v)).val
        ≤ ∑ v ∈ S, ∑ a ∈ s.counted v (lists v), s.balances.termAt (fun _ v => v.val) a :=
          Finset.sum_le_sum fun v hv => Store.delegatedWeight_le hn (hnodup v) (hvoters v hv)
      _ ≤ s.held := Finmap.sum_groups_le hn.entry (Store.pairwiseDisjoint_counted hvoters lists)
  · rw [hS]
    ext v
    simp

/-- The account `1` moves `40` of a supply of `100` to the account `2`, and the accounts `2` and `3`
    delegate to each other. -/
def delegating : List Input :=
  [openingWith (.lit 100),
    ⟨⟨.lit 0, .lit 2, fun _ => true, .ignored⟩, .transfer (.account 1) (.account 2) (.lit 40)⟩,
    ⟨⟨.lit 0, .lit 3, fun _ => true, .ignored⟩, .delegate (.account 2) (.account 3)⟩,
    ⟨⟨.lit 0, .lit 4, fun _ => true, .ignored⟩, .delegate (.account 3) (.account 2)⟩]

theorem delegated_weight_le_delegating :
    (run step Store.empty delegating).totalSupply.val = 100 ∧
    ∃ weight : Address → I128,
      (∀ v env, (getDelegatedWeight env v [.account 2, .account 3]).run (run step Store.empty delegating) =
        (.ok (weight v), run step Store.empty delegating)) ∧
      ∑ᶠ v ∈ {v | (run step Store.empty delegating).delegations.lookup v = none}, (weight v).val ≤ 100 := by
  have hopens : OpensWith (run step Store.empty []) (openingWith (.lit 100)) (.lit 100) :=
    ⟨⟨_, _, _, _, rfl⟩, by decide⟩
  have hsupply : (run step Store.empty delegating).totalSupply.val = 100 := by decide
  have hnodup : Address → [Address.account 2, .account 3].Nodup := fun _ => by decide
  obtain ⟨weight, hweight, _, hle⟩ := delegated_weight_le (hopens.along_iff.2 (by decide)) hnodup
  exact ⟨hsupply, weight, hweight, hle.trans_eq hsupply⟩

end CosmosVote.Token
