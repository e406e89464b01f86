import CosmosVote.Token.Delegation

/-!
# Delegated weight and repeated delegators

`get_delegated_weight` goes through the list of delegators it is given, and adds the balance of one who has
delegated to the voter as often as they are in the list (`delegatedWeight_eq`). The weight of the list as a set
(`Store.setWeight`) counts every delegator once.

* `delegated_weight_eq_iff`: which of the lists are given their weight as a set, in every reachable state.
-/

namespace CosmosVote.Token

open Soroban

namespace Store

variable (s : Store) (voter : Address) (delegators : List Address)

/-- The balance of the voter, and of those who have delegated to the voter, each once. -/
def setWeight : ℤ := (s.balance voter).val + ∑ a ∈ s.delegatorsOf voter delegators, (s.balance a).val

/-- What those of a list have together who have delegated to the voter, as often as each is in the list. -/
def listWeight : ℤ :=
  ((delegators.filter fun a => s.delegations.lookup a = some voter).map fun a => (s.balance a).val).sum

/-- Nobody who adds anything to the weight of the voter is in the list twice. -/
def EachOnce : Prop :=
  ∀ a, s.delegations.lookup a = some voter → 0 < (s.balance a).val → delegators.count a ≤ 1

/-- The supply is as large as it can be, and all of it is counted for the voter. -/
def CountsAll : Prop :=
  s.totalSupply.val = 170141183460469231731687303715884105727 ∧
    ∀ a, 0 < (s.balance a).val → a = voter ∨ a ∈ delegators ∧ s.delegations.lookup a = some voter

end Store

variable {s : Store} {voter : Address} {delegators : List Address}

theorem Store.listWeight_nonneg (hn : Nonneg s) : 0 ≤ s.listWeight voter delegators := by
  refine List.sum_nonneg fun x hx => ?_
  obtain ⟨a, _, rfl⟩ := List.mem_map.1 hx
  exact hn a

/-- The loop adds what is in the list, up to the bound of the type. -/
theorem Store.addDelegators_eq (hn : Nonneg s) {weight : I128} (hweight : 0 ≤ weight.val) :
    (s.addDelegators voter weight delegators).val =
      min (weight.val + s.listWeight voter delegators) 170141183460469231731687303715884105727 := by
  induction delegators generalizing weight with
  | nil =>
    have := weight.le_hi
    simp [addDelegators, listWeight, this]
  | cons a delegators ih =>
    rw [addDelegators, List.foldl_cons]
    by_cases ha : s.delegations.lookup a = some voter
    · have hadd : (weight.saturatingAdd (s.balance a)).val =
          min (weight.val + (s.balance a).val) 170141183460469231731687303715884105727 := by
        have := hn a
        simp only [IntRange.saturatingAdd]
        omega
      have hlist : s.listWeight voter (a :: delegators) = (s.balance a).val + s.listWeight voter delegators := by
        simp [listWeight, ha]
      have hsum : 0 ≤ (weight.saturatingAdd (s.balance a)).val := by
        have := hn a
        omega
      have hrest := ih hsum
      have hpos : 0 ≤ s.listWeight voter delegators := Store.listWeight_nonneg hn
      rw [addDelegators] at hrest
      rw [if_pos ha, hrest, hadd, hlist]
      omega
    · have hlist : s.listWeight voter (a :: delegators) = s.listWeight voter delegators := by
        simp [listWeight, ha]
      rw [if_neg ha, hlist]
      exact ih hweight

/-- The order of the list makes no difference. -/
theorem Store.listWeight_perm {ds : List Address} (h : ds.Perm delegators) :
    s.listWeight voter ds = s.listWeight voter delegators := ((h.filter _).map _).sum_eq

/-- What is not negative, taken once or more often. -/
theorem nsmul_of_one_le {x : ℤ} {n : ℕ} (hx : 0 ≤ x) (hn : 1 ≤ n) : x ≤ n • x ∧ (x = n • x ↔ (0 < x → n ≤ 1)) := by
  obtain ⟨k, rfl⟩ := Nat.exists_eq_add_of_le hn
  have hk : 0 ≤ (k : ℤ) * x := mul_nonneg (Int.natCast_nonneg k) hx
  have heq : (1 + k) • x = x + k * x := by rw [add_nsmul, one_nsmul, nsmul_eq_mul]
  rw [heq]
  refine ⟨le_add_of_nonneg_right hk, ?_⟩
  rw [left_eq_add, mul_eq_zero, Int.natCast_eq_zero]
  omega

/-- A list adds at least what it has as a set, and exactly that if nobody is in it twice. -/
theorem Store.sum_delegatorsOf_le (hn : Nonneg s) (voter : Address) (delegators : List Address) :
    ∑ a ∈ s.delegatorsOf voter delegators, (s.balance a).val ≤ s.listWeight voter delegators ∧
      (∑ a ∈ s.delegatorsOf voter delegators, (s.balance a).val = s.listWeight voter delegators ↔
        s.EachOnce voter delegators) := by
  have hset : (delegators.filter fun a => s.delegations.lookup a = some voter).toFinset =
      s.delegatorsOf voter delegators := by
    rw [List.toFinset_filter, delegatorsOf]
    simp
  have hlist : s.listWeight voter delegators =
      ∑ a ∈ s.delegatorsOf voter delegators, delegators.count a • (s.balance a).val := by
    rw [listWeight, Finset.sum_list_map_count, hset]
    refine Finset.sum_congr rfl fun a ha => ?_
    have hdelegate := decide_eq_true (Finset.mem_filter.1 ha).2
    rw [List.count_filter (p := fun b => s.delegations.lookup b = some voter) hdelegate]
  have hterm : ∀ a ∈ s.delegatorsOf voter delegators, (s.balance a).val ≤ delegators.count a • (s.balance a).val ∧
      ((s.balance a).val = delegators.count a • (s.balance a).val ↔
        (0 < (s.balance a).val → delegators.count a ≤ 1)) := fun a ha =>
    nsmul_of_one_le (hn a) (List.one_le_count_iff.2 (List.mem_toFinset.1 (Finset.mem_filter.1 ha).1))
  rw [hlist, Finset.sum_eq_sum_iff_of_le fun a ha => (hterm a ha).1]
  refine ⟨Finset.sum_le_sum fun a ha => (hterm a ha).1, fun h a hdelegate hpos => ?_, fun h a ha => ?_⟩
  · by_cases hmem : a ∈ delegators
    · have ha : a ∈ s.delegatorsOf voter delegators := Finset.mem_filter.2 ⟨List.mem_toFinset.2 hmem, hdelegate⟩
      exact (hterm a ha).2.1 (h a ha) hpos
    · rw [List.count_eq_zero.2 hmem]
      exact Nat.zero_le 1
  · exact (hterm a ha).2.2 (h a (Finset.mem_filter.1 ha).2)

/-- Nobody has delegated to themselves. -/
def NoSelfDelegation (s : Store) : Prop := ∀ a, s.delegations.lookup a ≠ some a

theorem Effect.noSelfDelegation {env : HostEnv} {op : Op} {s' : Store} (h : Effect env s op s')
    (hs : NoSelfDelegation s) : NoSelfDelegation s' := by
  cases h with
  | @delegate owner to_ _ hne _ =>
    intro a
    change (s.delegations.insert owner to_).lookup a ≠ some a
    rw [Finmap.lookup_insert_eq_ite]
    split
    · rename_i heq
      exact fun h => hne (heq.symm.trans (Option.some_inj.1 h).symm)
    · exact hs a
  | @undelegate owner _ _ =>
    intro a
    change (s.delegations.erase owner).lookup a ≠ some a
    rw [Finmap.lookup_erase_eq_ite]
    split
    · exact Option.some_ne_none a |>.symm
    · exact hs a
  | _ => exact hs

theorem run_noSelfDelegation (cs : List Input) : NoSelfDelegation (run step Store.empty cs) :=
  run_invariant (fun _ _ hs => step_invariant hs fun _ he => he.noSelfDelegation hs)
    (fun a => by simp [Store.empty]) cs

/-- The supply is the weight of a list as a set, and what all others have. -/
theorem Conserved.totalSupply_eq (hs : Conserved s) (hself : NoSelfDelegation s) (voter : Address)
    (delegators : List Address) :
    s.totalSupply.val = s.setWeight voter delegators +
      ∑ a ∈ s.balances.keys \ s.counted voter delegators, (s.balance a).val := by
  have hnot : voter ∉ s.delegatorsOf voter delegators := fun h => hself voter (Finset.mem_filter.1 h).2
  have hheld : s.held = ∑ a ∈ s.counted voter delegators ∪ s.balances.keys, (s.balance a).val := by
    rw [Store.held, Finmap.sum_eq_of_subset Finset.subset_union_right]
    exact Finset.sum_congr rfl fun a _ => termAt_balances s a
  have hweight : s.setWeight voter delegators = ∑ a ∈ s.counted voter delegators, (s.balance a).val := by
    rw [Store.counted, Finset.sum_insert hnot, Store.setWeight]
  rw [← hs.held_eq, hheld, hweight, ← Finset.sum_sdiff Finset.subset_union_left, add_comm,
    Finset.union_sdiff_left]

/-- The weight of a list as a set is as large as it can be only if all of the largest supply is counted. -/
theorem Conserved.setWeight_eq_iff (hs : Conserved s) (hn : Nonneg s) (hself : NoSelfDelegation s) :
    s.setWeight voter delegators = 170141183460469231731687303715884105727 ↔ s.CountsAll voter delegators := by
  have hsupply := hs.totalSupply_eq hself voter delegators
  have hle := s.totalSupply.le_hi
  have hrest := Finset.sum_nonneg (s := s.balances.keys \ s.counted voter delegators) fun a _ => hn a
  rw [Store.CountsAll]
  constructor
  · intro hmax
    have hzero := (Finset.sum_eq_zero_iff_of_nonneg fun a _ => hn a).1 (by omega :
      ∑ a ∈ s.balances.keys \ s.counted voter delegators, (s.balance a).val = 0)
    refine ⟨by omega, fun a hpos => ?_⟩
    by_contra hnot
    have hkey : a ∈ s.balances.keys := by
      rw [Finmap.mem_keys_iff, Option.isSome_iff_ne_none]
      intro hnone
      rw [Store.balance, hnone] at hpos
      exact absurd hpos (by decide)
    refine hpos.ne' (hzero a (Finset.mem_sdiff.2 ⟨hkey, fun h => hnot ?_⟩))
    simpa [Store.counted, Store.delegatorsOf] using h
  · rintro ⟨hmax, hall⟩
    have hzero : ∑ a ∈ s.balances.keys \ s.counted voter delegators, (s.balance a).val = 0 := by
      refine Finset.sum_eq_zero fun a ha => ?_
      have hnot := (Finset.mem_sdiff.1 ha).2
      have hle := hn a
      by_contra hne
      refine hnot ?_
      have hcounted := hall a (by omega)
      simpa [Store.counted, Store.delegatorsOf] using hcounted
    omega

/-- In every reachable state of a contract that was not opened with a negative supply, for every voter and every
    list: the weight as a set is at most the supply; what `get_delegated_weight` answers is the same for
    every order of the list; and it is the weight as a set exactly if nobody who adds to the weight is in the list
    twice, or if all of the largest supply is counted already. -/
theorem delegated_weight_eq_iff {cs : List Input} (h : Along step OpensNonneg Store.empty cs) (env : HostEnv)
    (voter : Address) (delegators : List Address) :
    (run step Store.empty cs).setWeight voter delegators ≤ (run step Store.empty cs).totalSupply.val ∧
    ∃ weight : I128,
      (∀ ds : List Address, ds.Perm delegators →
        (getDelegatedWeight env voter ds).run (run step Store.empty cs) = (.ok weight, run step Store.empty cs)) ∧
      (weight.val = (run step Store.empty cs).setWeight voter delegators ↔
        (run step Store.empty cs).EachOnce voter delegators ∨
          (run step Store.empty cs).CountsAll voter delegators) := by
  have hn := run_nonneg_of h
  have hs := run_conserved cs
  have hself := run_noSelfDelegation cs
  generalize run step Store.empty cs = s at hn hs hself
  have hsupply := hs.totalSupply_eq hself voter delegators
  have hrest := Finset.sum_nonneg (s := s.balances.keys \ s.counted voter delegators) fun a _ => hn a
  refine ⟨by omega, s.delegatedWeight voter delegators, fun ds hperm => ?_, ?_⟩
  · have hsame : s.delegatedWeight voter ds = s.delegatedWeight voter delegators := by
      rw [← IntRange.val_inj, Store.delegatedWeight, Store.delegatedWeight, Store.addDelegators_eq hn (hn voter),
        Store.addDelegators_eq hn (hn voter), Store.listWeight_perm hperm]
    rw [run_getDelegatedWeight, hsame]
  · obtain ⟨hle, heq⟩ := Store.sum_delegatorsOf_le hn voter delegators
    have hmax := s.totalSupply.le_hi
    rw [Store.delegatedWeight, Store.addDelegators_eq hn (hn voter), ← heq, ← hs.setWeight_eq_iff hn hself]
    rw [Store.setWeight] at hsupply ⊢
    omega

/-- Somebody else's list of a delegator and an account that has not delegated to the voter. -/
theorem delegated_weight_eq_iff_delegating :
    ∃ weight : I128,
      (getDelegatedWeight ⟨.lit 0, .lit 5, fun _ => true, .ignored⟩ (.account 3) [.account 2, .account 1]).run
        (run step Store.empty delegating) = (.ok weight, run step Store.empty delegating) ∧
      weight.val = (run step Store.empty delegating).setWeight (.account 3) [.account 2, .account 1] ∧
      weight.val ≤ 100 := by
  have hopens : OpensWith (run step Store.empty []) (openingWith (.lit 100)) (.lit 100) :=
    ⟨⟨_, _, _, _, rfl⟩, by decide⟩
  have hsupply : (run step Store.empty delegating).totalSupply.val = 100 := by decide
  obtain ⟨hle, weight, hrun, hiff⟩ := delegated_weight_eq_iff (hopens.along_iff.2 (by decide))
    ⟨.lit 0, .lit 5, fun _ => true, .ignored⟩ (.account 3) [.account 2, .account 1]
  have honce : (run step Store.empty delegating).EachOnce (.account 3) [.account 2, .account 1] := fun a _ _ =>
    List.nodup_iff_count_le_one.1 (by decide) a
  have hweight := hiff.2 (.inl honce)
  exact ⟨weight, hrun _ (.refl _), hweight, hweight.trans_le (hle.trans_eq hsupply)⟩

/-- A delegator with `40` of a supply of `100` who is in the list three times is counted three times. -/
theorem delegated_weight_counts_twice :
    (getDelegatedWeight ⟨.lit 0, .lit 5, fun _ => true, .ignored⟩ (.account 3)
        [.account 2, .account 2, .account 2]).run (run step Store.empty delegating) =
      (.ok (.lit 120), run step Store.empty delegating) ∧
    (run step Store.empty delegating).setWeight (.account 3) [.account 2, .account 2, .account 2] = 40 ∧
    (run step Store.empty delegating).totalSupply.val = 100 := by
  have hweight : (run step Store.empty delegating).delegatedWeight (.account 3)
      [.account 2, .account 2, .account 2] = .lit 120 := by decide
  refine ⟨?_, by decide, by decide⟩
  rw [run_getDelegatedWeight, hweight]

end CosmosVote.Token
