import Mathlib.Data.List.Sort
import CosmosVote.Concurrent.Pages
import CosmosVote.Governance.Lifecycle
import CosmosVote.Governance.Queries

/-!
# Reading the proposals page by page

A page of the proposals is what is stored under the numbers of the page, as far as it is in the state asked
for. In every reachable state the proposals are numbered from `0` without gaps, so that a page is a part of
the list of all of them in ascending order (`Listing`).

* `getProposalsByState_lossless`: a page of the proposals in a state is the first of them from a number on, and
  a client who goes on after the last one of each page reads them all, each once;
* `getProposals_exact`: a page of all proposals has those with the numbers of the page, and the pages of one
  size have them all, each once.
-/

namespace CosmosVote.Governance

open Soroban

variable {ω : Type}

/-- The proposals that meet a condition, each once, in ascending order. -/
structure Listing (s : Store) (P : Proposal → Prop) (ps : List Proposal) : Prop where
  ascending : ps.Pairwise fun p q => p.id.val < q.id.val
  mem_iff : ∀ p, p ∈ ps ↔ s.proposals.lookup p.id = some p ∧ P p

/-- What is stored under the numbers of a range. -/
def Store.stored (s : Store) (fromId stop : U64) : List Proposal :=
  (fromId.range stop).filterMap s.proposals.lookup

/-- The proposals of the page `j`, with room for `k` of them on each. -/
def Store.page (s : Store) (k : ℤ) (j : ℕ) : List Proposal :=
  (s.stored (.lit 0) s.proposalCount).filter fun p => j * k ≤ p.id.val ∧ p.id.val < j * k + k

namespace Listing

variable {s : Store} {P Q : Proposal → Prop} {ps qs : List Proposal}

theorem filter [DecidablePred Q] (h : Listing s P ps) : Listing s (fun p => P p ∧ Q p) (ps.filter (Q ·)) where
  ascending := h.ascending.filter _
  mem_iff p := by rw [List.mem_filter, h.mem_iff, decide_eq_true_iff, and_assoc]

theorem congr (h : Listing s P ps) (hPQ : ∀ p, s.proposals.lookup p.id = some p → (P p ↔ Q p)) : Listing s Q ps where
  ascending := h.ascending
  mem_iff p := (h.mem_iff p).trans (and_congr_right (hPQ p))

theorem unique (hps : Listing s P ps) (hqs : Listing s P qs) : ps = qs := by
  have : Std.Irrefl fun p q : Proposal => p.id.val < q.id.val := ⟨fun p => lt_irrefl _⟩
  have : Std.Asymm fun p q : Proposal => p.id.val < q.id.val := ⟨fun p q h => h.not_gt⟩
  exact hps.ascending.eq_of_mem_iff hqs.ascending fun p => (hps.mem_iff p).trans (hqs.mem_iff p).symm

/-- Proposals with smaller numbers come first. -/
theorem append (hps : Listing s P ps) (hqs : Listing s Q qs) (h : ∀ p q, P p → Q q → p.id.val < q.id.val) :
    Listing s (fun p => P p ∨ Q p) (ps ++ qs) where
  ascending := List.pairwise_append.2 ⟨hps.ascending, hqs.ascending, fun p hp q hq =>
    h p q ((hps.mem_iff p).1 hp).2 ((hqs.mem_iff q).1 hq).2⟩
  mem_iff p := by rw [List.mem_append, hps.mem_iff, hqs.mem_iff, and_or_left]

end Listing

/-- The proposals with the numbers of a range. -/
theorem WellFormed.listing_stored {s : Store} (hs : WellFormed s) (fromId stop : U64) :
    Listing s (fun p => fromId.val ≤ p.id.val ∧ p.id.val < stop.val) (s.stored fromId stop) where
  ascending := by
    refine (IntRange.pairwise_range fromId stop).filterMap _ fun i j hlt p hp q hq => ?_
    rw [(hs.proper i p hp).id_eq, (hs.proper j q hq).id_eq]
    exact hlt
  mem_iff p := by
    simp only [Store.stored, List.mem_filterMap, IntRange.mem_range]
    constructor
    · rintro ⟨i, hi, hp⟩
      rw [(hs.proper i p hp).id_eq]
      exact ⟨hp, hi⟩
    · rintro ⟨hp, hi⟩
      exact ⟨p.id, hi, hp⟩

/-- Every proposal has a number below the count. -/
theorem WellFormed.id_lt {s : Store} (hs : WellFormed s) {id : U64} {p : Proposal}
    (hp : s.proposals.lookup id = some p) : id.val < s.proposalCount.val :=
  (hs.isSome_iff id).1 (by rw [hp]; rfl)

/-! ## Pages of the proposals in a state -/

section ByState

variable {env : HostEnv} {c : Ctx Store ω} {s : Store} {state : ProposalState} {limit : U32} {count : U64}

/-- The loop of `get_proposals_by_state` goes on until the page is full. -/
theorem matching_eq {fuel : ℕ} {currentId : U64} {proposals : List Proposal}
    (h : (count.val - currentId.val).toNat ≤ fuel) :
    matching s.proposals state limit count fuel currentId proposals =
      proposals ++ ((s.stored currentId count).filter fun p => p.state = state).take
        (limit.val.toNat - proposals.length) := by
  induction fuel generalizing currentId proposals with
  | zero =>
    rw [matching, Store.stored, IntRange.range_of_le (by omega)]
    simp
  | succ fuel ih =>
    rw [matching]
    split
    · rename_i hgo
      rw [ih (by dsimp only; omega)]
      generalize hnext : (⟨currentId.val + 1, _, _⟩ : U64) = next
      rw [← IntRange.val_inj] at hnext
      conv_rhs => rw [Store.stored, IntRange.range_eq_cons hgo.2 hnext, List.filterMap_cons]
      -- The proposal under the number, if there is one, takes a place of the page if it is in the state.
      cases s.proposals.lookup currentId with
      | none => simp [Store.stored]
      | some p =>
        by_cases hp : p.state = state
        · obtain ⟨n, hn⟩ : ∃ n, limit.val.toNat - proposals.length = n + 1 :=
            ⟨limit.val.toNat - proposals.length - 1, by omega⟩
          have hn' : limit.val.toNat - (proposals.length + 1) = n := by omega
          simp [Store.stored, hp, hn, hn', Option.filter]
        · simp [Store.stored, hp, Option.filter]
    · rename_i hgo
      rw [not_and_or] at hgo
      rcases hgo with hfull | hend
      · rw [show limit.val.toNat - proposals.length = 0 by omega, List.take_zero, List.append_nil]
      · rw [Store.stored, IntRange.range_of_le (by omega)]
        simp

/-- With enough fuel, its loop ends by its own condition. -/
theorem run_collectByState_eq {fuel : ℕ} {fromId : U64}
    (hfuel : (c.store.proposalCount.val - fromId.val).toNat ≤ fuel) :
    (collectByState env state (pageLimit limit) c.store.proposalCount fuel fromId []).run c =
      (.ok (((c.store.stored fromId c.store.proposalCount).filter fun p => p.state = state).take
        (min limit.val 20).toNat), c) := by
  rw [run_collectByState, matching_eq hfuel, pageLimit_val, List.nil_append, List.length_nil, Nat.sub_zero]

theorem run_getProposalsByState (fromId : U64) :
    (getProposalsByState env state fromId limit).run c =
      (.ok (((c.store.stored fromId c.store.proposalCount).filter fun p => p.state = state).take
        (min limit.val 20).toNat), c) := by
  rw [getProposalsByState, Call.run_bind_of_ok (Call.run_get c)]
  exact run_collectByState_eq le_rfl

/-- The proposals in a state, from a number on. -/
theorem WellFormed.stored_filter (hs : WellFormed s) {ps : List Proposal}
    (hps : Listing s (fun p => p.state = state) ps) (fromId : U64) :
    ((s.stored fromId s.proposalCount).filter fun p => p.state = state) =
      ps.filter fun p => fromId.val ≤ p.id.val := by
  refine Listing.unique ((hs.listing_stored fromId s.proposalCount).filter.congr fun p hp => ?_) hps.filter
  rw [and_iff_left (hs.id_lt hp), and_comm]

/-! ## Reading all of them -/

variable (env) (state) in
/-- A client reads the proposals in a state page by page, with a limit for each page, and goes on after the
    last proposal of a page until a page is empty. -/
def readAll : ℕ → (ℕ → U32) → U64 → GovernanceCall ω (Option (List Proposal))
  | 0, _, _ => pure none
  | fuel + 1, limits, fromId => do
    let page ← getProposalsByState env state fromId (limits 0)
    match page.getLast? with
    | none => pure (some [])
    | some last => do
      let next ← Call.add last.id (.lit 1)
      let rest ← readAll fuel (fun n => limits (n + 1)) next
      pure (rest.map (page ++ ·))

/-- The last proposal of a page is one of those from the number on, and there is a number after it. -/
theorem WellFormed.exists_next (hs : WellFormed s) {ps : List Proposal} (hps : Listing s (fun p => p.state = state) ps)
    {fromId : U64} {n : ℕ} {last : Proposal}
    (hlast : ((ps.filter fun p => fromId.val ≤ p.id.val).take n).getLast? = some last) :
    last ∈ (ps.filter fun p => fromId.val ≤ p.id.val) ∧ ∃ next : U64, last.id.val + 1 = next.val := by
  have hmem := List.mem_of_mem_take (List.mem_of_getLast? hlast)
  refine ⟨hmem, ?_⟩
  have hlt := hs.id_lt ((hps.mem_iff last).1 (List.mem_filter.1 hmem).1).1
  have hlo := last.id.lo_le
  have hhi := s.proposalCount.le_hi
  obtain ⟨next, _, hnext⟩ : ∃ next : U64, IntRange.fit (last.id.val + 1) = some next ∧
      next.val = last.id.val + 1 := IntRange.exists_fit (by omega) (by omega)
  exact ⟨next, hnext.symm⟩

/-- What is left after a page is what there is from the next number on. -/
theorem Listing.drop_page {ps : List Proposal} (hps : Listing s (fun p => p.state = state) ps) {fromId next : U64}
    {n : ℕ} {last : Proposal} (hlast : ((ps.filter fun p => fromId.val ≤ p.id.val).take n).getLast? = some last)
    (hle : fromId.val ≤ last.id.val) (hnext : last.id.val + 1 = next.val) :
    (ps.filter fun p => fromId.val ≤ p.id.val).drop n = ps.filter fun p => next.val ≤ p.id.val := by
  rw [Concurrent.drop_eq_filter (hps.ascending.filter _) hlast, List.filter_filter]
  refine List.filter_congr fun p _ => ?_
  rw [← Bool.decide_and, decide_eq_decide]
  omega

/-- The client reads what there is from the number on, and then an empty page. -/
theorem run_readAll (hs : WellFormed c.store) {ps : List Proposal}
    (hps : Listing c.store (fun p => p.state = state) ps) {fuel : ℕ} {limits : ℕ → U32}
    (hlimits : ∀ n, 1 ≤ (limits n).val) {fromId : U64}
    (hfuel : (ps.filter fun p => fromId.val ≤ p.id.val).length < fuel) :
    (readAll env state fuel limits fromId).run c = (.ok (some (ps.filter fun p => fromId.val ≤ p.id.val)), c) := by
  induction fuel generalizing limits fromId with
  | zero => exact absurd hfuel (Nat.not_lt_zero _)
  | succ fuel ih =>
    rw [readAll, Call.run_bind_of_ok (run_getProposalsByState fromId), hs.stored_filter hps]
    have hlimit : 1 ≤ (min (limits 0).val 20).toNat := by
      have := hlimits 0
      omega
    generalize (min (limits 0).val 20).toNat = n at hlimit
    cases hlast : ((ps.filter fun p => fromId.val ≤ p.id.val).take n).getLast? with
    | none =>
      -- An empty page: there is nothing left.
      rw [List.getLast?_eq_none_iff, List.take_eq_nil_iff] at hlast
      rw [hlast.resolve_left (by omega)]
      rfl
    | some last =>
      obtain ⟨hmem, next, hnext⟩ := hs.exists_next hps hlast
      have hrest := hps.drop_page hlast (of_decide_eq_true (List.mem_filter.1 hmem).2) hnext
      have hadd : (Call.add last.id (.lit 1) : GovernanceCall ω U64).run c = (.ok next, c) :=
        Call.run_add_ok.2 ⟨hnext, rfl⟩
      have hshorter : (ps.filter fun p => next.val ≤ p.id.val).length < fuel := by
        have hpos := List.length_pos_of_mem hmem
        rw [← hrest, List.length_drop]
        omega
      have hread := ih (fun n => hlimits (n + 1)) hshorter
      dsimp only
      rw [Call.run_bind_of_ok hadd, Call.run_bind_of_ok hread, ← hrest]
      exact congrArg (fun l => (Outcome.ok (some l), c)) (List.take_append_drop n _)

/-- In every reachable state, for the list of the proposals in a state in ascending order: a page is what fits of
    the part of it from a number on, and the loop for it ends by its own condition; and a client who reads page
    after page from `0`, with any limits but `0`, has read exactly this list when a page comes back empty. -/
theorem getProposalsByState_lossless (env : HostEnv) (state : ProposalState) (is : List (Input ω)) (o : ω) :
    ∃ ps, Listing (run step Store.empty is) (fun p => p.state = state) ps ∧
      (∀ fromId limit, (getProposalsByState env state fromId limit).run ⟨run step Store.empty is, o⟩ =
        (.ok ((ps.filter fun p => fromId.val ≤ p.id.val).take (min limit.val 20).toNat),
          ⟨run step Store.empty is, o⟩)) ∧
      (∀ (fromId : U64) (limit : U32) (fuel : ℕ),
        ((run step Store.empty is).proposalCount.val - fromId.val).toNat ≤ fuel →
        (collectByState env state (pageLimit limit) (run step Store.empty is).proposalCount fuel fromId []).run
          ⟨run step Store.empty is, o⟩ =
        (.ok ((ps.filter fun p => fromId.val ≤ p.id.val).take (min limit.val 20).toNat),
          ⟨run step Store.empty is, o⟩)) ∧
      ∀ limits : ℕ → U32, (∀ n, 1 ≤ (limits n).val) → ∀ fuel, ps.length < fuel →
        (readAll env state fuel limits (.lit 0)).run ⟨run step Store.empty is, o⟩ =
          (.ok (some ps), ⟨run step Store.empty is, o⟩) := by
  have hs := run_wellFormed is
  generalize run step Store.empty is = s at hs
  obtain ⟨ps, hps⟩ : ∃ ps, Listing s (fun p => p.state = state) ps :=
    ⟨_, (hs.listing_stored (.lit 0) s.proposalCount).filter.congr fun p hp =>
      and_iff_right ⟨p.id.lo_le, hs.id_lt hp⟩⟩
  refine ⟨ps, hps, fun fromId limit => ?_, fun fromId limit fuel hfuel => ?_, fun limits hlimits fuel hfuel => ?_⟩
  · rw [run_getProposalsByState, hs.stored_filter hps]
  · rw [← hs.stored_filter hps]
    exact run_collectByState_eq (c := ⟨s, o⟩) hfuel
  · have hall : (ps.filter fun p => (.lit 0 : U64).val ≤ p.id.val) = ps :=
      List.filter_eq_self.2 fun p _ => decide_eq_true p.id.lo_le
    have hfirst : (ps.filter fun p => (.lit 0 : U64).val ≤ p.id.val).length < fuel := by rwa [hall]
    have hread := @run_readAll ω env ⟨s, o⟩ state hs ps hps fuel limits hlimits (.lit 0) hfirst
    rwa [hall] at hread

end ByState

/-! ## Pages of all proposals -/

namespace WellFormed

variable {s : Store}

/-- There are no gaps below the number of proposals. -/
theorem map_id_stored (hs : WellFormed s) (fromId : U64) {stop : U64} (hstop : stop.val ≤ s.proposalCount.val) :
    (s.stored fromId stop).map Proposal.id = fromId.range stop := by
  rw [Store.stored, List.map_filterMap]
  have hall : ∀ id ∈ fromId.range stop, (s.proposals.lookup id).map Proposal.id = some id := by
    intro id hid
    have hlt := (IntRange.mem_range.1 hid).2
    obtain ⟨p, hp⟩ := Option.isSome_iff_exists.1 ((hs.isSome_iff id).2 (hlt.trans_le hstop))
    rw [hp, Option.map_some, (hs.proper id p hp).id_eq]
  rw [List.filterMap_congr hall, List.filterMap_some]

/-- The pages of one size, one after the other, list the proposals with the numbers up to the last page. -/
theorem listing_pages (hs : WellFormed s) {k : ℤ} (hk : 0 ≤ k) (m : ℕ) :
    Listing s (fun p => p.id.val < m * k) ((List.range m).flatMap (s.page k)) := by
  induction m with
  | zero =>
    refine ⟨.nil, fun p => iff_of_false List.not_mem_nil fun h => ?_⟩
    rw [Nat.cast_zero, zero_mul] at h
    exact absurd p.id.lo_le h.2.not_ge
  | succ m ih =>
    rw [List.range_succ, List.flatMap_append, List.flatMap_singleton]
    refine (ih.append (hs.listing_stored _ _).filter fun p q hp hq => hp.trans_le hq.2.1).congr fun p hp => ?_
    have hlt := hs.id_lt hp
    have hle := p.id.lo_le
    rw [Nat.cast_succ, add_one_mul]
    dsimp only
    omega

end WellFormed

/-- The answer of `get_proposals`, if the number after the page fits. -/
theorem run_getProposals_stored (env : HostEnv) (s : Store) (o : ω) (fromId : U64) (limit : U32)
    (hnext : fromId.val + min limit.val 20 < 18446744073709551616) :
    ∃ stop : U64, stop.val = min (fromId.val + min limit.val 20) s.proposalCount.val ∧
      (getProposals env fromId limit).run ⟨s, o⟩ = (.ok (s.stored fromId stop), ⟨s, o⟩) := by
  obtain ⟨next, _, hval⟩ : ∃ next : U64, IntRange.fit (fromId.val + min limit.val 20) = some next ∧
      next.val = fromId.val + min limit.val 20 := by
    have := fromId.lo_le
    have := limit.lo_le
    exact IntRange.exists_fit (by omega) (by omega)
  refine ⟨if next.val ≤ s.proposalCount.val then next else s.proposalCount, ?_, run_getProposals hval.symm⟩
  split <;> omega

/-- In every reachable state, a page of proposals has exactly those with the numbers of the page, as far as there
    are proposals, in ascending order; and the pages of one size, from `0` on, have together exactly all
    proposals, each once. -/
theorem getProposals_exact (env : HostEnv) (is : List (Input ω)) (o : ω) :
    (∀ (fromId : U64) (limit : U32), fromId.val + 20 < 18446744073709551616 →
      ∃ (page : List Proposal) (stop : U64),
        stop.val = min (fromId.val + min limit.val 20) (run step Store.empty is).proposalCount.val ∧
        (getProposals env fromId limit).run ⟨run step Store.empty is, o⟩ =
          (.ok page, ⟨run step Store.empty is, o⟩) ∧
        page.map Proposal.id = fromId.range stop ∧
        ∀ p ∈ page, (run step Store.empty is).proposals.lookup p.id = some p) ∧
    ∀ limit : U32, 1 ≤ limit.val → limit.val ≤ 20 →
      ∃ pages : ℕ → List Proposal,
        (∀ (j : ℕ) (fromId : U64), fromId.val = j * limit.val →
          fromId.val + limit.val < 18446744073709551616 →
          (getProposals env fromId limit).run ⟨run step Store.empty is, o⟩ =
            (.ok (pages j), ⟨run step Store.empty is, o⟩)) ∧
        ∀ m : ℕ, (run step Store.empty is).proposalCount.val ≤ m * limit.val →
          ((List.range m).flatMap pages).map Proposal.id =
            (IntRange.lit 0 : U64).range (run step Store.empty is).proposalCount ∧
          ∀ p ∈ (List.range m).flatMap pages, (run step Store.empty is).proposals.lookup p.id = some p := by
  have hs := run_wellFormed is
  generalize run step Store.empty is = s at hs
  constructor
  · intro fromId limit hfit
    obtain ⟨stop, hstop, hrun⟩ := run_getProposals_stored env s o fromId limit (by omega)
    refine ⟨_, stop, hstop, hrun, hs.map_id_stored fromId (by omega), fun p hp => ?_⟩
    exact (((hs.listing_stored fromId stop).mem_iff p).1 hp).1
  · intro limit hpos hle
    refine ⟨s.page limit.val, fun j fromId hfrom hfit => ?_, fun m hm => ?_⟩
    · obtain ⟨stop, hstop, hrun⟩ := run_getProposals_stored env s o fromId limit (by omega)
      have hpage : s.stored fromId stop = s.page limit.val j := by
        refine ((hs.listing_stored fromId stop).congr fun p hp => ?_).unique (hs.listing_stored _ _).filter
        have := hs.id_lt hp
        have := p.id.lo_le
        rw [← hfrom]
        dsimp only
        omega
      rw [hrun, hpage]
    · have hall : (List.range m).flatMap (s.page limit.val) = s.stored (.lit 0) s.proposalCount := by
        refine ((hs.listing_pages (by omega) m).congr fun p hp => ?_).unique (hs.listing_stored _ _)
        exact iff_of_true ((hs.id_lt hp).trans_le hm) ⟨p.id.lo_le, hs.id_lt hp⟩
      rw [hall]
      refine ⟨hs.map_id_stored _ le_rfl, fun p hp => ?_⟩
      exact (((hs.listing_stored _ _).mem_iff p).1 hp).1

end CosmosVote.Governance
