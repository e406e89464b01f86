import Mathlib.Data.Int.Range
import Mathlib.Data.List.Infix
import CosmosVote.Governance.Lifecycle
import CosmosVote.Governance.Queries

/-!
# The state inspector

The inspector reads the proposals one by one, by the numbers that it expects them to have
(`fetchProposals`). It counts them from `1`, and governance from `0`.

* `fetchProposals_eq`: what is stored under the numbers that it asks for;
* `fetchProposals_latest_iff`: the first of the latest proposals is always missing, so that they are listed
  exactly if there are none.
-/

namespace CosmosVote.Inspector

open Soroban Governance

variable {ω : Type}

/-! ## Views -/

/-- Why the command line has no answer of a view. -/
inductive Failure
  /-- An argument is not one of the type. -/
  | argument
  | contract (e : ContractError)
  | host (t : Trap)

/-- What is printed says that there is nothing to answer. -/
def SaysMissing (text : String) : Prop :=
  "not found".toList <:+: text.toList ∨ "missing".toList <:+: text.toList

instance (text : String) : Decidable (SaysMissing text) := inferInstanceAs (Decidable (_ ∨ _))

section Fetchers

-- The ledger as it is, and what the command line prints on `stderr`.
variable (env : HostEnv) (c : Ctx Store ω) (stderr : Failure → String)

/-- The `catch` of `invokeView`. -/
def unanswered {α : Type} (fn : String) (failure : Failure) : Except String (Option α) :=
  if SaysMissing (stderr failure) then pure none
  else throw ("RPC call failed for \"" ++ fn ++ "\": " ++ stderr failure)

/-- A view is only simulated: what it would write is dropped. -/
def invokeView {α : Type} (fn : String) (view : GovernanceCall ω α) : Except String (Option α) :=
  match (view.run c).1 with
  | .ok a => pure (some a)
  | .err e => unanswered stderr fn (.contract e)
  | .trap t => unanswered stderr fn (.host t)

def fetchProposal (id : ℤ) : Except String (Option Proposal) :=
  match (IntRange.fit id : Option U64) with
  | some id => invokeView c stderr "get_proposal" (getProposal env id)
  | none => unanswered stderr "get_proposal" .argument

/-- The loop of `fetchProposals`. -/
def fetchAll (ids : List ℤ) : Except String (List Proposal) :=
  ids.foldlM (fun proposals id => do
    let p ← fetchProposal env c stderr id
    pure (proposals ++ p.toList)) []

def fetchProposals (limit : ℤ) : Except String (List Proposal) := do
  let answer ← invokeView c stderr "proposal_count" proposalCount
  let count := (answer.map IntRange.val).getD 0
  let start := max 1 (count - limit + 1)
  fetchAll env c stderr (Int.range start (count + 1))

end Fetchers

/-! ## What is listed -/

/-- The proposals from a number on, in ascending order. -/
structure Lists (s : Store) (first : ℤ) (ps : List Proposal) : Prop where
  ids : ps.map (fun p => p.id.val) = Int.range first s.proposalCount.val
  stored : ∀ p ∈ ps, s.proposals.lookup p.id = some p

/-- The number of the first of the latest proposals. -/
def firstOfLatest (s : Store) (limit : ℤ) : ℤ := max 0 (s.proposalCount.val - limit)

/-- What is stored under a number. -/
def find (s : Store) (id : ℤ) : Option Proposal := (IntRange.fit id : Option U64).bind s.proposals.lookup

section Find

variable {s : Store} {id : ℤ}

theorem find_of_lt (hs : WellFormed s) (h : 0 ≤ id) (hlt : id < s.proposalCount.val) :
    ∃ p, find s id = some p ∧ p.id.val = id ∧ s.proposals.lookup p.id = some p := by
  obtain ⟨key, hfit, hkey⟩ : ∃ key : U64, IntRange.fit id = some key ∧ key.val = id :=
    IntRange.exists_fit h (hlt.le.trans s.proposalCount.le_hi)
  obtain ⟨p, hp⟩ := Option.isSome_iff_exists.1 ((hs.isSome_iff key).2 (hkey ▸ hlt))
  have hid := (hs.proper key p hp).id_eq
  exact ⟨p, by rw [find, hfit, Option.bind_some, hp], by rw [hid, hkey], by rw [hid, hp]⟩

/-- There is no proposal under the number of them. -/
theorem find_count (hs : WellFormed s) : find s s.proposalCount.val = none := by
  rw [find, IntRange.fit_eq_some.2 rfl, Option.bind_some, ← Option.not_isSome_iff_eq_none, hs.isSome_iff]
  exact lt_irrefl _

/-- What is found from a number on are the proposals from there on. -/
theorem lists_find (hs : WellFormed s) {first : ℤ} (hfirst : 0 ≤ first) :
    Lists s first ((Int.range first s.proposalCount.val).filterMap (find s)) where
  ids := by
    rw [List.map_filterMap]
    have hall : ∀ id ∈ Int.range first s.proposalCount.val, (find s id).map (fun p => p.id.val) = some id := by
      intro id hid
      rw [Int.mem_range_iff] at hid
      obtain ⟨p, hp, hval, _⟩ := find_of_lt hs (hfirst.trans hid.1) hid.2
      rw [hp, Option.map_some, hval]
    rw [List.filterMap_congr hall, List.filterMap_some]
  stored p hp := by
    obtain ⟨id, hid, hfind⟩ := List.mem_filterMap.1 hp
    rw [Int.mem_range_iff] at hid
    obtain ⟨q, hq, _, hstored⟩ := find_of_lt hs (hfirst.trans hid.1) hid.2
    cases hq.symm.trans hfind
    exact hstored

end Find

/-! ## Fetching -/

section Fetching

variable {env : HostEnv} {c : Ctx Store ω} {stderr : Failure → String} {id a b : ℤ}

/-- For an unknown number the answer is null, if what is printed says so. -/
theorem fetchProposal_eq (hnull : SaysMissing (stderr (.contract .proposalNotFound))) (hlo : 0 ≤ id)
    (hhi : id ≤ 18446744073709551615) : fetchProposal env c stderr id = .ok (find c.store id) := by
  obtain ⟨key, hfit, _⟩ : ∃ key : U64, IntRange.fit id = some key ∧ key.val = id := IntRange.exists_fit hlo hhi
  rw [fetchProposal, find, hfit]
  dsimp only
  rw [Option.bind_some, invokeView, getProposal, findProposal, Call.run_bind_of_ok (Storage.run_proposal env c key)]
  cases c.store.proposals.lookup key with
  | none => exact if_pos hnull
  | some p => rfl

/-- The loop skips the numbers with nothing stored under them. -/
theorem fetchAll_eq (hnull : SaysMissing (stderr (.contract .proposalNotFound))) {ids : List ℤ}
    (hids : ∀ id ∈ ids, 0 ≤ id ∧ id ≤ 18446744073709551615) :
    fetchAll env c stderr ids = .ok (ids.filterMap (find c.store)) := by
  rw [fetchAll]
  suffices hloop : ∀ proposals, ids.foldlM (fun proposals id => do
      let p ← fetchProposal env c stderr id
      pure (proposals ++ p.toList)) proposals = .ok (proposals ++ ids.filterMap (find c.store)) from hloop []
  induction ids with
  | nil => exact fun proposals => congrArg Except.ok (List.append_nil proposals).symm
  | cons id ids ih =>
    intro proposals
    obtain ⟨hlo, hhi⟩ := hids id List.mem_cons_self
    rw [List.foldlM_cons, fetchProposal_eq hnull hlo hhi]
    refine (ih (fun id hid => hids id (List.mem_cons_of_mem _ hid)) _).trans ?_
    rw [List.append_assoc, List.filterMap_cons]
    cases find c.store id <;> rfl

theorem range_succ (h : a ≤ b) : Int.range a (b + 1) = Int.range a b ++ [b] := by
  have hlength : (b + 1 - a).toNat = (b - a).toNat + 1 := by omega
  have hlast : a + ((b - a).toNat : ℤ) = b := by omega
  rw [Int.range, hlength, List.range_succ, List.map_append, List.map_singleton, hlast, Int.range]

theorem range_of_le (h : b ≤ a) : Int.range a b = [] := by
  rw [Int.range, Int.toNat_of_nonpos (by omega)]
  rfl

theorem length_range (a b : ℤ) : (Int.range a b).length = (b - a).toNat := by
  rw [Int.range, List.length_map, List.length_range]

/-- The inspector asks for one number too many at the end, in place of the first one. -/
theorem fetchProposals_eq (hs : WellFormed c.store)
    (hnull : SaysMissing (stderr (.contract .proposalNotFound))) {limit : ℤ} (hlimit : 1 ≤ limit) :
    fetchProposals env c stderr limit =
      .ok ((Int.range (firstOfLatest c.store limit + 1) c.store.proposalCount.val).filterMap (find c.store)) := by
  have hstart : max 1 (c.store.proposalCount.val - limit + 1) = firstOfLatest c.store limit + 1 := by
    rw [firstOfLatest]
    omega
  have hfirst : 0 ≤ firstOfLatest c.store limit := le_max_left _ _
  have hids : ∀ id ∈ Int.range (firstOfLatest c.store limit + 1) (c.store.proposalCount.val + 1),
      0 ≤ id ∧ id ≤ 18446744073709551615 := by
    intro id hid
    have hhi := c.store.proposalCount.le_hi
    rw [Int.mem_range_iff] at hid
    omega
  calc fetchProposals env c stderr limit
      = fetchAll env c stderr (Int.range (max 1 (c.store.proposalCount.val - limit + 1))
          (c.store.proposalCount.val + 1)) := rfl
    _ = .ok ((Int.range (firstOfLatest c.store limit + 1) (c.store.proposalCount.val + 1)).filterMap
          (find c.store)) := by rw [hstart, fetchAll_eq hnull hids]
    _ = _ := by
      by_cases hle : firstOfLatest c.store limit + 1 ≤ c.store.proposalCount.val
      · rw [range_succ hle, List.filterMap_append, List.filterMap_cons_none (find_count hs), List.filterMap_nil,
          List.append_nil]
      · -- There are no proposals.
        rw [firstOfLatest] at hle
        have hnone : c.store.proposalCount.val ≤ 0 := by omega
        rw [range_of_le (by omega), range_of_le (by omega)]

end Fetching

/-- The latest proposals, as many as there are up to a limit. -/
def Latest (s : Store) (limit : ℤ) : List Proposal → Prop := Lists s (firstOfLatest s limit)

/-- In every reachable state and for every limit: the inspector lists the proposals after the first of the latest
    ones, so that it lists the latest ones exactly if there are no proposals. -/
theorem fetchProposals_latest_iff (is : List (Input ω)) (env : HostEnv) (o : ω) (stderr : Failure → String)
    (hnull : SaysMissing (stderr (.contract .proposalNotFound))) (limit : ℤ) (hlimit : 1 ≤ limit) :
    ∃ ps, fetchProposals env ⟨run step Store.empty is, o⟩ stderr limit = .ok ps ∧
      Lists (run step Store.empty is) (firstOfLatest (run step Store.empty is) limit + 1) ps ∧
      (Latest (run step Store.empty is) limit ps ↔ (run step Store.empty is).proposalCount.val = 0) := by
  have hs := run_wellFormed is
  generalize run step Store.empty is = s at hs
  have hfirst : 0 ≤ firstOfLatest s limit := le_max_left _ _
  have hlists : Lists s (firstOfLatest s limit + 1) _ := lists_find hs (by omega)
  refine ⟨_, fetchProposals_eq (c := ⟨s, o⟩) hs hnull hlimit, hlists, fun hlatest => ?_, fun hzero => ?_⟩
  · -- There is one number less in the list than there should be.
    have hsame := congrArg List.length (hlatest.ids.symm.trans hlists.ids)
    rw [length_range, length_range] at hsame
    have hlo := s.proposalCount.lo_le
    rw [firstOfLatest] at hsame
    omega
  · have hzero' : firstOfLatest s limit = 0 := by
      rw [firstOfLatest]
      omega
    refine ⟨?_, hlists.stored⟩
    rw [hlists.ids, range_of_le (by omega), range_of_le (by omega)]

/-- What the command line may print. -/
def printed : Failure → String
  | .contract .proposalNotFound => "error: proposal not found"
  | _ => "error"

def host : HostEnv := { timestamp := .lit 30, sequence := .lit 1, auth := fun _ => false, ttl := .ignored }

/-- There is one proposal. -/
theorem fetchProposals_latest_iff_opening :
    ∃ ps, fetchProposals host ⟨run step Store.empty opening, ()⟩ printed 10 = .ok ps ∧
      ¬Latest (run step Store.empty opening) 10 ps := by
  obtain ⟨ps, hps, _, hiff⟩ := fetchProposals_latest_iff opening host () printed (by decide) 10 (by decide)
  exact ⟨ps, hps, fun h => absurd (hiff.1 h) (by decide)⟩

/-- The inspector does not find it. -/
theorem first_proposal_missing :
    (run step Store.empty opening).proposals.lookup (.lit 0) = some opened ∧
      SaysMissing (printed (.contract .proposalNotFound)) ∧
      fetchProposals host ⟨run step Store.empty opening, ()⟩ printed 10 = .ok [] ∧
      ¬Latest (run step Store.empty opening) 10 [] := by
  refine ⟨rfl, by decide, rfl, fun h => ?_⟩
  have hids := h.ids
  revert hids
  decide

end CosmosVote.Inspector
