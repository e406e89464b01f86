import CosmosVote.Governance.Reading

/-!
# Fetching all proposals

The frontend asks governance how many proposals there are, and then for all of them at once
(`fetchAllProposals`). The answers come in any order, and governance is called in between, so that each is
what governance has at a moment of its own. A request may fail, and then the list goes without its proposal.

* `Fetched`: what the requests answered so far have found;
* `fetchAllProposals_exact`: every proposal that there was when the call began is in the list, as it was at some
  moment since, or its own request has failed.
-/

namespace CosmosVote.Frontend

open Soroban Governance

variable {ω : Type}

/-- A request, and what has become of it. -/
inductive Promise (α : Type)
  | pending
  | fulfilled (a : α)
  | rejected

def Promise.value {α : Type} : Promise α → Option α
  | .fulfilled a => some a
  | _ => none

theorem Promise.value_eq_some {α : Type} {x : Promise α} {a : α} : x.value = some a ↔ x = .fulfilled a := by
  cases x <;> simp [value]

def Promise.isPending {α : Type} : Promise α → Bool
  | .pending => true
  | _ => false

def Promise.settle {α : Type} : Option α → Promise α
  | some a => .fulfilled a
  | none => .rejected

/-- A call of `fetchAllProposals`, until all its requests are settled. -/
inductive Fetch
  /-- It waits for the count. -/
  | counting
  /-- There was no count. -/
  | failed
  | fetching (results : List (Promise Proposal))

/-- What arrives from the network: a request reaches governance or fails. -/
inductive Answer
  | count (reached : Bool)
  | proposal (id : ℕ) (env : HostEnv) (reached : Bool)

section Requests

variable (s : Store)

/-- A view is only simulated. It throws if there is no result. -/
def simulateCall {α : Type} (view : GovernanceCall Unit α) (reached : Bool) : Option α :=
  if reached then
    match (view.run ⟨s, ()⟩).1 with
    | .ok a => some a
    | _ => none
  else none

def fetchProposalCount (reached : Bool) : Option ℕ :=
  (simulateCall s proposalCount reached).map fun count => count.val.toNat

def fetchProposal (id : ℕ) (env : HostEnv) (reached : Bool) : Option Proposal :=
  (IntRange.fit (id : ℤ) : Option U64).bind fun id => simulateCall s (getProposal env id) reached

end Requests

namespace Fetch

def look : Fetch → Store → Answer → Fetch
  | .counting, s, .count reached =>
    match fetchProposalCount s reached with
    | some count => .fetching (List.replicate count .pending)
    | none => .failed
  | .fetching results, s, .proposal id env reached =>
    match results[id]? with
    | some .pending => .fetching (results.set id (.settle (fetchProposal s id env reached)))
    | _ => .fetching results
  | f, _, _ => f

/-- The requests are made when the count arrives; then an answer settles one of them, or changes nothing. -/
theorem look_cases {f : Fetch} {s : Store} {a : Answer} {results : List (Promise Proposal)}
    (h : look f s a = .fetching results) :
    (∃ reached count, a = .count reached ∧ fetchProposalCount s reached = some count ∧
      f = .counting ∧ results = List.replicate count .pending) ∨
    f = .fetching results ∨
    ∃ before id env reached, a = .proposal id env reached ∧ f = .fetching before ∧ before[id]? = some .pending ∧
      results = before.set id (.settle (fetchProposal s id env reached)) := by
  cases f with
  | failed => cases a <;> cases h
  | counting =>
    cases a with
    | proposal id env reached => cases h
    | count reached =>
      rw [look] at h
      cases hcount : fetchProposalCount s reached with
      | none => simp [hcount] at h
      | some count =>
        simp only [hcount, fetching.injEq] at h
        exact .inl ⟨reached, count, rfl, hcount, rfl, h.symm⟩
  | fetching before =>
    cases a with
    | count reached => exact .inr (.inl h)
    | proposal id env reached =>
      rw [look] at h
      split at h
      · rename_i hid
        rw [fetching.injEq] at h
        exact .inr (.inr ⟨before, id, env, reached, rfl, rfl, hid, h.symm⟩)
      · exact .inr (.inl h)

/-- What the call returns once all its requests are settled. -/
def proposals : Fetch → Option (List Proposal)
  | .fetching results => if results.any Promise.isPending then none else some (results.filterMap Promise.value)
  | _ => none

theorem exists_results {f : Fetch} {ps : List Proposal} (h : f.proposals = some ps) :
    ∃ results, f = .fetching results ∧ (∀ x ∈ results, x ≠ .pending) ∧ results.filterMap Promise.value = ps := by
  cases f with
  | counting => cases h
  | failed => cases h
  | fetching results =>
    rw [proposals] at h
    split at h
    · cases h
    · rename_i hany
      rw [List.any_eq_true] at hany
      refine ⟨results, rfl, ?_, Option.some_inj.1 h⟩
      rintro x hx rfl
      exact hany ⟨_, hx, rfl⟩

end Fetch

/-- Governance is called, and the answers arrive. -/
abbrev Fetch.step : Observed Store Fetch → Turn (Input ω) Answer → Observed Store Fetch :=
  Observed.step Governance.step Fetch.look

/-! ## What is found -/

section Found

variable {s : Store}

/-- Every number below the count has a proposal. -/
theorem fetchProposal_eq (hs : WellFormed s) {id : ℕ} (hid : (id : ℤ) < s.proposalCount.val) (env : HostEnv) :
    ∃ p, fetchProposal s id env true = some p ∧ p.id.val = id ∧ s.proposals.lookup p.id = some p := by
  obtain ⟨key, hfit, hkey⟩ : ∃ key : U64, IntRange.fit (id : ℤ) = some key ∧ key.val = id :=
    IntRange.exists_fit (Int.natCast_nonneg id) (hid.le.trans s.proposalCount.le_hi)
  obtain ⟨p, hp⟩ := Option.isSome_iff_exists.1 ((hs.isSome_iff key).2 (hkey ▸ hid))
  have hid := (hs.proper key p hp).id_eq
  refine ⟨p, ?_, by rw [hid, hkey], by rw [hid, hp]⟩
  rw [fetchProposal, hfit, Option.bind_some, simulateCall, if_pos rfl, getProposal, findProposal,
    Call.run_bind_of_ok (Storage.run_proposal env _ key)]
  dsimp only
  rw [hp]
  rfl

theorem fetchProposal_unreached (id : ℕ) (env : HostEnv) : fetchProposal s id env false = none := by
  rw [fetchProposal]
  cases (IntRange.fit (id : ℤ) : Option U64) <;> rfl

/-- There are never fewer proposals than before. -/
theorem run_proposalCount_le (hs : WellFormed s) (is : List (Input ω)) :
    s.proposalCount.val ≤ (run Governance.step s is).proposalCount.val := by
  refine not_lt.1 fun hlt => ?_
  obtain ⟨p, hp⟩ := Option.isSome_iff_exists.1 ((hs.isSome_iff _).2 hlt)
  obtain ⟨p', hp', _⟩ := run_sameTerms hs hp is
  have hsome : ((run Governance.step s is).proposals.lookup (run Governance.step s is).proposalCount).isSome := by
    rw [hp']
    rfl
  exact lt_irrefl _ (((run_invariant step_wellFormed hs is).isSome_iff _).1 hsome)

theorem Fetch.proposalCount_le {r : Observed Store Fetch} (hr : WellFormed r.store)
    (ts : List (Turn (Input ω) Answer)) :
    r.store.proposalCount.val ≤ (run Fetch.step r ts).store.proposalCount.val := by
  rw [Observed.run_store]
  exact run_proposalCount_le hr _

end Found

/-! ## The answers so far -/

/-- The answers that have arrived during the turns. -/
structure Fetched (r : Observed Store Fetch) (ts : List (Turn (Input ω) Answer)) (results : List (Promise Proposal)) :
    Prop where
  /-- The count was that of a moment since. -/
  count_le : r.store.proposalCount.val ≤ results.length
  le_count : results.length ≤ (run Fetch.step r ts).store.proposalCount.val
  fulfilled : ∀ (i : ℕ) p, results[i]? = some (.fulfilled p) → p.id.val = i ∧
    ∃ k ≤ ts.length, (Observed.storeAt Fetch.step r ts k).proposals.lookup p.id = some p
  rejected : ∀ i : ℕ, results[i]? = some .rejected → ∃ env, .look (.proposal i env false) ∈ ts

namespace Fetched

variable {r : Observed Store Fetch} {ts : List (Turn (Input ω) Answer)} {results : List (Promise Proposal)}

/-- A later turn that is no answer to a request. -/
theorem concat (h : Fetched r ts results) (hr : WellFormed r.store) (t : Turn (Input ω) Answer) :
    Fetched r (ts ++ [t]) results where
  count_le := h.count_le
  le_count := by
    rw [run_append]
    exact h.le_count.trans (Fetch.proposalCount_le (Observed.run_store_invariant step_wellFormed hr ts) [t])
  fulfilled i p hi := by
    obtain ⟨hid, k, hk, hp⟩ := h.fulfilled i p hi
    refine ⟨hid, k, hk.trans (List.length_append ▸ Nat.le_add_right _ _), ?_⟩
    rwa [Observed.storeAt_append hk]
  rejected i hi := by
    obtain ⟨env, hmem⟩ := h.rejected i hi
    exact ⟨env, List.mem_append_left _ hmem⟩

/-- The count is answered. -/
theorem count (hr : WellFormed r.store) {reached : Bool} {count : ℕ}
    (hcount : fetchProposalCount (run Fetch.step r ts).store reached = some count) :
    Fetched r (ts ++ [.look (.count reached)]) (List.replicate count .pending) := by
  have hstore : (run Fetch.step r (ts ++ [.look (.count reached)])).store = (run Fetch.step r ts).store := by
    rw [run_concat]
    rfl
  have hle := Fetch.proposalCount_le hr ts
  have hval : (count : ℤ) = (run Fetch.step r ts).store.proposalCount.val := by
    have hlo := (run Fetch.step r ts).store.proposalCount.lo_le
    cases reached with
    | false => cases hcount
    | true =>
      have : (run Fetch.step r ts).store.proposalCount.val.toNat = count := Option.some_inj.1 hcount
      omega
  refine ⟨?_, ?_, fun i p hi => ?_, fun i hi => ?_⟩
  · rw [List.length_replicate, hval]
    exact hle
  · rw [List.length_replicate, hval, hstore]
  · cases List.eq_of_mem_replicate (List.mem_of_getElem? hi)
  · cases List.eq_of_mem_replicate (List.mem_of_getElem? hi)

/-- A request for a proposal is settled. -/
theorem settle (h : Fetched r ts results) (hr : WellFormed r.store) {id : ℕ} (env : HostEnv) (reached : Bool)
    (hid : results[id]? = some .pending) :
    Fetched r (ts ++ [.look (.proposal id env reached)])
      (results.set id (.settle (fetchProposal (run Fetch.step r ts).store id env reached))) := by
  have hconcat := h.concat hr (.look (.proposal id env reached))
  have hlt : id < results.length := List.getElem?_eq_some_iff.1 hid |>.1
  have ht : WellFormed (run Fetch.step r ts).store := Observed.run_store_invariant step_wellFormed hr ts
  refine ⟨?_, ?_, fun i p hi => ?_, fun i hi => ?_⟩
  · rw [List.length_set]
    exact hconcat.count_le
  · rw [List.length_set]
    exact hconcat.le_count
  · rcases eq_or_ne id i with rfl | hne
    · rw [List.getElem?_set_self hlt, Option.some_inj] at hi
      cases reached with
      | false =>
        rw [fetchProposal_unreached] at hi
        cases hi
      | true =>
        obtain ⟨q, hq, hval, hstored⟩ := fetchProposal_eq ht (lt_of_lt_of_le (Int.ofNat_lt.2 hlt) h.le_count) env
        rw [hq] at hi
        cases hi
        refine ⟨hval, ts.length, by rw [List.length_append]; exact Nat.le_add_right _ _, ?_⟩
        rwa [Observed.storeAt_append le_rfl, Observed.storeAt_length]
    · rw [List.getElem?_set_ne hne] at hi
      exact hconcat.fulfilled i p hi
  · rcases eq_or_ne id i with rfl | hne
    · rw [List.getElem?_set_self hlt, Option.some_inj] at hi
      cases reached with
      | false => exact ⟨env, List.mem_append_right _ (List.mem_singleton_self _)⟩
      | true =>
        -- Governance has the proposal.
        obtain ⟨q, hq, _⟩ := fetchProposal_eq ht (lt_of_lt_of_le (Int.ofNat_lt.2 hlt) h.le_count) env
        rw [hq] at hi
        cases hi
    · rw [List.getElem?_set_ne hne] at hi
      exact hconcat.rejected i hi

/-- The list is in the order of the requests. -/
theorem ascending (h : Fetched r ts results) :
    (results.filterMap Promise.value).Pairwise fun p q => p.id.val < q.id.val := by
  rw [List.pairwise_filterMap, List.pairwise_iff_getElem]
  intro i j hi hj hlt p hp q hq
  rw [(h.fulfilled i p (List.getElem?_eq_some_iff.2 ⟨hi, Promise.value_eq_some.1 hp⟩)).1,
    (h.fulfilled j q (List.getElem?_eq_some_iff.2 ⟨hj, Promise.value_eq_some.1 hq⟩)).1]
  exact Int.ofNat_lt.2 hlt

end Fetched

theorem run_fetched {r : Observed Store Fetch} (hr : WellFormed r.store) (hstart : r.observer = .counting)
    (ts : List (Turn (Input ω) Answer)) {results : List (Promise Proposal)}
    (h : (run Fetch.step r ts).observer = .fetching results) : Fetched r ts results := by
  induction ts using List.reverseRecOn generalizing results with
  | nil =>
    rw [run_nil, hstart] at h
    cases h
  | append_singleton ts t ih =>
    rw [run_concat] at h
    cases t with
    | write i => exact (ih h).concat hr _
    | look a =>
      obtain ⟨reached, count, rfl, hcount, _, rfl⟩ | hsame | ⟨before, id, env, reached, rfl, hbefore, hid, rfl⟩ :=
        Fetch.look_cases h
      · exact .count hr hcount
      · exact (ih hsame).concat hr _
      · exact (ih hbefore).settle hr env reached hid

/-- From any moment on, the frontend fetches the proposals while governance is called in any way. Once all its
    requests are settled, the list has different proposals in ascending order, each as governance has had it at
    some moment since; and every proposal that there was at the beginning is among them, with the same terms and
    in the same or a later state, or its own request has failed. -/
theorem fetchAllProposals_exact (is : List (Input ω)) (ts : List (Turn (Input ω) Answer)) {ps : List Proposal}
    (hps : (run Fetch.step ⟨run Governance.step Store.empty is, .counting⟩ ts).observer.proposals = some ps) :
    ps.Pairwise (fun p q => p.id.val < q.id.val) ∧
    (∀ p ∈ ps, ∃ k ≤ ts.length,
      (Observed.storeAt Fetch.step ⟨run Governance.step .empty is, .counting⟩ ts k).proposals.lookup p.id = some p) ∧
    ∀ id p₀, (run Governance.step Store.empty is).proposals.lookup id = some p₀ →
      (∃ p ∈ ps, p.id = id ∧ p₀.SameTerms p ∧ (p.state = p₀.state ∨ p₀.state.rank < p.state.rank)) ∨
        ∃ env, .look (.proposal id.val.toNat env false) ∈ ts := by
  have hr := run_wellFormed is
  obtain ⟨results, hresults, hsettled, rfl⟩ := Fetch.exists_results hps
  have h := run_fetched (r := ⟨run Governance.step Store.empty is, .counting⟩) hr rfl ts hresults
  refine ⟨h.ascending, fun p hp => ?_, fun id p₀ hp₀ => ?_⟩
  · obtain ⟨x, hx, hvalue⟩ := List.mem_filterMap.1 hp
    obtain ⟨i, hi⟩ := List.mem_iff_getElem?.1 hx
    rw [Promise.value_eq_some.1 hvalue] at hi
    exact (h.fulfilled i p hi).2
  · have hlt : id.val.toNat < results.length := by
      have hid := (hr.id_lt hp₀).trans_le h.count_le
      have hlo := id.lo_le
      omega
    have hget : results[id.val.toNat]? = some (results[id.val.toNat]) := List.getElem?_eq_getElem hlt
    cases hx : results[id.val.toNat] with
    | pending => exact absurd hx (hsettled _ (List.getElem_mem hlt))
    | rejected =>
      rw [hx] at hget
      exact .inr (h.rejected _ hget)
    | fulfilled p =>
      rw [hx] at hget
      obtain ⟨hval, k, _, hp⟩ := h.fulfilled _ p hget
      have hid : p.id = id := by
        rw [← IntRange.val_inj, hval]
        exact Int.toNat_of_nonneg id.lo_le
      -- What the proposal has become by the moment of the answer.
      obtain ⟨p', hp', hterms, hrank⟩ := run_rank hr hp₀ (Turn.writes (ts.take k))
      rw [Observed.storeAt_eq, hid] at hp
      obtain rfl := Option.some_inj.1 (hp'.symm.trans hp)
      exact .inl ⟨p', List.mem_filterMap.2 ⟨_, List.mem_of_getElem? hget, rfl⟩, hid, hterms, hrank⟩

/-- The first proposal is finalised after the count is answered, and before its request is. -/
def fetching : List (Turn (Input Unit) Answer) :=
  [.look (.count true), .write (signed (.lit 61) (.finalise (.lit 0))),
    .look (.proposal 0 (signed (.lit 62) (.finalise (.lit 0))).env.toHostEnv true)]

theorem fetchAllProposals_exact_finalised :
    ∃ p, (run Fetch.step ⟨run Governance.step Store.empty opening, .counting⟩ fetching).observer.proposals = some [p] ∧
      p.state = .rejected ∧ opened.SameTerms p := by
  have hps : (run Fetch.step ⟨run Governance.step Store.empty opening, .counting⟩ fetching).observer.proposals =
      some [{ opened with state := .rejected }] := rfl
  obtain ⟨_, _, hall⟩ := fetchAllProposals_exact opening fetching hps
  rcases hall (.lit 0) opened rfl with ⟨p, hp, _, hterms, _⟩ | ⟨env, hlost⟩
  · rw [List.mem_singleton.1 hp] at hterms
    exact ⟨_, hps, rfl, hterms⟩
  · simp [fetching] at hlost

end CosmosVote.Frontend
