import CosmosVote.Governance.Pagination
import CosmosVote.Soroban.Observer

/-!
# Reading while others write

A client reads the proposals in a state page by page, and between its pages governance is called. What it
reads is not what there was at one moment: it looks at every number once, at the smaller ones earlier
(`Swept`).

* `reading_sweep`: what the client has read is what it saw when it came past each number;
* `reading_complete`: when a page comes back empty, it has read all that have been in the state from its
  beginning on, and all that are active.
-/

namespace CosmosVote.Governance

open Soroban

variable {ω : Type}

/-! ## The client -/

/-- What a client has read of the proposals in a state, and the number from which it goes on. -/
structure Client where
  proposals : List Proposal
  fromId : U64

def Client.start : Client := ⟨[], .lit 0⟩

/-- The page that a client asks for is a query, which writes nothing. -/
def Store.pageOf (s : Store) (state : ProposalState) (env : HostEnv) (fromId : U64) (limit : U32) :
    Option (List Proposal) :=
  match ((getProposalsByState env state fromId limit).run (⟨s, ()⟩ : Ctx Store Unit)).1 with
  | .ok page => some page
  | _ => none

/-- The client asks for the next page, and goes on after the last proposal of it. -/
def Client.read (c : Client) (s : Store) (state : ProposalState) (env : HostEnv) (limit : U32) : Client :=
  match s.pageOf state env c.fromId limit with
  | none => c
  | some page =>
    match page.getLast?.bind fun last => IntRange.fit (last.id.val + 1) with
    | none => c
    | some next => ⟨c.proposals ++ page, next⟩

/-- What a client asks for. -/
structure PageRequest where
  env : HostEnv
  limit : U32

/-- The turns of the client. -/
def Client.look (state : ProposalState) (c : Client) (s : Store) (a : PageRequest) : Client :=
  c.read s state a.env a.limit

/-- Either governance is called, or the client asks for a page. -/
abbrev ReadingTurn (ω : Type) := Turn (Input ω) PageRequest

abbrev Reading.step (state : ProposalState) : Observed Store Client → ReadingTurn ω → Observed Store Client :=
  Observed.step Governance.step (Client.look state)

/-! ## Pages -/

section Page

variable {s : Store} {state : ProposalState} {env : HostEnv} {fromId : U64} {limit : U32}

theorem Store.pageOf_eq : s.pageOf state env fromId limit =
    some (((s.stored fromId s.proposalCount).filter fun p => p.state = state).take (min limit.val 20).toNat) := by
  rw [pageOf, run_getProposalsByState]

theorem Store.stored_append {a b c : U64} (hab : a.val ≤ b.val) (hbc : b.val ≤ c.val) :
    s.stored a b ++ s.stored b c = s.stored a c := by
  rw [stored, stored, ← List.filterMap_append, IntRange.range_append hab hbc, stored]

/-- A page that is not empty is what there is in the state up to its last proposal. -/
theorem WellFormed.page_eq (hs : WellFormed s) {n : ℕ} {last : Proposal}
    (hlast : (((s.stored fromId s.proposalCount).filter fun p => p.state = state).take n).getLast? = some last) :
    ∃ next : U64, IntRange.fit (last.id.val + 1) = some next ∧ fromId.val ≤ next.val ∧
      next.val ≤ s.proposalCount.val ∧
      ((s.stored fromId s.proposalCount).filter fun p => p.state = state).take n =
        (s.stored fromId next).filter fun p => p.state = state := by
  have hps : Listing s (fun p => p.state = state)
      ((s.stored (.lit 0) s.proposalCount).filter fun p => p.state = state) :=
    (hs.listing_stored (.lit 0) s.proposalCount).filter.congr fun p hp =>
      and_iff_right ⟨p.id.lo_le, hs.id_lt hp⟩
  generalize (s.stored (.lit 0) s.proposalCount).filter (fun p => p.state = state) = ps at hps
  have hqs := hs.stored_filter hps fromId
  rw [hqs] at hlast
  obtain ⟨hmem, next, hnext⟩ := hs.exists_next hps hlast
  have hle : fromId.val ≤ last.id.val := of_decide_eq_true (List.mem_filter.1 hmem).2
  have hcount : next.val ≤ s.proposalCount.val := by
    have := hs.id_lt ((hps.mem_iff last).1 (List.mem_filter.1 hmem).1).1
    omega
  refine ⟨next, IntRange.fit_eq_some.2 hnext, by omega, hcount, ?_⟩
  -- What is left after the page is what there is from the next number on.
  have hrest := hps.drop_page hlast hle hnext
  rw [← hs.stored_filter hps next, ← hqs] at hrest
  have hparts := congrArg (List.filter fun p => decide (p.state = state))
    (s.stored_append (by omega : fromId.val ≤ next.val) hcount)
  rw [List.filter_append, ← hrest] at hparts
  exact List.append_cancel_right ((List.take_append_drop n _).trans hparts.symm)

/-- The client stays where it is, or it reads what there is in the state up to another number. -/
theorem Client.read_cases (state : ProposalState) (hs : WellFormed s) (c : Client) (env : HostEnv) (limit : U32) :
    c.read s state env limit = c ∨
      ∃ next : U64, c.fromId.val ≤ next.val ∧ next.val ≤ s.proposalCount.val ∧
        c.read s state env limit =
          ⟨c.proposals ++ (s.stored c.fromId next).filter fun p => p.state = state, next⟩ := by
  rw [read, Store.pageOf_eq]
  dsimp only
  cases hlast : (((s.stored c.fromId s.proposalCount).filter fun p => p.state = state).take
      (min limit.val 20).toNat).getLast? with
  | none => exact .inl rfl
  | some last =>
    obtain ⟨next, hfit, hle, hcount, hpage⟩ := hs.page_eq hlast
    refine .inr ⟨next, hle, hcount, ?_⟩
    rw [Option.bind_some, hfit, hpage]

end Page

/-! ## Runs -/

/-- How far a state is from the beginning. -/
def ProposalState.rank : ProposalState → ℕ
  | .active => 0
  | .passed => 1
  | .rejected => 2
  | .executed => 2
  | .cancelled => 2

theorem StateMove.rank_lt {id : U64} {op : Op} {x y : ProposalState} (h : StateMove id op x y) : x.rank < y.rank := by
  cases h <;> decide

/-- A proposal never comes back to a state. -/
theorem run_rank {s : Store} (hs : WellFormed s) {id : U64} {p : Proposal} (hp : s.proposals.lookup id = some p)
    (is : List (Input ω)) :
    ∃ p', (run step s is).proposals.lookup id = some p' ∧ p.SameTerms p' ∧
      (p'.state = p.state ∨ p.state.rank < p'.state.rank) := by
  refine run_effects (I := fun t => ∃ p', t.proposals.lookup id = some p' ∧ p.SameTerms p' ∧
    (p'.state = p.state ∨ p.state.rank < p'.state.rank)) hs ⟨p, hp, .rfl p, .inl rfl⟩ ?_ is
  rintro t i t' o ht ⟨q, hq, hterms, hrank⟩ he
  obtain ⟨q', hq', hdisc⟩ := he.change.discipline ht hq
  refine ⟨q', hq', hterms.trans hdisc.terms, ?_⟩
  rcases hdisc.state with hsame | hmove
  · rwa [hsame]
  · refine .inr ?_
    rcases hrank with hrank | hrank
    · rw [← hrank]
      exact hmove.rank_lt
    · exact hrank.trans hmove.rank_lt

theorem Reading.run_wellFormed (state : ProposalState) {r : Observed Store Client} (hr : WellFormed r.store)
    (ts : List (ReadingTurn ω)) : WellFormed (run (step state) r ts).store :=
  Observed.run_store_invariant step_wellFormed hr ts

/-- The client has come past each number below the one from which it goes on at a moment of the turns, and has
    read the proposals that it saw there in the state. -/
structure Swept (state : ProposalState) (r : Observed Store Client) (ts : List (ReadingTurn ω)) (moment : U64 → ℕ) :
    Prop where
  le_length : ∀ id, moment id ≤ ts.length
  monotone : ∀ a b : U64, a.val ≤ b.val → moment a ≤ moment b
  /-- At this moment, there was a proposal under the number. -/
  known : ∀ id, id.val < (run (Reading.step state) r ts).observer.fromId.val →
    id.val < (Observed.storeAt (Reading.step state) r ts (moment id)).proposalCount.val
  proposals_eq : (run (Reading.step state) r ts).observer.proposals =
    ((IntRange.lit 0 : U64).range (run (Reading.step state) r ts).observer.fromId).filterMap fun id =>
      ((Observed.storeAt (Reading.step state) r ts (moment id)).proposals.lookup id).filter fun p => p.state = state

namespace Swept

variable {state : ProposalState} {r : Observed Store Client} {ts : List (ReadingTurn ω)} {moment : U64 → ℕ}

theorem nil (hr : r.observer = .start) : Swept (ω := ω) state r [] fun _ => 0 where
  le_length _ := Nat.le_refl 0
  monotone _ _ _ := Nat.le_refl 0
  known id hid := by
    rw [run_nil, hr] at hid
    exact absurd id.lo_le hid.not_ge
  proposals_eq := by
    rw [run_nil, hr]
    rfl

/-- A turn after which the client is where it was. -/
theorem stay (h : Swept state r ts moment) {t : ReadingTurn ω}
    (ht : (run (Reading.step state) r (ts ++ [t])).observer = (run (Reading.step state) r ts).observer) :
    Swept state r (ts ++ [t]) moment where
  le_length id := (h.le_length id).trans (List.length_append ▸ Nat.le_add_right _ _)
  monotone := h.monotone
  known id hid := by
    rw [Observed.storeAt_append (h.le_length id)]
    exact h.known id (ht ▸ hid)
  proposals_eq := by
    simp only [ht, Observed.storeAt_append (h.le_length _)]
    exact h.proposals_eq

/-- A page is read: the numbers up to its last proposal are seen now. -/
theorem advance (h : Swept state r ts moment) {a : PageRequest} {next : U64}
    (hle : (run (Reading.step state) r ts).observer.fromId.val ≤ next.val)
    (hcount : next.val ≤ (run (Reading.step state) r ts).store.proposalCount.val)
    (hread : (run (Reading.step state) r (ts ++ [.look a])).observer =
      ⟨(run (Reading.step state) r ts).observer.proposals ++
        ((run (Reading.step state) r ts).store.stored (run (Reading.step state) r ts).observer.fromId next).filter
          fun p => p.state = state, next⟩) :
    Swept state r (ts ++ [.look a]) fun id =>
      if id.val < (run (Reading.step state) r ts).observer.fromId.val then moment id else ts.length := by
  -- The moments up to now, and now.
  have hle' (id : U64) : (if id.val < (run (Reading.step state) r ts).observer.fromId.val then moment id
      else ts.length) ≤ ts.length := by
    split
    · exact h.le_length id
    · exact le_rfl
  refine ⟨fun id => (hle' id).trans (List.length_append ▸ Nat.le_add_right _ _), fun a b hab => ?_,
    fun id hid => ?_, ?_⟩
  · split_ifs with ha hb
    · exact h.monotone a b hab
    · exact h.le_length a
    · omega
    · exact le_rfl
  · rw [hread] at hid
    rw [Observed.storeAt_append (hle' id)]
    split_ifs with hlt
    · exact h.known id hlt
    · rw [Observed.storeAt_length]
      exact hid.trans_le hcount
  · rw [hread]
    simp only [Observed.storeAt_append (hle' _)]
    rw [← IntRange.range_append (IntRange.lo_le _) hle, List.filterMap_append, h.proposals_eq, Store.stored,
      List.filter_filterMap]
    congr 1
    · refine List.filterMap_congr fun id hid => ?_
      rw [if_pos (IntRange.mem_range.1 hid).2]
    · refine List.filterMap_congr fun id hid => ?_
      rw [if_neg (IntRange.mem_range.1 hid).1.not_gt, Observed.storeAt_length]

end Swept

theorem run_swept (state : ProposalState) {r : Observed Store Client} (hr : WellFormed r.store)
    (hstart : r.observer = .start) (ts : List (ReadingTurn ω)) : ∃ moment, Swept state r ts moment := by
  induction ts using List.reverseRecOn with
  | nil => exact ⟨_, .nil hstart⟩
  | append_singleton ts t ih =>
    obtain ⟨moment, h⟩ := ih
    cases t with
    | write i =>
      refine ⟨moment, h.stay ?_⟩
      rw [run_concat]
      rfl
    | look a =>
      rcases Client.read_cases state (Reading.run_wellFormed state hr ts)
        (run (Reading.step state) r ts).observer a.env a.limit with hstay | ⟨next, hle, hcount, hread⟩
      · refine ⟨moment, h.stay ?_⟩
        rw [run_concat]
        exact hstay
      · refine ⟨_, h.advance hle hcount ?_⟩
        rw [run_concat]
        exact hread

/-- A client begins to read the proposals in a state at any moment, and from then on its pages and the calls
    come in any order. What it has read are the proposals that it saw in the state when it came past their
    numbers, in ascending order, and later for greater numbers. -/
theorem reading_sweep (state : ProposalState) (is : List (Input ω)) (ts : List (ReadingTurn ω)) :
    ∃ moment, Swept state ⟨run step Store.empty is, .start⟩ ts moment :=
  run_swept state (run_wellFormed is) rfl ts

/-! ## What is not missed -/

/-- What was there under a number at a moment, and what has become of it since. -/
theorem Reading.exists_seen {state : ProposalState} {r : Observed Store Client} {ts : List (ReadingTurn ω)}
    (hr : WellFormed r.store) {k : ℕ} {id : U64}
    (hid : id.val < (Observed.storeAt (step state) r ts k).proposalCount.val) :
    ∃ q, (Observed.storeAt (step state) r ts k).proposals.lookup id = some q ∧
      (∀ p₀, r.store.proposals.lookup id = some p₀ → q.state = p₀.state ∨ p₀.state.rank < q.state.rank) ∧
      ∀ p, (run (step state) r ts).store.proposals.lookup id = some p →
        q.SameTerms p ∧ (p.state = q.state ∨ q.state.rank < p.state.rank) := by
  have hk : WellFormed (Observed.storeAt (step state) r ts k) := run_wellFormed state hr (ts.take k)
  obtain ⟨q, hq⟩ := Option.isSome_iff_exists.1 ((hk.isSome_iff id).2 hid)
  refine ⟨q, hq, fun p₀ hp₀ => ?_, fun p hp => ?_⟩
  · obtain ⟨q', hq', _, hrank⟩ := run_rank hr hp₀ (Turn.writes (ts.take k))
    rw [← Observed.storeAt_eq] at hq'
    obtain rfl := Option.some_inj.1 (hq'.symm.trans hq)
    exact hrank
  · obtain ⟨p', hp', hterms, hrank⟩ := run_rank hk hq (Turn.writes (ts.drop k))
    rw [← Observed.store_since] at hp'
    obtain rfl := Option.some_inj.1 (hp'.symm.trans hp)
    exact ⟨hterms, hrank⟩

/-- Under each number, the client has read at most what it saw there. -/
theorem Swept.filter_id {state : ProposalState} {r : Observed Store Client} {ts : List (ReadingTurn ω)}
    {moment : U64 → ℕ} (h : Swept state r ts moment) (hr : WellFormed r.store) {id : U64}
    (hid : id.val < (run (Reading.step state) r ts).observer.fromId.val) :
    (run (Reading.step state) r ts).observer.proposals.filter (fun q => q.id = id) =
      (((Observed.storeAt (Reading.step state) r ts (moment id)).proposals.lookup id).filter
        fun p => p.state = state).toList := by
  rw [h.proposals_eq]
  have hnodup := (IntRange.pairwise_range (IntRange.lit 0) (run (Reading.step state) r ts).observer.fromId).imp
    fun {a b : U64} (hlt : a.val < b.val) (he : a = b) => hlt.ne (congrArg IntRange.val he)
  refine Concurrent.filter_filterMap_key (fun k q hq => ?_) hnodup (IntRange.mem_range.2 ⟨id.lo_le, hid⟩)
  -- A proposal is stored under its own number.
  obtain ⟨hq, _⟩ := Option.filter_eq_some_iff.1 hq
  exact ((Reading.run_wellFormed state hr (ts.take (moment k))).proper k q hq).id_eq

/-- Governance is called between the pages of a client, in any way. When a page, for which it asks with a limit
    other than `0`, comes back empty, it has read every proposal that is active now, if it reads these, and
    otherwise every proposal that is in the state now and was so when it began; and each of them once. -/
theorem reading_complete (state : ProposalState) (is : List (Input ω)) (ts : List (ReadingTurn ω))
    (env : HostEnv) {limit : U32} (hlimit : 1 ≤ limit.val)
    (hempty : (run (Reading.step state) ⟨run step Store.empty is, .start⟩ ts).store.pageOf state env
      (run (Reading.step state) ⟨run step Store.empty is, .start⟩ ts).observer.fromId limit = some [])
    {id : U64} {p : Proposal}
    (hp : (run (Reading.step state) ⟨run step Store.empty is, .start⟩ ts).store.proposals.lookup id = some p)
    (hstate : p.state = state)
    (hsince : state = .active ∨
      ∃ p₀, (run step Store.empty is).proposals.lookup id = some p₀ ∧ p₀.state = state) :
    ∃ q, (run (Reading.step state) ⟨run step Store.empty is, .start⟩ ts).observer.proposals.filter
        (fun q => q.id = id) = [q] ∧ q.SameTerms p ∧ q.state = state := by
  have hr := run_wellFormed is
  obtain ⟨moment, h⟩ := run_swept state (r := ⟨run step Store.empty is, .start⟩) hr rfl ts
  have ht := Reading.run_wellFormed state (r := ⟨run step Store.empty is, .start⟩) hr ts
  -- It has come past the number, as there is nothing left.
  have hid : id.val <
      (run (Reading.step state) ⟨run step Store.empty is, .start⟩ ts).observer.fromId.val := by
    refine not_le.1 fun hle => ?_
    have hid' := (ht.proper id p hp).id_eq
    rw [← hid'] at hp hle
    have hmem := ((ht.listing_stored _ _).mem_iff p).2 ⟨hp, hle, ht.id_lt hp⟩
    rw [Store.pageOf_eq, Option.some_inj, List.take_eq_nil_iff] at hempty
    rcases hempty with hzero | hnil
    · omega
    · exact List.filter_eq_nil_iff.1 hnil p hmem (decide_eq_true hstate)
  obtain ⟨q, hq, hbefore, hafter⟩ := Reading.exists_seen hr (h.known id hid)
  obtain ⟨hterms, hrank⟩ := hafter p hp
  have hseen : q.state = state := by
    rcases hsince with hactive | ⟨p₀, hp₀, hstate₀⟩
    · -- A proposal does not become active.
      rw [hstate, hactive] at hrank
      rw [hactive]
      exact hrank.elim Eq.symm fun hlt => absurd hlt (Nat.not_lt_zero _)
    · have hrank₀ := hbefore p₀ hp₀
      rw [hstate] at hrank
      rw [hstate₀] at hrank₀
      rcases hrank₀ with hsame | hlt
      · exact hsame
      · exact hrank.elim Eq.symm fun hlt' => absurd (hlt.trans hlt') (lt_irrefl _)
  refine ⟨q, ?_, hterms, hseen⟩
  rw [h.filter_id hr hid, hq, Option.filter_some, if_pos (decide_eq_true hseen)]
  rfl

/-- The client reads the first proposal before there is a vote on it. -/
def pageThenVote : List (ReadingTurn Unit) :=
  [.look ⟨(signed (.lit 1) (.finalise (.lit 0))).env.toHostEnv, .lit 20⟩,
    .write (signed (.lit 2) (.castVote (.account 1) (.lit 0) .yes))]

theorem reading_complete_vote :
    ∃ q, (run (Reading.step .active) ⟨run step Store.empty opening, .start⟩ pageThenVote).observer.proposals.filter
        (fun q => q.id = .lit 0) = [q] ∧
      q.SameTerms ((opened.setTally .yes (.lit 100)).setVoterCount (.lit 1)) ∧ q.state = .active :=
  reading_complete .active opening pageThenVote (signed (.lit 3) (.finalise (.lit 0))).env.toHostEnv
    (by decide : 1 ≤ (.lit 20 : U32).val) (by decide) (by decide) rfl (.inl rfl)

end CosmosVote.Governance
