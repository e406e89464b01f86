import CosmosVote.Frontend.Proposals
import CosmosVote.Governance.Outcome

/-!
# Loading the votes of a user

For every proposal of its list, the proposal store asks governance whether the user has voted on it, and then
for the vote (`loadVotesForUser`). The proposals are asked for at once, and governance is called in between, so
that the two answers on a proposal need not be about one vote.

* `VoteLoad.Sound`: what is known from the answers on a proposal;
* `loadVotes_exact`: every vote that is found has been recorded at some moment since; and a proposal without one
  has been without one at some moment since, or a request on it has failed.
-/

namespace CosmosVote.Frontend

open Soroban Governance

variable {ω : Type}

/-- What has become of the requests for the vote on a proposal. -/
inductive VoteLoad
  /-- It is asked whether there is a vote. -/
  | asking
  /-- It is asked for the vote. -/
  | fetching
  | settled (record : Option VoteRecord)

namespace VoteLoad

def isSettled : VoteLoad → Bool
  | .settled _ => true
  | _ => false

/-- The vote that is found. -/
def vote : VoteLoad → Option VoteRecord
  | .settled record => record
  | _ => none

theorem vote_eq_some {x : VoteLoad} {r : VoteRecord} : x.vote = some r ↔ x = .settled (some r) := by
  cases x <;> simp [vote]

end VoteLoad

inductive VoteQuery
  | hasVoted
  | voteRecord

/-- What arrives from the network on the `index`-th proposal: the request reaches governance or fails. -/
structure VoteReply where
  index : ℕ
  query : VoteQuery
  env : HostEnv
  reached : Bool

section Requests

variable (s : Store) (voter : Address)

def fetchHasVoted (id : U64) (env : HostEnv) (reached : Bool) : Option Bool :=
  simulateCall s (hasVoted env id voter) reached

def fetchVoteRecord (id : U64) (env : HostEnv) (reached : Bool) : Option VoteRecord :=
  simulateCall s (getVote env id voter) reached

/-- An answer on the proposal `id`. What fails counts as no vote. -/
def VoteLoad.advance (id : U64) : VoteLoad → VoteReply → VoteLoad
  | .asking, ⟨_, .hasVoted, env, reached⟩ =>
    if (fetchHasVoted s voter id env reached).getD false then .fetching else .settled none
  | .fetching, ⟨_, .voteRecord, env, reached⟩ => .settled (fetchVoteRecord s voter id env reached)
  | x, _ => x

end Requests

/-- A call of `loadVotesForUser`: the proposals it asks for, and what has become of each. -/
abbrev VotesLoad := List (U64 × VoteLoad)

namespace VotesLoad

def start (ids : List U64) : VotesLoad := ids.map fun id => (id, .asking)

def look (voter : Address) (l : VotesLoad) (s : Store) (a : VoteReply) : VotesLoad :=
  l.modify a.index fun x => (x.1, x.2.advance s voter x.1 a)

/-- The map of votes, once all requests are settled. -/
def votedMap (l : VotesLoad) : Option (List (U64 × VoteRecord)) :=
  if l.all fun x => x.2.isSettled then some (l.filterMap fun x => x.2.vote.map fun r => (x.1, r)) else none

/-- Governance is called, and the answers arrive. -/
abbrev step (voter : Address) : Observed Store VotesLoad → Turn (Input ω) VoteReply → Observed Store VotesLoad :=
  Observed.step Governance.step (look voter)

variable {l : VotesLoad} {es : List (U64 × VoteRecord)} {id : U64} {r : VoteRecord}

theorem votedMap_eq_some : l.votedMap = some es ↔
    (∀ x ∈ l, x.2.isSettled = true) ∧ l.filterMap (fun x => x.2.vote.map fun r => (x.1, r)) = es := by
  rw [votedMap, ← List.all_eq_true, Option.ite_none_right_eq_some, Option.some_inj]

theorem mem_votedMap (h : l.votedMap = some es) : (id, r) ∈ es ↔ (id, .settled (some r)) ∈ l := by
  obtain ⟨_, rfl⟩ := votedMap_eq_some.1 h
  rw [List.mem_filterMap]
  constructor
  · rintro ⟨⟨id', x⟩, hx, hvote⟩
    obtain ⟨r', hr', heq⟩ := Option.map_eq_some_iff.1 hvote
    obtain ⟨rfl, rfl⟩ := Prod.mk.inj heq
    rwa [← VoteLoad.vote_eq_some.1 hr']
  · exact fun hmem => ⟨_, hmem, rfl⟩

/-- A proposal that is not in the map is settled without a vote. -/
theorem settled_none (h : l.votedMap = some es) (hid : id ∈ l.map Prod.fst) (hnone : ∀ r, (id, r) ∉ es) :
    (id, .settled none) ∈ l := by
  obtain ⟨⟨_, x⟩, hx, rfl⟩ := List.mem_map.1 hid
  have hsettled := (votedMap_eq_some.1 h).1 _ hx
  cases x with
  | asking => cases hsettled
  | fetching => cases hsettled
  | settled record =>
    cases record with
    | none => exact hx
    | some r => exact absurd ((mem_votedMap h).2 hx) (hnone r)

/-- The votes are in the order of the proposals. -/
theorem votedMap_sublist (h : l.votedMap = some es) : (es.map Prod.fst).Sublist (l.map Prod.fst) := by
  obtain ⟨-, rfl⟩ := votedMap_eq_some.1 h
  clear h
  induction l with
  | nil => exact .slnil
  | cons x l ih =>
    rw [List.filterMap_cons, List.map_cons]
    cases x.2.vote with
    | none => exact ih.cons _
    | some r => exact ih.cons_cons _

/-- An answer changes nothing but what has become of its proposal. -/
theorem getElem?_look {voter : Address} {s : Store} {a : VoteReply} {i : ℕ} {y : VoteLoad}
    (h : (look voter l s a)[i]? = some (id, y)) :
    ∃ x, l[i]? = some (id, x) ∧ y = if a.index = i then x.advance s voter id a else x := by
  rw [look, List.getElem?_modify] at h
  obtain ⟨⟨id', x⟩, hx, heq⟩ := Option.map_eq_some_iff.1 h
  split at heq
  · obtain ⟨rfl, rfl⟩ := Prod.mk.inj heq
    exact ⟨x, hx, (if_pos ‹_›).symm⟩
  · obtain ⟨rfl, rfl⟩ := Prod.mk.inj heq
    exact ⟨x, hx, (if_neg ‹_›).symm⟩

theorem map_fst_look (voter : Address) (s : Store) (a : VoteReply) :
    (look voter l s a).map Prod.fst = l.map Prod.fst := by
  refine List.ext_getElem? fun i => ?_
  rw [look, List.getElem?_map, List.getElem?_map, List.getElem?_modify, Option.map_eq_map, Option.map_map]
  refine congrArg (Option.map · l[i]?) ?_
  funext x
  rw [Function.comp_apply]
  split <;> rfl

end VotesLoad

/-! ## What is known -/

section Answers

variable {s : Store} {voter : Address} {id : U64} {env : HostEnv}

/-- Unless governance answers that there is a vote, none is recorded. -/
theorem fetchHasVoted_none (ht : TallyCorrespondence s) (h : ¬(fetchHasVoted s voter id env true).getD false) :
    s.voteRecords.lookup (id, voter) = none := by
  rw [← Option.not_isSome_iff_eq_none, ← ht.voted_iff]
  refine fun hvoted => h ?_
  have hflag : (s.hasVoted.lookup (id, voter)).isSome := by
    rw [Store.voted] at hvoted
    cases hflag : s.hasVoted.lookup (id, voter) with
    | none =>
      rw [hflag] at hvoted
      cases hvoted
    | some _ => rfl
  have hrun : (hasVoted env id voter).run ⟨s, ()⟩ = (.ok true, ⟨s, ()⟩) :=
    (Storage.run_hasVoted_ok env).2 ⟨.inl hflag, hvoted, rfl⟩
  rw [fetchHasVoted, simulateCall, if_pos rfl, hrun]
  rfl

theorem fetchVoteRecord_reached : fetchVoteRecord s voter id env true = s.voteRecords.lookup (id, voter) := by
  rw [fetchVoteRecord, simulateCall, if_pos rfl, getVote, Call.run_bind_of_ok (Storage.run_voteRecord env _ id voter)]
  dsimp only
  cases s.voteRecords.lookup (id, voter) <;> rfl

end Answers

/-- At some moment during the turns, this was recorded of the voter on the proposal `id`. -/
def Recorded (voter : Address) (r : Observed Store VotesLoad) (ts : List (Turn (Input ω) VoteReply)) (id : U64)
    (record : Option VoteRecord) : Prop :=
  ∃ k ≤ ts.length, (Observed.storeAt (VotesLoad.step voter) r ts k).voteRecords.lookup (id, voter) = record

/-- During the turns, a request on the `i`-th proposal has failed. -/
def Lost (ts : List (Turn (Input ω) VoteReply)) (i : ℕ) : Prop :=
  ∃ a : VoteReply, .look a ∈ ts ∧ a.index = i ∧ a.reached = false

/-- What is known of the `i`-th proposal, which has the number `id`. -/
def VoteLoad.Sound (voter : Address) (r : Observed Store VotesLoad) (ts : List (Turn (Input ω) VoteReply)) (i : ℕ)
    (id : U64) (x : VoteLoad) : Prop :=
  ∀ record, x = .settled record → Recorded voter r ts id record ∨ record = none ∧ Lost ts i

section Turns

variable {voter : Address} {r : Observed Store VotesLoad} {ts : List (Turn (Input ω) VoteReply)} {i : ℕ} {id : U64}
  {record : Option VoteRecord} {x : VoteLoad} {a : VoteReply}

theorem Recorded.append (h : Recorded voter r ts id record) (us : List (Turn (Input ω) VoteReply)) :
    Recorded voter r (ts ++ us) id record := by
  obtain ⟨k, hk, hrecord⟩ := h
  refine ⟨k, hk.trans (List.length_append ▸ Nat.le_add_right _ _), ?_⟩
  rwa [Observed.storeAt_append hk]

theorem Recorded.now (h : (run (VotesLoad.step voter) r ts).store.voteRecords.lookup (id, voter) = record)
    (us : List (Turn (Input ω) VoteReply)) : Recorded voter r (ts ++ us) id record :=
  .append ⟨ts.length, le_rfl, by rwa [Observed.storeAt_length]⟩ us

/-- What is recorded on a closed proposal does not change. -/
theorem Recorded.of_closed (h : Recorded voter r ts id record) (hs : WellFormed r.store) {p : Proposal}
    (hp : r.store.proposals.lookup id = some p) (hclosed : p.state ≠ .active) :
    r.store.voteRecords.lookup (id, voter) = record := by
  obtain ⟨k, _, rfl⟩ := h
  obtain ⟨_, hsettled⟩ := run_settled hs hp hclosed (Turn.writes (ts.take k))
  rw [Observed.storeAt_eq, hsettled.records]

theorem VoteLoad.Sound.append (h : x.Sound voter r ts i id) (us : List (Turn (Input ω) VoteReply)) :
    x.Sound voter r (ts ++ us) i id := by
  intro record hx
  rcases h record hx with hrecorded | ⟨hnone, a, ha, hlost⟩
  · exact .inl (hrecorded.append us)
  · exact .inr ⟨hnone, a, List.mem_append_left _ ha, hlost⟩

/-- An answer on the proposal. -/
theorem VoteLoad.Sound.advance (h : x.Sound voter r ts a.index id)
    (ht : TallyCorrespondence (run (VotesLoad.step voter) r ts).store) :
    (x.advance (run (VotesLoad.step voter) r ts).store voter id a).Sound voter r (ts ++ [.look a]) a.index id := by
  obtain ⟨i, query, env, reached⟩ := a
  have hlost (hreached : reached = false) : Lost (ts ++ [.look (⟨i, query, env, reached⟩ : VoteReply)]) i :=
    ⟨_, List.mem_append_right _ (List.mem_singleton_self _), rfl, hreached⟩
  intro record hx
  cases x with
  | settled record' => exact h.append _ record (by cases query <;> exact hx)
  | asking =>
    cases query with
    | voteRecord => cases hx
    | hasVoted =>
      rw [VoteLoad.advance] at hx
      split at hx
      · cases hx
      · rename_i hvoted
        obtain rfl := VoteLoad.settled.inj hx
        cases reached with
        | false => exact .inr ⟨rfl, hlost rfl⟩
        | true => exact .inl (.now (fetchHasVoted_none ht hvoted) _)
  | fetching =>
    cases query with
    | hasVoted => cases hx
    | voteRecord =>
      obtain rfl := VoteLoad.settled.inj hx
      cases reached with
      | false => exact .inr ⟨rfl, hlost rfl⟩
      | true => exact .inl (.now fetchVoteRecord_reached.symm _)

theorem run_store_correspondence (hs : WellFormed r.store) (ht : TallyCorrespondence r.store) :
    TallyCorrespondence (run (VotesLoad.step voter) r ts).store := by
  rw [Observed.run_store]
  exact (run_correspondence_of hs ht _).2

/-- The proposals stay the same, and of each is known what the answers tell. -/
theorem run_loaded (voter : Address) (ts : List (Turn (Input ω) VoteReply)) (hs : WellFormed r.store)
    (ht : TallyCorrespondence r.store) {ids : List U64} (hstart : r.observer = .start ids) :
    (run (VotesLoad.step voter) r ts).observer.map Prod.fst = ids ∧
      ∀ i id (x : VoteLoad), (run (VotesLoad.step voter) r ts).observer[i]? = some (id, x) →
        x.Sound voter r ts i id := by
  induction ts using List.reverseRecOn with
  | nil =>
    rw [run_nil, hstart]
    refine ⟨List.map_map.trans (List.map_id ids), fun i id x hx record hrecord => ?_⟩
    obtain ⟨_, _, heq⟩ := List.mem_map.1 (List.mem_of_getElem? hx)
    rw [hrecord] at heq
    cases heq
  | append_singleton ts t ih =>
    rw [run_concat]
    cases t with
    | write j => exact ⟨ih.1, fun i id x hx => (ih.2 i id x hx).append _⟩
    | look a =>
      refine ⟨(VotesLoad.map_fst_look ..).trans ih.1, fun i id y hy => ?_⟩
      obtain ⟨x, hx, rfl⟩ := VotesLoad.getElem?_look hy
      split
      · rename_i hi
        subst hi
        exact (ih.2 a.index id x hx).advance (run_store_correspondence hs ht)
      · exact (ih.2 i id x hx).append _

end Turns

/-- The votes on some proposals are asked for, after governance has been run. -/
def loadVotes (is : List (Input ω)) (ids : List U64) : Observed Store VotesLoad :=
  ⟨run Governance.step Store.empty is, .start ids⟩

/-- From any moment on, the votes of a user on some proposals are loaded while governance is called in any way.
    Once all requests are settled, each vote in the map is one that governance has had recorded at some moment
    since, and the map is in the order of the proposals. A proposal that is not in it has at some moment since
    been without a vote of the user, or a request on it has failed. So if a proposal is closed, what is in the
    map is the recorded vote, and it is there unless a request on it has failed. -/
theorem loadVotes_exact (is : List (Input ω)) (voter : Address) (ids : List U64)
    (ts : List (Turn (Input ω) VoteReply)) {es : List (U64 × VoteRecord)}
    (hes : (run (VotesLoad.step voter) (loadVotes is ids) ts).observer.votedMap = some es) :
    (es.map Prod.fst).Sublist ids ∧
    (∀ e ∈ es, Recorded voter (loadVotes is ids) ts e.1 (some e.2)) ∧
    (∀ id ∈ ids, (∀ r, (id, r) ∉ es) →
      Recorded voter (loadVotes is ids) ts id none ∨ ∃ i, ids[i]? = some id ∧ Lost ts i) ∧
    ∀ id ∈ ids, ∀ p, (run Governance.step Store.empty is).proposals.lookup id = some p → p.state ≠ .active →
      ∀ r, ((id, r) ∈ es → (run Governance.step Store.empty is).voteRecords.lookup (id, voter) = some r) ∧
        ((run Governance.step Store.empty is).voteRecords.lookup (id, voter) = some r →
          (id, r) ∈ es ∨ ∃ i, ids[i]? = some id ∧ Lost ts i) := by
  have hs := run_wellFormed is
  obtain ⟨hids, hsound⟩ := run_loaded voter (r := loadVotes is ids) ts hs (run_correspondence is) rfl
  have hfound : ∀ e ∈ es, Recorded voter (loadVotes is ids) ts e.1 (some e.2) := by
    intro e he
    obtain ⟨i, hi⟩ := List.mem_iff_getElem?.1 ((VotesLoad.mem_votedMap hes).1 he)
    rcases hsound i e.1 _ hi _ rfl with hrecorded | ⟨hnone, _⟩
    · exact hrecorded
    · cases hnone
  have hmissing : ∀ id ∈ ids, (∀ r, (id, r) ∉ es) →
      Recorded voter (loadVotes is ids) ts id none ∨ ∃ i, ids[i]? = some id ∧ Lost ts i := by
    intro id hid hnone
    obtain ⟨i, hi⟩ := List.mem_iff_getElem?.1 (VotesLoad.settled_none hes (hids.symm ▸ hid) hnone)
    rcases hsound i id _ hi _ rfl with hrecorded | ⟨_, hlost⟩
    · exact .inl hrecorded
    · refine .inr ⟨i, ?_, hlost⟩
      rw [← hids, List.getElem?_map, hi]
      rfl
  refine ⟨hids ▸ VotesLoad.votedMap_sublist hes, hfound, hmissing, fun id hid p hp hclosed r => ?_⟩
  have hsame {record : Option VoteRecord} (h : Recorded voter (loadVotes is ids) ts id record) :
      (run Governance.step Store.empty is).voteRecords.lookup (id, voter) = record := h.of_closed hs hp hclosed
  refine ⟨fun he => hsame (hfound _ he), fun hr => ?_⟩
  by_cases hmem : (id, r) ∈ es
  · exact .inl hmem
  · refine .inr ((hmissing id hid fun r' hr' => ?_).resolve_left fun hnone => ?_)
    · have heq := Option.some_inj.1 (hr.symm.trans (hsame (hfound _ hr')))
      exact hmem (heq ▸ hr')
    · cases hr.symm.trans (hsame hnone)

/-- The vote is changed after governance has answered that there is one. -/
def loading : List (Turn (Input Unit) VoteReply) :=
  [.look ⟨0, .hasVoted, (signed (.lit 2) (.finalise (.lit 0))).env.toHostEnv, true⟩,
    .write (signed (.lit 2) (.changeVote (.account 1) (.lit 0) .no)),
    .look ⟨0, .voteRecord, (signed (.lit 3) (.finalise (.lit 0))).env.toHostEnv, true⟩]

theorem loadVotes_exact_changed :
    let is := opening ++ [signed (.lit 1) (.castVote (.account 1) (.lit 0) .yes)]
    ∃ r, (run (VotesLoad.step (.account 1)) (loadVotes is [.lit 0]) loading).observer.votedMap = some [(.lit 0, r)] ∧
      r.vote = .no ∧ Recorded (.account 1) (loadVotes is [.lit 0]) loading (.lit 0) (some r) := by
  intro is
  have hes : (run (VotesLoad.step (.account 1)) (loadVotes is [.lit 0]) loading).observer.votedMap =
      some [(.lit 0, ⟨.no, .lit 100⟩)] := rfl
  obtain ⟨_, hfound, _⟩ := loadVotes_exact is (.account 1) [.lit 0] loading hes
  exact ⟨_, hes, rfl, hfound _ (List.mem_singleton_self _)⟩

end CosmosVote.Frontend
