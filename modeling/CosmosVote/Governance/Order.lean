import CosmosVote.Soroban.Interleaving
import CosmosVote.Governance.Voters

/-!
# The order of the votes

Many voters vote on a proposal at the same time, each casting, changing and retracting their own
vote. Every call reads the whole proposal, and writes it back.

* `Effect.ballot`: what is stored of a voter is changed by their own calls only, and what these make of it
  does not depend on what others do (`Ballot.vote`);
* `Polling`: the calls write to nothing but the votes on the proposal, its tallies and its count of
  voters;
* `order_independence`: so neither the order in which the voters come, nor what time it is then,
  makes a difference, also for the decision.
-/

namespace CosmosVote.Governance

open Soroban

variable {ω : Type}

/-- The voter of a call that writes votes. -/
def Op.voter : Op → Option Address
  | .castVote voter _ _ => some voter
  | .retractVote voter _ => some voter
  | .changeVote voter _ _ => some voter
  | _ => none

/-- What a call adds to the count of voters. -/
def Op.casts : Op → ℤ
  | .castVote _ _ _ => 1
  | _ => 0

/-- What is stored of a voter on a proposal. -/
@[ext]
structure Ballot where
  flag : Option Bool
  record : Option VoteRecord

/-- What a call makes of the ballot of its voter, if the token weighs a voter by `weight`. -/
def Ballot.vote (weight : Address → Option I128) (b : Ballot) : Op → Ballot
  | .castVote voter _ vote => ⟨some true, (weight voter).map fun w => ⟨vote, w⟩⟩
  | .retractVote _ _ => ⟨some false, none⟩
  | .changeVote _ _ vote => ⟨b.flag, b.record.map fun r => ⟨vote, r.weight⟩⟩
  | _ => b

/-- The ballot of a voter on the proposal `id`. -/
def Store.ballot (s : Store) (id : U64) (voter : Address) : Ballot :=
  ⟨s.hasVoted.lookup (id, voter), s.voteRecords.lookup (id, voter)⟩

/-- How a token weighs the voters of a proposal. -/
def Store.weigh (s : Store) (view : Address → TokenView) (p : Proposal) (voter : Address) : Option I128 :=
  s.votingToken.bind fun token => (view token).balanceAt voter p.snapshotLedger.toU64

/-- From `s`, nothing has been written but the votes on the proposal `id`, its tallies and its count of
    voters, and the log. -/
structure Polling (id : U64) (s : Store) (p : Proposal) (s' : Store) (p' : Proposal) : Prop where
  lookup : s'.proposals.lookup id = some p'
  recount : p.Recount p'
  proposals : ∀ id', id' ≠ id → s'.proposals.lookup id' = s.proposals.lookup id'
  votes : ∀ id', id' ≠ id → ∀ voter, s'.ballot id' voter = s.ballot id' voter
  rest : s' = { s with
    proposals := s'.proposals, hasVoted := s'.hasVoted, voteRecords := s'.voteRecords, events := s'.events }

/-- The call is a vote on the proposal `id` that succeeds, with these answers of the tokens. -/
structure VotesOn (id : U64) (view : Address → TokenView) (s : Store) (i : Input ω) : Prop where
  op : VoteOn id i.op
  succeeds : Succeeds s i
  token : ∀ token, i.env.token token i.outside = view token

/-- Every voter makes the same calls, in the same order. -/
def SameCalls (xs ys : List (Input ω)) : Prop :=
  ∀ voter, own Op.voter (some voter) (xs.map Input.op) = own Op.voter (some voter) (ys.map Input.op)

theorem Proposal.Recount.trans {p q r : Proposal} (h : p.Recount q) (h' : q.Recount r) : p.Recount r := by
  obtain ⟨y, n, a, c, rfl⟩ := h
  obtain ⟨y', n', a', c', rfl⟩ := h'
  exact ⟨y', n', a', c', rfl⟩

/-- Proposals with the same tallies and the same count of voters do not differ. -/
theorem Proposal.Recount.eq {p q q' : Proposal} (h : p.Recount q) (h' : p.Recount q')
    (htally : ∀ vote, q.tally vote = q'.tally vote) (hcount : q.voterCount = q'.voterCount) : q = q' := by
  obtain ⟨y, n, a, c, rfl⟩ := h
  obtain ⟨y', n', a', c', rfl⟩ := h'
  obtain rfl : y = y' := htally .yes
  obtain rfl : n = n' := htally .no
  obtain rfl : a = a' := htally .abstain
  obtain rfl : c = c' := hcount
  rfl

section Calls

variable {s s' : Store} {env : Env ω} {op : Op} {o o' : ω} {id : U64} {p : Proposal}

/-- A vote on a proposal finds it, and writes to nothing but its votes. -/
theorem Effect.polling (h : Effect env s o op s' o') (hop : VoteOn id op) :
    ∃ p p', s.proposals.lookup id = some p ∧ Polling id s p s' p' := by
  have hproposal : op.proposal = some id := by cases hop <;> rfl
  have hframe {id' : U64} (hne : id' ≠ id) := h.change.frame hproposal hne
  have hvotes (id' : U64) (hne : id' ≠ id) (voter : Address) : s'.ballot id' voter = s.ballot id' voter :=
    Ballot.ext ((hframe hne).2 voter).1 ((hframe hne).2 voter).2
  -- With the fields of the store at hand, those that a vote leaves alone are read off.
  obtain ⟨⟩ := s
  cases hop with
  | cast =>
    cases h with
    | castVote _ _ hp =>
      exact ⟨_, _, hp, Finmap.lookup_insert _, ((Proposal.Recount.refl _).setTally _ _).setVoterCount _,
        fun id' hne => (hframe hne).1, hvotes, rfl⟩
  | retract =>
    cases h with
    | retractVote _ _ hp =>
      exact ⟨_, _, hp, Finmap.lookup_insert _, (Proposal.Recount.refl _).setTally _ _,
        fun id' hne => (hframe hne).1, hvotes, rfl⟩
  | change =>
    cases h with
    | changeVote _ _ hp =>
      exact ⟨_, _, hp, Finmap.lookup_insert _, ((Proposal.Recount.refl _).setTally _ _).setTally _ _,
        fun id' hne => (hframe hne).1, hvotes, rfl⟩

/-- A vote changes the ballot of its voter, by what the token says of the voter. -/
theorem Effect.ballot (h : Effect env s o op s' o') (hop : VoteOn id op)
    (hp : s.proposals.lookup id = some p) (voter : Address) :
    s'.ballot id voter = if op.voter = some voter then
      (s.ballot id voter).vote (s.weigh (fun token => env.token token o) p) op else s.ballot id voter := by
  split
  · rename_i hv
    cases hop with
    | cast v =>
      obtain rfl := Option.some_inj.1 hv
      cases h with
      | castVote _ _ hq _ _ _ _ _ _ htoken _ hweight =>
        rw [Option.some_inj.1 (hq.symm.trans hp)] at hweight
        refine Ballot.ext (Finmap.lookup_insert _) ((Finmap.lookup_insert _).trans ?_)
        rw [Ballot.vote, Store.weigh, htoken, Option.bind_some, hweight, Option.map_some]
    | retract v =>
      obtain rfl := Option.some_inj.1 hv
      cases h with
      | retractVote => exact Ballot.ext (Finmap.lookup_insert _) (Finmap.lookup_erase _ _)
    | change v =>
      obtain rfl := Option.some_inj.1 hv
      cases h with
      | changeVote _ _ _ _ _ _ _ hr =>
        refine Ballot.ext rfl ((Finmap.lookup_insert _).trans ?_)
        rw [Ballot.vote, Store.ballot, hr, Option.map_some]
  · rename_i hv
    have hne {v : Address} (hvoter : op.voter = some v) : (id, voter) ≠ (id, v) := by
      rintro ⟨⟩
      exact hv hvoter
    cases hop with
    | cast v =>
      cases h with
      | castVote =>
        exact Ballot.ext (Finmap.lookup_insert_of_ne _ (hne rfl)) (Finmap.lookup_insert_of_ne _ (hne rfl))
    | retract v =>
      cases h with
      | retractVote =>
        exact Ballot.ext (Finmap.lookup_insert_of_ne _ (hne rfl)) (Finmap.lookup_erase_ne (hne rfl))
    | change v =>
      cases h with
      | changeVote => exact Ballot.ext rfl (Finmap.lookup_insert_of_ne _ (hne rfl))

/-- A vote that is cast adds one to the count of voters. -/
theorem Effect.voterCount (h : Effect env s o op s' o') (hop : VoteOn id op) :
    s'.voterCount id = s.voterCount id + op.casts := by
  cases hop with
  | cast =>
    cases h with
    | castVote _ _ hp _ _ _ _ _ _ _ _ _ _ _ hcount =>
      rw [Store.voterCount_insert (s := s) rfl, if_pos rfl, Store.voterCount_of_lookup hp]
      exact hcount.symm
  | retract =>
    cases h with
    | retractVote _ _ hp =>
      rw [Store.voterCount_insert (s := s) rfl, if_pos rfl, Proposal.setTally_voterCount,
        Store.voterCount_of_lookup hp]
      exact (add_zero _).symm
  | change =>
    cases h with
    | changeVote _ _ hp =>
      rw [Store.voterCount_insert (s := s) rfl, if_pos rfl, Proposal.setTally_voterCount,
        Proposal.setTally_voterCount, Store.voterCount_of_lookup hp]
      exact (add_zero _).symm

end Calls

/-! ## Runs -/

section Runs

variable {s s₀ : Store} {id : U64} {p p₀ : Proposal} {view : Address → TokenView} {is : List (Input ω)}

theorem Polling.refl (hp : s.proposals.lookup id = some p) : Polling id s p s p :=
  ⟨hp, .refl p, fun _ _ => rfl, fun _ _ _ => rfl, rfl⟩

theorem Polling.trans {t u : Store} {q r : Proposal} (h : Polling id s p t q) (h' : Polling id t q u r) :
    Polling id s p u r where
  lookup := h'.lookup
  recount := h.recount.trans h'.recount
  proposals id' hne := (h'.proposals id' hne).trans (h.proposals id' hne)
  votes id' hne voter := (h'.votes id' hne voter).trans (h.votes id' hne voter)
  rest := by
    rw [h'.rest, h.rest]

/-- The token weighs the voters in the same way throughout. -/
theorem Polling.weigh_eq (h : Polling id s₀ p₀ s p) : s.weigh view p = s₀.weigh view p₀ := by
  funext voter
  obtain ⟨y, n, a, c, rfl⟩ := h.recount
  rw [Store.weigh, h.rest, Store.weigh]

/-- What a vote does while a proposal is voted on. -/
theorem VotesOn.step {i : Input ω} (h : VotesOn id view s i) (hs : Polling id s₀ p₀ s p) :
    (∃ p', Polling id s₀ p₀ (step s i) p') ∧ (step s i).voterCount id = s.voterCount id + i.op.casts ∧
      ∀ voter, (step s i).ballot id voter = if i.op.voter = some voter then
        (s.ballot id voter).vote (s₀.weigh view p₀) i.op else s.ballot id voter := by
  obtain ⟨o, he⟩ := h.succeeds.effect
  obtain ⟨q, p', hq, hpolling⟩ := he.polling h.op
  obtain rfl := Option.some_inj.1 (hs.lookup.symm.trans hq)
  refine ⟨⟨p', hs.trans hpolling⟩, he.voterCount h.op, fun voter => ?_⟩
  rw [he.ballot h.op hs.lookup, funext h.token, hs.weigh_eq]

theorem run_polling (hp : s₀.proposals.lookup id = some p₀) (h : Along step (VotesOn id view) s₀ is) :
    ∃ p, Polling id s₀ p₀ (run step s₀ is) p :=
  run_invariant_of (I := fun t => ∃ p, Polling id s₀ p₀ t p) (fun _ _ hi ⟨_, ht⟩ => (hi.step ht).1) h
    ⟨p₀, .refl hp⟩

/-- The ballot of a voter is what their own calls have made of it. -/
theorem run_ballot (hp : s₀.proposals.lookup id = some p₀) (h : Along step (VotesOn id view) s₀ is)
    (voter : Address) : (run step s₀ is).ballot id voter =
      (own Op.voter (some voter) (is.map Input.op)).foldl (Ballot.vote (s₀.weigh view p₀))
        (s₀.ballot id voter) := by
  refine run_view Input.op (g := fun t : Store => t.ballot id voter)
    (I := fun t => ∃ p, Polling id s₀ p₀ t p) ?_ h ⟨p₀, .refl hp⟩
  rintro t i hi ⟨p, ht⟩
  obtain ⟨hpolling, _, hballot⟩ := hi.step ht
  exact ⟨hpolling, hballot voter⟩

theorem run_voterCount (hp : s₀.proposals.lookup id = some p₀) (h : Along step (VotesOn id view) s₀ is) :
    (run step s₀ is).voterCount id = s₀.voterCount id + ((is.map Input.op).map Op.casts).sum := by
  refine run_added Input.op (g := fun t : Store => t.voterCount id)
    (I := fun t => ∃ p, Polling id s₀ p₀ t p) ?_ h ⟨p₀, .refl hp⟩
  rintro t i hi ⟨p, ht⟩
  obtain ⟨hpolling, hcount, _⟩ := hi.step ht
  exact ⟨hpolling, hcount⟩

theorem eq_nil_of_votesOn (h : Along step (VotesOn id view) s₀ is) (hnone : s₀.proposals.lookup id = none) :
    is = [] := by
  cases is with
  | nil => rfl
  | cons i is =>
    obtain ⟨o, he⟩ := h.head.succeeds.effect
    obtain ⟨p, _, hp, _⟩ := he.polling h.head.op
    cases hnone.symm.trans hp

/-- Every one of the calls is by a voter. -/
theorem own_none (h : Along step (VotesOn id view) s₀ is) : own Op.voter none (is.map Input.op) = [] := by
  rw [own, List.filter_eq_nil_iff]
  intro op hop
  obtain ⟨i, hi, rfl⟩ := List.mem_map.1 hop
  obtain ⟨xs, ys, his⟩ := List.append_of_mem hi
  have hvote := (h xs i ys his).op
  generalize i.op = op at hvote
  cases hvote <;> exact Bool.false_ne_true

variable {xs ys : List (Input ω)}

/-- In two runs in which every voter does the same, every voter ends with the same ballot. -/
theorem run_same_votes (hxs : Along step (VotesOn id view) s₀ xs) (hys : Along step (VotesOn id view) s₀ ys)
    (hsame : SameCalls xs ys) (hp : s₀.proposals.lookup id = some p₀) :
    (run step s₀ xs).hasVoted = (run step s₀ ys).hasVoted ∧
      (run step s₀ xs).voteRecords = (run step s₀ ys).voteRecords := by
  obtain ⟨p, hpolling⟩ := run_polling hp hxs
  obtain ⟨q, hpolling'⟩ := run_polling hp hys
  have hballot (id' : U64) (voter : Address) :
      (run step s₀ xs).ballot id' voter = (run step s₀ ys).ballot id' voter := by
    by_cases hid : id' = id
    · rw [hid, run_ballot hp hxs, run_ballot hp hys, hsame]
    · rw [hpolling.votes id' hid, hpolling'.votes id' hid]
  exact ⟨Finmap.ext_lookup fun k => congrArg Ballot.flag (hballot k.1 k.2),
    Finmap.ext_lookup fun k => congrArg Ballot.record (hballot k.1 k.2)⟩

/-- The same voters are counted, in whatever order they come. -/
theorem run_same_voterCount (hxs : Along step (VotesOn id view) s₀ xs)
    (hys : Along step (VotesOn id view) s₀ ys)
    (hsame : SameCalls xs ys) (hp : s₀.proposals.lookup id = some p₀) :
    (run step s₀ xs).voterCount id = (run step s₀ ys).voterCount id := by
  have hown (v : Option Address) : own Op.voter v (xs.map Input.op) = own Op.voter v (ys.map Input.op) := by
    cases v with
    | none => rw [own_none hxs, own_none hys]
    | some voter => exact hsame voter
  have hperm := perm_of_own hown
  rw [run_voterCount hp hxs, run_voterCount hp hys, (hperm.map Op.casts).sum_eq]

/-- So the two runs lead to the same store, up to the log. -/
theorem run_same (hs : WellFormed s₀) (ht : TallyCorrespondence s₀)
    (hxs : Along step (VotesOn id view) s₀ xs) (hys : Along step (VotesOn id view) s₀ ys)
    (hsame : SameCalls xs ys) (hp : s₀.proposals.lookup id = some p₀) :
    run step s₀ ys = { run step s₀ xs with events := (run step s₀ ys).events } := by
  obtain ⟨p, hpolling⟩ := run_polling hp hxs
  obtain ⟨q, hpolling'⟩ := run_polling hp hys
  obtain ⟨hvoted, hrecords⟩ := run_same_votes hxs hys hsame hp
  -- The tallies are the sums of the records.
  have htally (vote : Vote) : p.tally vote = q.tally vote := by
    rw [← IntRange.val_inj, (run_correspondence_of hs ht xs).2.tally_eq id p hpolling.lookup,
      (run_correspondence_of hs ht ys).2.tally_eq id q hpolling'.lookup, Store.recorded, hrecords,
      Store.recorded]
  have hcount : p.voterCount = q.voterCount := by
    rw [← IntRange.val_inj, ← Store.voterCount_of_lookup hpolling.lookup,
      ← Store.voterCount_of_lookup hpolling'.lookup, run_same_voterCount hxs hys hsame hp]
  have hproposals : (run step s₀ xs).proposals = (run step s₀ ys).proposals := by
    refine Finmap.ext_lookup fun id' => ?_
    by_cases hid : id' = id
    · rw [hid, hpolling.lookup, hpolling'.lookup, hpolling.recount.eq hpolling'.recount htally hcount]
    · rw [hpolling.proposals id' hid, hpolling'.proposals id' hid]
  rw [hpolling'.rest, hpolling.rest, hproposals, hvoted, hrecords]

end Runs

/-! ## The decision -/

section Decision

variable {s s' t' : Store} {env env' : Env ω} {o o' o₁ o₁' : ω} {id : U64} {log : List Event}

/-- What `finalise` decides does not depend on the log, nor on when it is called. -/
theorem Effect.same_outcome (h : Effect env s o (.finalise id) s' o₁)
    (h' : Effect env' { s with events := log } o' (.finalise id) t' o₁') : s'.proposals = t'.proposals := by
  cases h with
  | finalise _ hp _ _ htotal =>
    cases h' with
    | finalise _ hp' _ _ htotal' =>
      obtain rfl := Option.some_inj.1 (hp.symm.trans hp')
      obtain rfl := Option.some_inj.1 (htotal.symm.trans htotal')
      rfl

/-- Nor does whether it decides depend on the log. -/
theorem Succeeds.of_log {i : Input ω} (h : Succeeds s i) (hop : i.op = .finalise id) (log : List Event) :
    Succeeds { s with events := log } i := by
  obtain ⟨o, he⟩ := h.effect_of hop
  generalize step s i = s' at he
  cases he with
  | finalise hready hp hstate hend htotal =>
    have he : Effect i.env { s with events := log } i.outside (.finalise id) _ i.outside :=
      .finalise hready hp hstate hend htotal
    rw [Succeeds, hop, exec_of_effect he]

theorem succeeds_log_iff {i : Input ω} (hop : i.op = .finalise id) (log : List Event) :
    Succeeds { s with events := log } i ↔ Succeeds s i :=
  ⟨fun h => h.of_log hop s.events, fun h => h.of_log hop log⟩

end Decision

/-- From every reachable state, two runs of votes on a proposal that succeed, while the token answers the
    same, and in which every voter makes the same calls in the same order, lead to the same proposals, with
    their tallies and their counts of voters, and to the same flags and records; a `finalise` after the one
    succeeds exactly if it does after the other, and whenever it does, it has the same outcome. -/
theorem order_independence (is : List (Input ω)) {id : U64} {view : Address → TokenView}
    {xs ys : List (Input ω)} (hxs : Along step (VotesOn id view) (run step Store.empty is) xs)
    (hys : Along step (VotesOn id view) (run step Store.empty is) ys)
    (hsame : SameCalls xs ys) :
    (run step Store.empty (is ++ xs)).proposals = (run step Store.empty (is ++ ys)).proposals ∧
    (run step Store.empty (is ++ xs)).hasVoted = (run step Store.empty (is ++ ys)).hasVoted ∧
    (run step Store.empty (is ++ xs)).voteRecords = (run step Store.empty (is ++ ys)).voteRecords ∧
    (∀ i : Input ω, i.op = .finalise id →
      (Succeeds (run step Store.empty (is ++ xs)) i ↔ Succeeds (run step Store.empty (is ++ ys)) i)) ∧
    ∀ i j : Input ω, i.op = .finalise id → j.op = .finalise id →
      Succeeds (run step Store.empty (is ++ xs)) i → Succeeds (run step Store.empty (is ++ ys)) j →
        (step (run step Store.empty (is ++ xs)) i).proposals =
          (step (run step Store.empty (is ++ ys)) j).proposals := by
  obtain ⟨log, hlog⟩ : ∃ log, run step Store.empty (is ++ ys) =
      { run step Store.empty (is ++ xs) with events := log } := by
    rw [run_append, run_append]
    cases hp : (run step Store.empty is).proposals.lookup id with
    | some p => exact ⟨_, run_same (run_wellFormed is) (run_correspondence is) hxs hys hsame hp⟩
    | none =>
      -- Nobody votes on a proposal that is not there.
      rw [eq_nil_of_votesOn hxs hp, eq_nil_of_votesOn hys hp]
      exact ⟨_, rfl⟩
  rw [hlog]
  refine ⟨rfl, rfl, rfl, fun i hop => (succeeds_log_iff hop log).symm, fun i j hop hop' hi hj => ?_⟩
  obtain ⟨o, he⟩ := hi.effect_of hop
  obtain ⟨o', he'⟩ := hj.effect_of hop'
  exact he.same_outcome he'

/-- The account `2` abstains, and after that the account `1` votes yes, and then no. -/
def abstainFirst : List (Input Unit) :=
  [signed (.lit 1) (.castVote (.account 2) (.lit 0) .abstain),
    signed (.lit 2) (.castVote (.account 1) (.lit 0) .yes),
    signed (.lit 3) (.changeVote (.account 1) (.lit 0) .no)]

/-- The account `2` abstains after that. -/
def abstainLast : List (Input Unit) :=
  [signed (.lit 1) (.castVote (.account 1) (.lit 0) .yes),
    signed (.lit 2) (.changeVote (.account 1) (.lit 0) .no),
    signed (.lit 3) (.castVote (.account 2) (.lit 0) .abstain)]

theorem order_independence_two :
    (run step Store.empty (opening ++ abstainFirst)).proposals =
      (run step Store.empty (opening ++ abstainLast)).proposals := by
  let view : TokenView :=
    ⟨some (.lit 100), fun _ => some (.lit 100), fun _ _ => some (.lit 100), fun _ => some none⟩
  have hxs : Along step (VotesOn (.lit 0) fun _ => view) (run step Store.empty opening) abstainFirst :=
    .cons ⟨.cast .., by decide, fun _ => rfl⟩ (.cons ⟨.cast .., by decide, fun _ => rfl⟩
      (.cons ⟨.change .., by decide, fun _ => rfl⟩ along_nil))
  have hys : Along step (VotesOn (.lit 0) fun _ => view) (run step Store.empty opening) abstainLast :=
    .cons ⟨.cast .., by decide, fun _ => rfl⟩ (.cons ⟨.change .., by decide, fun _ => rfl⟩
      (.cons ⟨.cast .., by decide, fun _ => rfl⟩ along_nil))
  refine (order_independence opening hxs hys fun voter => ?_).1
  by_cases hfirst : some (Address.account 1) = some voter
  · rw [← hfirst]
    rfl
  · simp only [abstainFirst, abstainLast, List.map_cons, List.map_nil, signed, own_cons, Op.voter, hfirst,
      if_false]
    rfl

end CosmosVote.Governance
