import CosmosVote.Governance.Strategy

/-!
# Holding a vote

When a body of voters comes to vote on a proposal, one after the other: all their calls succeed exactly if each
of them may vote at first, none comes twice, and there is room for what they add to the tallies
(`along_cast_iff`). Then the proposal is decided by these sums (`election_held`), and can be executed.
-/

namespace CosmosVote.Governance

open Soroban

variable {ω : Type}

/-- A voter who comes to vote, what there is then, and the weight that the token answers. -/
structure Elector (ω : Type) where
  env : Env ω
  outside : ω
  voter : Address
  vote : Vote
  weight : I128

def Elector.input (id : U64) (e : Elector ω) : Input ω := ⟨e.env, e.outside, .castVote e.voter id e.vote⟩

/-- What the tokens answer then. -/
def Elector.view (e : Elector ω) (token : Address) : TokenView := e.env.token token e.outside

/-- The voter may vote. -/
structure Store.Admits (s : Store) (id : U64) (p : Proposal) (e : Elector ω) : Prop where
  signed : e.env.auth e.voter = true
  started : p.startTime.val ≤ e.env.timestamp.val
  open_ : e.env.timestamp.val ≤ p.endTime.val
  flag : s.FlagReadable e.env.ttl id e.voter
  fresh : s.voted id e.voter = false
  allowed : s.VoterAllowed e.voter p
  direct : ∃ token, s.votingToken = some token ∧ (e.view token).getDelegation e.voter = some none
  pos : 0 < e.weight.val

/-- What the voters add to an answer. -/
def added (vote : Vote) (es : List (Elector ω)) : ℤ :=
  (es.map fun e => if vote = e.vote then e.weight.val else 0).sum

/-- There is room for their votes. -/
structure Proposal.RoomFor (p : Proposal) (es : List (Elector ω)) : Prop where
  tally : ∀ vote, ∃ total : I128, (p.tally vote).val + added vote es = total.val
  count : ∃ count : U32, p.voterCount.val + es.length = count.val

/-- The vote of `e` is cast, and nothing else is written. -/
structure Admitted (id : U64) (s : Store) (p : Proposal) (e : Elector ω) (s' : Store) (p' : Proposal) : Prop where
  polling : Polling id s p s' p'
  tally : ∀ vote, (p'.tally vote).val = (p.tally vote).val + if vote = e.vote then e.weight.val else 0
  count : p'.voterCount.val = p.voterCount.val + 1
  flag : s'.hasVoted.lookup (id, e.voter) = some true
  others : ∀ voter, voter ≠ e.voter → s'.hasVoted.lookup (id, voter) = s.hasVoted.lookup (id, voter)

@[simp]
theorem added_nil (vote : Vote) : added vote ([] : List (Elector ω)) = 0 := rfl

@[simp]
theorem added_cons (vote : Vote) (e : Elector ω) (es : List (Elector ω)) :
    added vote (e :: es) = (if vote = e.vote then e.weight.val else 0) + added vote es := List.sum_cons

section

variable {s s' : Store} {id : U64} {p p' : Proposal} {e e' : Elector ω} {es : List (Elector ω)}

theorem added_nonneg (h : ∀ e ∈ es, 0 < e.weight.val) (vote : Vote) : 0 ≤ added vote es := by
  refine List.sum_nonneg fun w hw => ?_
  obtain ⟨e, he, rfl⟩ := List.mem_map.1 hw
  split
  · exact (h e he).le
  · exact le_rfl

/-! ## One voter -/

/-- A vote is cast exactly if the voter may vote and there is room for the vote. -/
theorem succeeds_cast_iff (hready : s.Ready) (hp : s.proposals.lookup id = some p) (hstate : p.state = .active)
    (hweight : s.weigh e.view p e.voter = some e.weight) :
    Succeeds s (e.input id) ↔ s.Admits id p e ∧ p.RoomFor [e] := by
  constructor
  · intro h
    obtain ⟨o, he⟩ := h.effect_of rfl
    generalize step s (e.input id) = s' at he
    cases he with
    | castVote hauth _ hq _ hstart hend hflag hvoted hallowed htoken hdelegate hbalance hpos htotal hcount =>
      obtain rfl := Option.some_inj.1 (hq.symm.trans hp)
      rw [Store.weigh, htoken, Option.bind_some] at hweight
      obtain rfl := Option.some_inj.1 (hbalance.symm.trans hweight)
      refine ⟨⟨hauth, hstart, hend, hflag, hvoted, hallowed, ⟨_, htoken, hdelegate⟩, hpos⟩, fun vote => ?_,
        ⟨_, hcount⟩⟩
      rw [added_cons, added_nil, add_zero]
      split
      · rename_i hvote
        exact ⟨_, hvote ▸ htotal⟩
      · exact ⟨_, add_zero _⟩
  · rintro ⟨h, htally, count, hcount⟩
    obtain ⟨token, htoken, hdelegate⟩ := h.direct
    obtain ⟨total, htotal⟩ := htally e.vote
    rw [added_cons, if_pos rfl, added_nil, add_zero] at htotal
    rw [Store.weigh, htoken, Option.bind_some] at hweight
    have he : Effect e.env s e.outside (.castVote e.voter id e.vote) _ e.outside :=
      .castVote h.signed hready hp hstate h.started h.open_ h.flag h.fresh h.allowed htoken hdelegate hweight h.pos
        htotal hcount
    exact congrArg Prod.fst (exec_of_effect he)

/-- What a vote that is cast writes. -/
theorem admitted_of_succeeds (h : Succeeds s (e.input id)) (hp : s.proposals.lookup id = some p)
    (hweight : s.weigh e.view p e.voter = some e.weight) : ∃ p', Admitted id s p e (step s (e.input id)) p' := by
  obtain ⟨o, he⟩ := h.effect_of rfl
  generalize step s (e.input id) = s' at he
  obtain ⟨q, p', hq, hpolling⟩ := he.polling (.cast _ _)
  obtain rfl := Option.some_inj.1 (hq.symm.trans hp)
  cases he with
  | castVote _ _ hq _ _ _ _ _ _ htoken _ hbalance _ htotal hcount =>
    obtain rfl := Option.some_inj.1 (hq.symm.trans hp)
    rw [Store.weigh, htoken, Option.bind_some] at hweight
    obtain rfl := Option.some_inj.1 (hbalance.symm.trans hweight)
    obtain rfl := Option.some_inj.1 ((Finmap.lookup_insert _).symm.trans hpolling.lookup)
    refine ⟨_, hpolling, fun vote => ?_, hcount.symm, Finmap.lookup_insert _, fun voter hne => ?_⟩
    · rw [Proposal.tally_setVoterCount, Proposal.tally_setTally]
      split
      · rename_i hvote
        rw [hvote, htotal]
      · exact (add_zero _).symm
    · exact Finmap.lookup_insert_of_ne _ fun h => hne (Prod.ext_iff.1 h).2

/-! ## The others -/

theorem Admitted.ready (h : Admitted id s p e s' p') (hready : s.Ready) : s'.Ready := by
  rw [h.polling.rest]
  exact hready

theorem Admitted.state (h : Admitted id s p e s' p') : p'.state = p.state := by
  obtain ⟨_, _, _, _, rfl⟩ := h.polling.recount
  rfl

/-- Somebody else may vote after that exactly if they may before. -/
theorem Admitted.admits_iff (h : Admitted id s p e s' p') :
    s'.Admits id p' e' ↔ s.Admits id p e' ∧ e'.voter ≠ e.voter := by
  have htoken : s'.votingToken = s.votingToken := by rw [h.polling.rest]
  have hrestrict : s'.restrictAdminVote = s.restrictAdminVote := by rw [h.polling.rest]
  have hadmin : s'.admin = s.admin := by rw [h.polling.rest]
  have hallowed : s'.VoterAllowed e'.voter p' ↔ s.VoterAllowed e'.voter p := by
    obtain ⟨_, _, _, _, rfl⟩ := h.polling.recount
    rw [Store.VoterAllowed, hrestrict, hadmin, Store.VoterAllowed]
  have hflags (hne : e'.voter ≠ e.voter) : (s'.FlagReadable e'.env.ttl id e'.voter ↔
      s.FlagReadable e'.env.ttl id e'.voter) ∧ s'.voted id e'.voter = s.voted id e'.voter := by
    rw [Store.FlagReadable, Store.voted, h.others _ hne]
    exact ⟨.rfl, rfl⟩
  have hterms : p'.startTime = p.startTime ∧ p'.endTime = p.endTime := by
    obtain ⟨_, _, _, _, rfl⟩ := h.polling.recount
    exact ⟨rfl, rfl⟩
  constructor
  · intro h'
    have hne : e'.voter ≠ e.voter := by
      intro heq
      have hfresh := h'.fresh
      rw [Store.voted, heq, h.flag] at hfresh
      cases hfresh
    refine ⟨⟨h'.signed, hterms.1 ▸ h'.started, hterms.2 ▸ h'.open_, (hflags hne).1.1 h'.flag,
      (hflags hne).2 ▸ h'.fresh, hallowed.1 h'.allowed, htoken ▸ h'.direct, h'.pos⟩, hne⟩
  · rintro ⟨h', hne⟩
    exact ⟨h'.signed, hterms.1 ▸ h'.started, hterms.2 ▸ h'.open_, (hflags hne).1.2 h'.flag,
      (hflags hne).2 ▸ h'.fresh, hallowed.2 h'.allowed, htoken ▸ h'.direct, h'.pos⟩

/-- What is cast takes up the room for it. -/
theorem Admitted.roomFor_iff (h : Admitted id s p e s' p') : p'.RoomFor es ↔ p.RoomFor (e :: es) := by
  have htally (vote : Vote) : (p'.tally vote).val + added vote es = (p.tally vote).val + added vote (e :: es) := by
    rw [h.tally, added_cons, add_assoc]
  have hcount : p'.voterCount.val + es.length = p.voterCount.val + (e :: es).length := by
    rw [h.count, List.length_cons]
    omega
  constructor
  · rintro ⟨ht, hc⟩
    exact ⟨fun vote => htally vote ▸ ht vote, hcount ▸ hc⟩
  · rintro ⟨ht, hc⟩
    exact ⟨fun vote => htally vote ▸ ht vote, hcount ▸ hc⟩

/-! ## All of them -/

theorem Proposal.roomFor_nil (p : Proposal) : p.RoomFor ([] : List (Elector ω)) :=
  ⟨fun vote => ⟨p.tally vote, add_zero _⟩, p.voterCount, add_zero _⟩

/-- If there is room for all, there is room for the first. -/
theorem Proposal.RoomFor.head (h : p.RoomFor (e :: es)) (hpos : ∀ e' ∈ e :: es, 0 < e'.weight.val) :
    p.RoomFor [e] := by
  obtain ⟨he, hes⟩ := List.forall_mem_cons.1 hpos
  refine ⟨fun vote => ?_, ?_⟩
  · obtain ⟨total, htotal⟩ := h.tally vote
    have hlo := (p.tally vote).lo_le
    have hle := total.le_hi
    have hrest := added_nonneg hes vote
    rw [added_cons] at htotal
    rw [added_cons, added_nil, add_zero]
    have hterm : 0 ≤ if vote = e.vote then e.weight.val else 0 := by split <;> omega
    exact ⟨⟨_, by omega, by omega⟩, rfl⟩
  · obtain ⟨count, hcount⟩ := h.count
    have hlo := p.voterCount.lo_le
    have hle := count.le_hi
    rw [List.length_cons] at hcount
    rw [List.length_singleton]
    exact ⟨⟨_, by omega, by omega⟩, rfl⟩

/-- All votes are cast, one after the other, exactly if each voter may vote at first, none comes twice, and there
    is room for all. -/
theorem along_cast_iff (hready : s.Ready) (hp : s.proposals.lookup id = some p) (hstate : p.state = .active)
    (hweights : ∀ e ∈ es, s.weigh e.view p e.voter = some e.weight) :
    Along step Succeeds s (es.map (Elector.input id)) ↔
      (es.map Elector.voter).Nodup ∧ (∀ e ∈ es, s.Admits id p e) ∧ p.RoomFor es := by
  induction es generalizing s p with
  | nil => exact iff_of_true along_nil ⟨List.nodup_nil, List.forall_mem_nil _, p.roomFor_nil⟩
  | cons e es ih =>
    obtain ⟨hweight, hrest⟩ := List.forall_mem_cons.1 hweights
    have hfirst := succeeds_cast_iff hready hp hstate hweight
    have hnext (hsucceeds : Succeeds s (e.input id)) :
        Along step Succeeds (step s (e.input id)) (es.map (Elector.input id)) ↔
          (es.map Elector.voter).Nodup ∧ (∀ e' ∈ es, s.Admits id p e' ∧ e'.voter ≠ e.voter) ∧
            p.RoomFor (e :: es) := by
      obtain ⟨p', h⟩ := admitted_of_succeeds hsucceeds hp hweight
      rw [ih (h.ready hready) h.polling.lookup (h.state.trans hstate) fun e' he' => by
        rw [h.polling.weigh_eq, hrest e' he'], h.roomFor_iff]
      simp only [h.admits_iff]
    rw [List.map_cons, List.map_cons, List.nodup_cons, List.forall_mem_cons, List.mem_map]
    constructor
    · intro h
      obtain ⟨hnodup, hall, hroom⟩ := (hnext h.head).1 h.tail
      refine ⟨⟨?_, hnodup⟩, ⟨(hfirst.1 h.head).1, fun e' he' => (hall e' he').1⟩, hroom⟩
      rintro ⟨e', he', heq⟩
      exact (hall e' he').2 heq
    · rintro ⟨⟨hnew, hnodup⟩, ⟨hadmits, hall⟩, hroom⟩
      have hpos : ∀ e' ∈ e :: es, 0 < e'.weight.val :=
        List.forall_mem_cons.2 ⟨hadmits.pos, fun e' he' => (hall e' he').pos⟩
      have hsucceeds := hfirst.2 ⟨hadmits, hroom.head hpos⟩
      exact .cons hsucceeds ((hnext hsucceeds).2
        ⟨hnodup, fun e' he' => ⟨hall e' he', fun heq => hnew ⟨e', he', heq⟩⟩, hroom⟩)

/-- What all votes come to. -/
theorem run_cast (hp : s.proposals.lookup id = some p) (hready : s.Ready)
    (hweights : ∀ e ∈ es, s.weigh e.view p e.voter = some e.weight)
    (h : Along step Succeeds s (es.map (Elector.input id))) :
    (run step s (es.map (Elector.input id))).Ready ∧
      ∃ p', Polling id s p (run step s (es.map (Elector.input id))) p' ∧
        ∀ vote, (p'.tally vote).val = (p.tally vote).val + added vote es := by
  induction es generalizing s p with
  | nil => exact ⟨hready, p, .refl hp, fun vote => (add_zero _).symm⟩
  | cons e es ih =>
    obtain ⟨hweight, hrest⟩ := List.forall_mem_cons.1 hweights
    obtain ⟨q, hq⟩ := admitted_of_succeeds h.head hp hweight
    obtain ⟨hready', p', hpolling, htally⟩ := ih hq.polling.lookup (hq.ready hready)
      (fun e' he' => by rw [hq.polling.weigh_eq, hrest e' he']) h.tail
    refine ⟨hready', p', hq.polling.trans hpolling, fun vote => ?_⟩
    rw [htally, hq.tally, added_cons, add_assoc]

end

/-! ## The decision -/

/-- An answer's tally, with these votes. -/
def Proposal.tallyWith (p : Proposal) (es : List (Elector ω)) (vote : Vote) : ℤ := (p.tally vote).val + added vote es

def Proposal.turnoutWith (p : Proposal) (es : List (Elector ω)) : ℤ :=
  p.tallyWith es .yes + p.tallyWith es .no + p.tallyWith es .abstain

/-- The proposal is accepted, with these votes. -/
def Proposal.AcceptedWith (p : Proposal) (es : List (Elector ω)) : Prop :=
  p.quorum.val ≤ p.turnoutWith es ∧ p.tallyWith es .no < p.tallyWith es .yes

/-- The disbursement that is attached, if any, can be made. -/
def Store.CanPay (s : Store) (p : Proposal) (env : Env ω) (o : ω) : Prop :=
  (p.treasuryAction = [] ∨ s.treasuryContract = none) ∨
    ∃ action treasury o', p.treasuryAction.head? = some action ∧ s.treasuryContract = some treasury ∧
      env.disburse treasury action o = some o'

section

variable {s s' : Store} {id : U64} {p p' : Proposal} {i j : Input ω} {admin : Address} {env : Env ω} {o o' : ω}

/-- What is finalised keeps what is attached to it, and governance its admin and its treasury. -/
theorem Effect.finalised_keeps (h : Effect env s o (.finalise id) s' o') (hs : WellFormed s)
    (hp : s.proposals.lookup id = some p) (hp' : s'.proposals.lookup id = some p') :
    p'.treasuryAction = p.treasuryAction ∧ s'.treasuryContract = s.treasuryContract ∧ s'.admin = s.admin := by
  obtain ⟨q, hq, hfinal⟩ := h.finalised_proposal hs hp
  obtain rfl := Option.some_inj.1 (hq.symm.trans hp')
  have hrest : s'.treasuryContract = s.treasuryContract ∧ s'.admin = s.admin := by
    cases h with
    | finalise => exact ⟨rfl, rfl⟩
  exact ⟨by rw [hfinal.rest], hrest⟩

/-- The admin can execute what has passed. -/
theorem FinalisedAs.execute (h : FinalisedAs id .passed s i) (hs : WellFormed s)
    (hp : s.proposals.lookup id = some p) (hop : j.op = .execute admin id) (hauth : j.env.auth admin = true)
    (hadmin : s.admin = some admin) (hpay : s.CanPay p j.env j.outside) :
    Succeeds (step s i) j ∧ ∃ p', (step (step s i) j).proposals.lookup id = some p' ∧ p'.state = .executed := by
  obtain ⟨hfinalise, hi, q, hq, hstate⟩ := h
  obtain ⟨o, he⟩ := hi.effect_of hfinalise
  obtain ⟨haction, htreasury, hadmin'⟩ := he.finalised_keeps hs hp hq
  rw [← hadmin'] at hadmin
  rw [Store.CanPay, ← haction, ← htreasury] at hpay
  obtain ⟨s', o', hexecute, p', hp', hexecuted⟩ : ∃ s' o', Effect j.env (step s i) j.outside j.op s' o' ∧
      ∃ p', s'.proposals.lookup id = some p' ∧ p'.state = .executed := by
    rw [hop]
    rcases hpay with hnone | ⟨action, treasury, o', hhead, hcontract, hdisburse⟩
    · exact ⟨_, _, .execute hauth hadmin hq hstate hnone, _, Finmap.lookup_insert _, rfl⟩
    · exact ⟨_, _, .executeDisburse hauth hadmin hq hstate hhead hcontract hdisburse, _, Finmap.lookup_insert _, rfl⟩
  exact ⟨congrArg Prod.fst (exec_of_effect hexecute), p', by rwa [step_of_effect hexecute], hexecuted⟩

end

/-- In every reachable state in which governance is ready and a proposal is active, let any number of voters come
    to vote on it, one after the other. All their calls succeed exactly if each of them may vote now, at the
    time at which they come, none comes twice, and the sums fit. Then, once the voting period is over, `finalise`
    succeeds exactly if the turnout fits, and decides by these sums; and what has passed can be executed by the
    admin, if the disbursement that is attached to it, if any, can be made. -/
theorem election_held (is : List (Input ω)) {id : U64} {p : Proposal} {es : List (Elector ω)}
    (hready : (run step Store.empty is).Ready) (hp : (run step Store.empty is).proposals.lookup id = some p)
    (hstate : p.state = .active)
    (hweights : ∀ e ∈ es, (run step Store.empty is).weigh e.view p e.voter = some e.weight) :
    (Along step Succeeds (run step Store.empty is) (es.map (Elector.input id)) ↔
      (es.map Elector.voter).Nodup ∧ (∀ e ∈ es, (run step Store.empty is).Admits id p e) ∧ p.RoomFor es) ∧
    (Along step Succeeds (run step Store.empty is) (es.map (Elector.input id)) →
      ∀ i : Input ω, i.op = .finalise id → p.endTime.val < i.env.timestamp.val →
        let t := run step Store.empty (is ++ es.map (Elector.input id))
        (Succeeds t i ↔ ∃ total : I128, p.turnoutWith es = total.val) ∧
        (Succeeds t i → (FinalisedAs id .passed t i ↔ p.AcceptedWith es) ∧
          (FinalisedAs id .rejected t i ↔ ¬p.AcceptedWith es)) ∧
        (FinalisedAs id .passed t i → ∀ (j : Input ω) admin, j.op = .execute admin id → j.env.auth admin = true →
          (run step Store.empty is).admin = some admin →
          (run step Store.empty is).CanPay p j.env j.outside → Succeeds (step t i) j ∧
            ∃ p', (step (step t i) j).proposals.lookup id = some p' ∧ p'.state = .executed)) := by
  have hs := run_wellFormed is
  have ht := run_correspondence is
  simp only [run_append]
  generalize run step Store.empty is = s at *
  refine ⟨along_cast_iff hready hp hstate hweights, fun h i hop hlate => ?_⟩
  obtain ⟨hready', p', hpolling, htally⟩ := run_cast hp hready hweights h
  obtain ⟨hs', ht'⟩ := run_correspondence_of hs ht (es.map (Elector.input id))
  have hadmin' : (run step s (es.map (Elector.input id))).admin = s.admin := by rw [hpolling.rest]
  have htreasury : (run step s (es.map (Elector.input id))).treasuryContract = s.treasuryContract := by
    rw [hpolling.rest]
  have hturnout : p'.votesYes.val + p'.votesNo.val + p'.votesAbstain.val = p.turnoutWith es := by
    rw [Proposal.turnoutWith, Proposal.tallyWith, Proposal.tallyWith, Proposal.tallyWith, ← htally, ← htally,
      ← htally]
    rfl
  have hterms : p'.quorum = p.quorum ∧ p'.state = p.state ∧ p'.endTime = p.endTime ∧
      p'.treasuryAction = p.treasuryAction := by
    obtain ⟨_, _, _, _, rfl⟩ := hpolling.recount
    exact ⟨rfl, rfl, rfl, rfl⟩
  have haccepted : p'.Approved ↔ p.AcceptedWith es := by
    rw [Proposal.Approved, hturnout, hterms.1, Proposal.AcceptedWith, Proposal.tallyWith, Proposal.tallyWith,
      ← htally, ← htally]
    rfl
  generalize run step s (es.map (Elector.input id)) = t at *
  refine ⟨?_, fun hi => ?_, fun hi j admin hop' hauth hadmin hpay => ?_⟩
  · obtain ⟨env, outside, op⟩ := i
    obtain rfl : op = .finalise id := hop
    change Invoked .finalise t ⟨env, outside, id⟩ ↔ _
    rw [invoked_finalise_iff, ← hturnout]
    constructor
    · rintro ⟨_, q, hq, _, _, htotal⟩
      obtain rfl := Option.some_inj.1 (hq.symm.trans hpolling.lookup)
      obtain ⟨total, htotal⟩ := Option.isSome_iff_exists.1 htotal
      exact ⟨total, (Proposal.totalVotes_eq htotal).symm⟩
    · rintro ⟨total, htotal⟩
      obtain ⟨sum, hsum⟩ := Proposal.exists_totalVotes (p := p')
        (fun vote => by rw [ht'.tally_eq id p' hpolling.lookup]; exact ht'.recorded_nonneg id vote) htotal.le
      exact ⟨hready', p', hpolling.lookup, hterms.2.1.trans hstate, by rwa [hterms.2.2.1],
        Option.isSome_of_eq_some hsum⟩
  · rw [← haccepted, ← ht'.approves_iff hpolling.lookup]
    exact finalisedAs_iff hs' ht' hpolling.lookup hop hi
  · rw [← hadmin'] at hadmin
    rw [Store.CanPay, ← hterms.2.2.2, ← htreasury] at hpay
    exact hi.execute hs' hpolling.lookup hop' hauth hadmin hpay

/-- Two voters come, and the one who is against has as much weight as the one who is for. -/
def divided : List (Elector Unit) :=
  [⟨(signed (.lit 1) (.finalise (.lit 0))).env, (), .account 1, .yes, .lit 100⟩,
    ⟨(signed (.lit 2) (.finalise (.lit 0))).env, (), .account 2, .no, .lit 100⟩]

theorem election_held_divided :
    FinalisedAs (.lit 0) .rejected (run step Store.empty (opening ++ divided.map (Elector.input (.lit 0))))
      (signed (.lit 61) (.finalise (.lit 0))) := by
  have hp : (run step Store.empty opening).proposals.lookup (.lit 0) = some opened := rfl
  have hweights : ∀ e ∈ divided, (run step Store.empty opening).weigh e.view opened e.voter = some e.weight := by
    decide
  have hcast : Along step Succeeds (run step Store.empty opening) (divided.map (Elector.input (.lit 0))) :=
    .cons (by decide) (.cons (by decide) along_nil)
  obtain ⟨hfinalise, hdecide, _⟩ :=
    (election_held opening ⟨rfl, rfl⟩ hp rfl hweights).2 hcast (signed (.lit 61) (.finalise (.lit 0))) rfl (by decide)
  exact (hdecide (hfinalise.2 ⟨.lit 200, by decide⟩)).2.2 fun h => absurd h.2 (by decide)

end CosmosVote.Governance
