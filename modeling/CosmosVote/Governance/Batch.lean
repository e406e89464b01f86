import CosmosVote.Soroban.Batch
import CosmosVote.Governance.Independence
import CosmosVote.Governance.Limit
import CosmosVote.Governance.Outcome
import CosmosVote.Governance.Overflow
import CosmosVote.Governance.Pause

/-!
# Closing many proposals

The operator finalises proposals by a script, one call after the other, up to the first that fails
(`scripts/finalise-expired-proposals.sh`). A call that closes a proposal takes it from the active ones, and
leaves every other proposal as it was (`once_of_closes`).

* `finaliseExpired_exact`: which calls the script makes, and what they leave;
* `active_cleared`: the admin can always close all that is active, so that neither the limit of active
  proposals nor the guard of the voting token can lock governance.
-/

namespace CosmosVote.Governance

open Soroban

variable {ω : Type}

/-! ## The calls of a script -/

/-- A call of a script: what there is when the script gets to it, and the proposal it is for. -/
structure Invocation (ω : Type) where
  env : Env ω
  outside : ω
  id : U64

/-- `soroban contract invoke`, with the function `call`. -/
def Invocation.input (call : U64 → Op) (c : Invocation ω) : Input ω := ⟨c.env, c.outside, call c.id⟩

def invoke (call : U64 → Op) (s : Store) (c : Invocation ω) : Store := step s (c.input call)

/-- The invocation does not fail. -/
def Invoked (call : U64 → Op) (s : Store) (c : Invocation ω) : Prop := Succeeds s (c.input call)

instance (call : U64 → Op) (s : Store) (c : Invocation ω) : Decidable (Invoked call s c) :=
  inferInstanceAs (Decidable (Succeeds _ _))

/-- How `finalise-expired-proposals.sh` is called: with the proposals as arguments or in `PROPOSAL_IDS`, and
    with `SOROBAN_RPC_URL` and `GOVERNANCE_CONTRACT_ID` set or not. -/
structure Shell (ω : Type) where
  args : List (Invocation ω)
  proposalIds : List (Invocation ω)
  rpcUrl : Bool
  contractId : Bool

/-- The proposals that the script loops over. -/
def Shell.ids (sh : Shell ω) : List (Invocation ω) := if sh.args = [] then sh.proposalIds else sh.args

/-- `finalise-expired-proposals.sh`: what it leaves, and whether it ends without an error. -/
def finaliseExpired (sh : Shell ω) (s : Store) : Store × Bool :=
  if sh.ids = [] then (s, false)
  else if sh.rpcUrl = false ∨ sh.contractId = false then (s, false)
  else batch (invoke .finalise) (Invoked .finalise) s sh.ids

variable {call : U64 → Op} {s s' : Store} {env : Env ω} {op : Op} {o o' : ω} {id : U64} {p : Proposal}
  {c : Invocation ω} {cs : List (Invocation ω)}

theorem Closes.proposal (h : Closes id op) : op.proposal = some id := by
  cases h <;> rfl

/-- A call that closes a proposal finds it active, and leaves it closed. -/
theorem Effect.closes (h : Effect env s o op s' o') (hop : Closes id op) :
    (∃ p, s.proposals.lookup id = some p ∧ p.state = .active) ∧
      ∃ p, s'.proposals.lookup id = some p ∧ p.state ≠ .active := by
  cases hop with
  | finalise =>
    cases h with
    | finalise _ hp hstate =>
      exact ⟨⟨_, hp, hstate⟩, _, Finmap.lookup_insert _, Proposal.withOutcome_state_ne _ _ _⟩
  | cancel =>
    cases h with
    | cancel _ _ hp hstate => exact ⟨⟨_, hp, hstate⟩, _, Finmap.lookup_insert _, ProposalState.noConfusion⟩

/-- Closing one proposal after the other, each is closed once, and does not depend on the others. -/
theorem once_of_closes (hcall : ∀ id, Closes id (call id)) :
    Once (invoke (ω := ω) call) (Invoked call) Invocation.id fun _ => True where
  keep _ _ _ := trivial
  used s c d _ hc hkey hd := by
    obtain ⟨o, he⟩ := Succeeds.effect hc
    obtain ⟨o', he'⟩ := Succeeds.effect hd
    obtain ⟨p, hp, hclosed⟩ := (he.closes (hcall c.id)).2
    obtain ⟨q, hq, hopen⟩ := (he'.closes (hcall d.id)).1
    rw [hkey] at hq
    obtain rfl := Option.some_inj.1 (hp.symm.trans hq)
    exact hclosed hopen
  other s c d _ hc hkey := by
    obtain ⟨o, he⟩ := Succeeds.effect hc
    exact ((he.samePart (hcall c.id).proposal hkey).succeeds_iff (hcall d.id).proposal).symm

/-! ## Runs of such calls -/

theorem run_invoke (s : Store) (cs : List (Invocation ω)) :
    run (invoke call) s cs = run step s (cs.map (Invocation.input call)) := by
  induction cs generalizing s with
  | nil => rfl
  | cons c cs ih => exact ih _

/-- A proposal that is not named stays as it is. -/
theorem run_invoke_other (hcall : ∀ id, Closes id (call id)) (hid : id ∉ cs.map Invocation.id) :
    (run (invoke call) s cs).proposals.lookup id = s.proposals.lookup id := by
  induction cs generalizing s with
  | nil => rfl
  | cons c cs ih =>
    rw [List.map_cons, List.mem_cons, not_or] at hid
    rw [run_cons, ih hid.2]
    rcases step_cases s (c.input call) with ⟨o, _, he⟩ | hsame
    · exact (he.samePart (hcall c.id).proposal hid.1).proposal
    · rw [invoke, hsame]

/-- Every call takes one proposal off the active ones. -/
theorem run_invoke_active (hcall : ∀ id, Closes id (call id)) (hs : WellFormed s)
    (h : Along (invoke call) (Invoked call) s cs) :
    (run (invoke call) s cs).activeProposalCount.val + cs.length = s.activeProposalCount.val := by
  induction cs generalizing s with
  | nil => exact add_zero _
  | cons c cs ih =>
    obtain ⟨o, he⟩ := Succeeds.effect h.head
    have hone := (he.closes_one hs (hcall c.id)).2
    have hrest := ih (step_wellFormed s _ hs) h.tail
    change (run (invoke call) (step s (c.input call)) cs).activeProposalCount.val + _ = _
    rw [List.length_cons]
    change (run (invoke call) (step s (c.input call)) cs).activeProposalCount.val + _ = _ at hrest
    omega

/-! ## Finalising -/

/-- The proposal can be finalised. -/
structure Store.Finalisable (s : Store) (c : Invocation ω) : Prop where
  ready : s.Ready
  expired : ∃ p, s.proposals.lookup c.id = some p ∧ p.state = .active ∧
    p.endTime.val < c.env.timestamp.val ∧ p.totalVotes.isSome

theorem invoked_finalise_iff : Invoked .finalise s c ↔ s.Finalisable c := by
  constructor
  · intro h
    obtain ⟨o, he⟩ := Succeeds.effect_of h rfl
    generalize step s _ = s' at he
    cases he with
    | finalise hready hp hstate hend htotal =>
      exact ⟨hready, _, hp, hstate, hend, Option.isSome_of_eq_some htotal⟩
  · rintro ⟨hready, p, hp, hstate, hend, htotal⟩
    obtain ⟨total, htotal⟩ := Option.isSome_iff_exists.1 htotal
    have he : Effect c.env s c.outside (.finalise c.id) _ c.outside := .finalise hready hp hstate hend htotal
    exact congrArg Prod.fst (exec_of_effect he)

/-- The proposal is finalised, as its tallies ask for. -/
structure Proposal.Finalised (p p' : Proposal) : Prop where
  rest : p' = { p with state := p'.state }
  passed : p.Approved → p'.state = .passed
  rejected : ¬p.Approved → p'.state = .rejected

theorem Effect.finalised_proposal (h : Effect env s o (.finalise id) s' o') (hs : WellFormed s)
    (hp : s.proposals.lookup id = some p) : ∃ p', s'.proposals.lookup id = some p' ∧ p.Finalised p' := by
  cases h with
  | finalise _ hq _ _ htotal =>
    obtain rfl := Option.some_inj.1 (hq.symm.trans hp)
    refine ⟨_, Finmap.lookup_insert _, ?_⟩
    rw [Proposal.withOutcome, if_neg fun h => h (hs.proper id _ hp).choices_eq]
    rw [Proposal.totalVotes_eq htotal]
    split
    · rename_i happroved
      exact ⟨rfl, fun _ => rfl, fun h => absurd happroved h⟩
    · rename_i happroved
      exact ⟨rfl, fun h => absurd h happroved, fun _ => rfl⟩

/-- Every proposal that is named is finalised by its own tallies. -/
theorem run_invoke_finalised (hs : WellFormed s) (h : Along (invoke .finalise) (Invoked .finalise) s cs)
    (hnodup : (cs.map Invocation.id).Nodup) (hc : c ∈ cs) (hp : s.proposals.lookup c.id = some p) :
    ∃ p', (run (invoke .finalise) s cs).proposals.lookup c.id = some p' ∧ p.Finalised p' := by
  induction cs generalizing s with
  | nil => exact absurd hc List.not_mem_nil
  | cons d cs ih =>
    rw [List.map_cons, List.nodup_cons] at hnodup
    obtain ⟨o, he⟩ := Succeeds.effect_of h.head rfl
    rcases List.mem_cons.1 hc with rfl | hc
    · -- None of the others is for the same proposal.
      obtain ⟨p', hp', hfinal⟩ := he.finalised_proposal hs hp
      exact ⟨p', (run_invoke_other (fun _ => .finalise) hnodup.1).trans hp', hfinal⟩
    · have hne : c.id ≠ d.id := fun heq => hnodup.1 (heq ▸ List.mem_map_of_mem hc)
      exact ih (step_wellFormed s _ hs) h.tail hnodup.2 hc ((he.samePart rfl hne).proposal.trans hp)

/-- From `s` to `s'`, the proposals of the calls `cs` are finalised, and nothing else. -/
structure FinalisesAll (s : Store) (cs : List (Invocation ω)) (s' : Store) : Prop where
  distinct : (cs.map Invocation.id).Nodup
  finalisable : ∀ c ∈ cs, s.Finalisable c
  finalised : ∀ c ∈ cs, ∀ p, s.proposals.lookup c.id = some p →
    ∃ p', s'.proposals.lookup c.id = some p' ∧ p.Finalised p'
  other : ∀ id, id ∉ cs.map Invocation.id → s'.proposals.lookup id = s.proposals.lookup id
  active : s'.activeProposalCount.val + cs.length = s.activeProposalCount.val

theorem FinalisesAll.nil (s : Store) : FinalisesAll s ([] : List (Invocation ω)) s where
  distinct := List.nodup_nil
  finalisable := List.forall_mem_nil _
  finalised := List.forall_mem_nil _
  other _ _ := rfl
  active := add_zero _

theorem finalisesAll_of_distinct (hs : WellFormed s) (hnodup : (cs.map Invocation.id).Nodup)
    (hall : ∀ c ∈ cs, Invoked .finalise s c) : FinalisesAll s cs (run (invoke .finalise) s cs) := by
  have hcall (id : U64) : Closes id (.finalise id) := .finalise
  have halong := ((once_of_closes hcall).along_iff trivial).2 ⟨hnodup, hall⟩
  exact
    { distinct := hnodup
      finalisable := fun c hc => invoked_finalise_iff.1 (hall c hc)
      finalised := fun c hc p hp => run_invoke_finalised hs halong hnodup hc hp
      other := fun id hid => run_invoke_other hcall hid
      active := run_invoke_active hcall hs halong }

/-- In every reachable state, the script ends without an error exactly if it is given proposals, and the two
    variables, and the proposals are different ones which can all be finalised when it starts, each at the time
    at which it comes to it. In any case it has finalised those before the first one that is not so, each by its
    own tallies, and left every other one as it was. -/
theorem finaliseExpired_exact (is : List (Input ω)) (sh : Shell ω) :
    ((finaliseExpired sh (run step Store.empty is)).2 = true ↔
      sh.ids ≠ [] ∧ (sh.rpcUrl = true ∧ sh.contractId = true) ∧ (sh.ids.map Invocation.id).Nodup ∧
        ∀ c ∈ sh.ids, (run step Store.empty is).Finalisable c) ∧
    ∃ xs ys, sh.ids = xs ++ ys ∧
      FinalisesAll (run step Store.empty is) xs (finaliseExpired sh (run step Store.empty is)).1 ∧
      (sh.rpcUrl = true ∧ sh.contractId = true → ∀ d ∈ ys.head?,
        (run step Store.empty is).Finalisable d → d.id ∈ xs.map Invocation.id) := by
  have hs := run_wellFormed is
  have honce : Once (invoke (ω := ω) .finalise) (Invoked .finalise) Invocation.id fun _ => True :=
    once_of_closes fun _ => .finalise
  generalize run step Store.empty is = s at hs ⊢
  rw [finaliseExpired]
  split
  · rename_i hids
    rw [hids]
    exact ⟨iff_of_false Bool.false_ne_true fun h => h.1 rfl, [], [], rfl, .nil s,
      fun _ d hd => absurd hd (Option.not_mem_none d)⟩
  split
  · rename_i hvars
    have hunset : ¬(sh.rpcUrl = true ∧ sh.contractId = true) := by
      rintro ⟨hurl, hid⟩
      rcases hvars with h | h
      · exact Bool.false_ne_true (h.symm.trans hurl)
      · exact Bool.false_ne_true (h.symm.trans hid)
    exact ⟨iff_of_false Bool.false_ne_true fun h => hunset h.2.1, [], sh.ids, rfl, .nil s,
      fun h => absurd h hunset⟩
  · rename_i hids hvars
    have hset : sh.rpcUrl = true ∧ sh.contractId = true := by
      rw [not_or, Bool.not_eq_false, Bool.not_eq_false] at hvars
      exact hvars
    obtain ⟨xs, ys, hxs, hbatch, hnodup, hall, hstop⟩ := honce.batch_prefix trivial sh.ids
    refine ⟨?_, xs, ys, hxs, ?_, fun _ d hd hok => hstop d hd (invoked_finalise_iff.2 hok)⟩
    · rw [honce.batch_iff trivial]
      simp only [invoked_finalise_iff]
      exact ⟨fun h => ⟨hids, hset, h⟩, fun h => h.2.2⟩
    · rw [hbatch]
      exact finalisesAll_of_distinct hs hnodup hall

/-! ## Cancelling -/

theorem invoked_cancel {admin : Address} {reason : Option Text} (hauth : c.env.auth admin = true)
    (hadmin : s.admin = some admin) (hp : s.proposals.lookup c.id = some p) (hstate : p.state = .active) :
    Invoked (fun id => .cancel admin id reason) s c := by
  have he : Effect c.env s c.outside (.cancel admin c.id reason) _ c.outside := .cancel hauth hadmin hp hstate
  exact congrArg Prod.fst (exec_of_effect he)

/-- To close a proposal leaves the admin and the voting token. -/
theorem Effect.closes_config (h : Effect env s o op s' o') (hop : Closes id op) :
    s'.admin = s.admin ∧ s'.votingToken = s.votingToken := by
  obtain ⟨⟩ := s
  cases hop <;> cases h <;> exact ⟨rfl, rfl⟩

theorem run_invoke_config (hcall : ∀ id, Closes id (call id)) (s : Store) (cs : List (Invocation ω)) :
    (run (invoke call) s cs).admin = s.admin ∧ (run (invoke call) s cs).votingToken = s.votingToken := by
  refine run_invariant (I := fun t : Store => t.admin = s.admin ∧ t.votingToken = s.votingToken) ?_ ⟨rfl, rfl⟩ cs
  rintro t c ⟨hadmin, htoken⟩
  rcases step_cases t (c.input call) with ⟨o, _, he⟩ | hsame
  · obtain ⟨hadmin', htoken'⟩ := he.closes_config (hcall c.id)
    exact ⟨hadmin'.trans hadmin, htoken'.trans htoken⟩
  · rw [invoke, hsame]
    exact ⟨hadmin, htoken⟩

/-- In every reachable state in which governance has an admin, also while it is paused, cancelling all that is
    active, in any order and at any time, succeeds with every call. Then no proposal is active, so that another
    voting token can be chosen. -/
theorem active_cleared (is : List (Input ω)) {admin : Address}
    (hadmin : (run step Store.empty is).admin = some admin) (reason : Option Text) {cs : List (Invocation ω)}
    (hauth : ∀ c ∈ cs, c.env.auth admin = true) (hnodup : (cs.map Invocation.id).Nodup)
    (hall : ∀ id, id ∈ cs.map Invocation.id ↔ id ∈ (run step Store.empty is).activeProposals) :
    ∃ s', batch (invoke fun id => .cancel admin id reason) (Invoked fun id => .cancel admin id reason)
        (run step Store.empty is) cs = (s', true) ∧ s'.activeProposalCount.val = 0 ∧
      ∀ (i : Input ω) token, i.op = .updateVotingToken admin token → i.env.auth admin = true → Succeeds s' i := by
  have hs := run_wellFormed is
  obtain ⟨token, htoken⟩ : ∃ token, (run step Store.empty is).votingToken = some token := by
    refine Option.ne_none_iff_exists'.1 (run_configured is ?_).2
    cases hstate : (run step Store.empty is).contractState with
    | ready => rfl
    | uninitialized => cases hadmin.symm.trans (run_fresh is hstate).1
  generalize run step Store.empty is = s at *
  have hcall (id : U64) : Closes id (.cancel admin id reason) := .cancel admin reason
  have hinvoked (c : Invocation ω) (hc : c ∈ cs) : Invoked (fun id => .cancel admin id reason) s c := by
    obtain ⟨p, hp, hstate⟩ := (Finmap.mem_keysWith _ _).1 ((hall c.id).1 (List.mem_map_of_mem hc))
    exact invoked_cancel (hauth c hc) hadmin hp hstate
  have honce := once_of_closes (ω := ω) hcall
  have halong := (honce.along_iff trivial).2 ⟨hnodup, hinvoked⟩
  have hactive := run_invoke_active hcall hs halong
  have hcount : (cs.map Invocation.id).toFinset = s.activeProposals := by
    ext id
    rw [List.mem_toFinset, hall]
  -- There are as many calls as active proposals.
  rw [hs.active_card, ← hcount, List.toFinset_card_of_nodup hnodup, List.length_map, add_eq_right] at hactive
  refine ⟨run (invoke fun id => .cancel admin id reason) s cs, ?_, hactive, fun i newToken hop hsigned => ?_⟩
  · obtain ⟨xs, ys, hxs, hbatch, _⟩ := honce.batch_prefix trivial cs
    have hend := (honce.batch_iff trivial cs).2 ⟨hnodup, hinvoked⟩
    rw [hbatch, List.isEmpty_iff] at hend
    rw [hend, List.append_nil] at hxs
    rw [hbatch, hend, hxs]
    rfl
  · obtain ⟨hadmin', htoken'⟩ := run_invoke_config hcall s cs
    rw [Succeeds, hop]
    exact congrArg Prod.fst (exec_of_effect
      (.updateVotingToken hsigned (hadmin'.trans hadmin) hactive.le (htoken'.trans htoken)))

/-- The script is given the first proposal, once it has expired, and then a proposal that there is not. -/
def expired : Shell Unit where
  args := [⟨(signed (.lit 61) (.finalise (.lit 0))).env, (), .lit 0⟩,
    ⟨(signed (.lit 62) (.finalise (.lit 0))).env, (), .lit 7⟩]
  proposalIds := []
  rpcUrl := true
  contractId := true

/-- The first call succeeds, and the second fails. -/
example : finaliseExpired expired (run step Store.empty opening) =
    (step (run step Store.empty opening) (signed (.lit 61) (.finalise (.lit 0))), false) := by rfl

/-- The admin cancels the first proposal. -/
def cancelFirstOnly : List (Invocation Unit) := [⟨(signed (.lit 2) (.finalise (.lit 0))).env, (), .lit 0⟩]

/-- Governance has been paused before. -/
theorem active_cleared_paused :
    ∃ s', batch (invoke fun id => .cancel (.account 9) id none) (Invoked fun id => .cancel (.account 9) id none)
        (run step Store.empty (opening ++ [signed (.lit 1) (.pause (.account 9))])) cancelFirstOnly = (s', true) ∧
      s'.activeProposalCount.val = 0 := by
  have hadmin : (run step Store.empty (opening ++ [signed (.lit 1) (.pause (.account 9))])).admin =
      some (.account 9) := rfl
  have hactive : (run step Store.empty (opening ++ [signed (.lit 1) (.pause (.account 9))])).activeProposals =
      {.lit 0} := by decide
  have hauth : ∀ c ∈ cancelFirstOnly, c.env.auth (.account 9) = true := fun _ hc => by
    rw [List.mem_singleton.1 hc]
    rfl
  obtain ⟨s', hbatch, hcount, _⟩ := active_cleared _ hadmin none hauth (List.nodup_singleton _) fun id => by
    rw [hactive, Finset.mem_singleton]
    exact List.mem_singleton
  exact ⟨s', hbatch, hcount⟩

end CosmosVote.Governance
