import CosmosVote.Governance.Lifecycle

/-!
# The limit on active proposals

At most fifty proposals are active at a time. `create_proposal` compares a counter with the
limit, which `finalise` and `cancel` count down, but never below zero. `WellFormed` says that
the counter is right (`WellFormed.active_card`), so that they never stop it from going below
(`closes_one`), and a proposal is refused exactly if there are fifty active ones
(`refused_iff`).
-/

namespace CosmosVote.Governance

open Soroban

variable {ω : Type}

/-- The proposals that are active. -/
def Store.activeProposals (s : Store) : Finset U64 :=
  s.proposals.keysWith fun p => p.state = .active

variable {s s' : Store} {env : Env ω} {op : Op} {o o' : ω}

/-- The counter counts the active proposals. -/
theorem WellFormed.active_card (hs : WellFormed s) :
    s.activeProposalCount.val = s.activeProposals.card := by
  rw [hs.active_eq, Store.activeProposals, Finmap.card_keysWith]
  rfl

/-- A counter that is counted down does not grow. -/
theorem Store.closeActive_le (s : Store) :
    s.closeActive.activeProposalCount.val ≤ s.activeProposalCount.val := by
  have hlo := s.activeProposalCount.lo_le
  change (s.activeProposalCount.saturatingSub (.lit 1)).val ≤ _
  simp only [IntRange.saturatingSub]
  omega

/-- No call takes the counter over the limit. -/
theorem Effect.activeProposalCount_le (h : Effect env s o op s' o')
    (hle : s.activeProposalCount.val ≤ 50) : s'.activeProposalCount.val ≤ 50 := by
  cases h with
  | createProposal _ _ _ _ _ _ _ hactive _ _ _ _ _ _ _ _ hopen =>
    exact hopen.symm.le.trans hactive
  | finalise => exact (Store.closeActive_le _).trans hle
  | cancel => exact (Store.closeActive_le _).trans hle
  | _ => exact hle

theorem run_activeProposalCount_le (is : List (Input ω)) :
    (run step Store.empty is).activeProposalCount.val ≤ 50 :=
  run_effects (I := fun s : Store => s.activeProposalCount.val ≤ 50) .empty (by decide)
    (fun _ _ _ _ _ hs he => he.activeProposalCount_le hs) is

/-- The calls that close a proposal. -/
inductive Closes (id : U64) : Op → Prop
  | finalise : Closes id (.finalise id)
  | cancel (admin : Address) (reason : Option Text) : Closes id (.cancel admin id reason)

/-- A call that closes a proposal takes one off the counter. -/
theorem Effect.closes_one (h : Effect env s o op s' o') (hs : WellFormed s) {id : U64}
    (hop : Closes id op) : 0 < s.activeProposalCount.val ∧
      s'.activeProposalCount.val = s.activeProposalCount.val - 1 := by
  -- The proposal it closes was active, so that there was one to take off.
  have hclose {p : Proposal} (hp : s.proposals.lookup id = some p) (hstate : p.state = .active) :
      0 < s.activeProposalCount.val ∧
        (s.activeProposalCount.saturatingSub (.lit 1)).val = s.activeProposalCount.val - 1 := by
    have hone := hs.one_le hp hstate
    have hhi := s.activeProposalCount.le_hi
    simp only [IntRange.saturatingSub]
    omega
  cases hop with
  | finalise =>
    cases h with
    | finalise _ hp hstate => exact hclose hp hstate
  | cancel =>
    cases h with
    | cancel _ _ hp hstate => exact hclose hp hstate

/-! ## The limit -/

/-- The call of `create_proposal` passes the checks made before that of the limit. -/
structure ReachesLimit (env : HostEnv) (s : Store) (proposer : Address) (title description : Text)
    (quorum : I128) (duration : U64) (link : Option Text) : Prop where
  auth : env.auth proposer = true
  ready : s.Ready
  title : title ≠ [] ∧ title.length ≤ 128
  description : description ≠ [] ∧ description.length ≤ 1024
  link : ∀ l ∈ link, l ≠ [] ∧ l.length ≤ 256
  quorum : 0 < quorum.val
  duration : 60 ≤ duration.val ∧ duration.val ≤ 2592000

section Errors

variable {c c' : Ctx Store ω} {e : ContractError}

instance : Call.NoErr (Storage.votingToken : GovernanceCall ω Address) := by
  rw [Storage.votingToken]; infer_instance

theorem err_of_checkQuorumFloor {quorum supply : I128}
    (h : (checkQuorumFloor quorum supply).run c = (.err e, c')) :
    e = .arithmeticOverflow ∨ e = .quorumBelowFloor := by
  simp [checkQuorumFloor] at h
  rcases h with ⟨_, ⟨_, rfl, _⟩ | ⟨_, _, _, rfl, _⟩⟩
  · exact .inl rfl
  · exact .inr rfl

theorem err_of_checkBalance {token proposer : Address}
    (h : (checkBalance token proposer env).run c = (.err e, c')) : e = .insufficientBalance := by
  simp [checkBalance, Call.NoErr.run_ne] at h
  obtain ⟨_, _, _, _, rfl, _⟩ := h
  rfl

theorem err_of_checkCooldown {env : HostEnv} {proposer : Address}
    (h : (checkCooldown proposer env).run c = (.err e, c')) : e = .proposalCooldown := by
  simp [checkCooldown] at h
  obtain ⟨_, h⟩ := h
  cases hlast : c.store.lastProposal.lookup proposer with
  | none => simp [hlast] at h
  | some last =>
    simp [hlast, Call.NoErr.run_ne] at h
    obtain ⟨_, _, _, rfl, _⟩ := h
    rfl

end Errors

section Refused

variable {proposer : Address} {title description : Text} {quorum : I128} {duration : U64}
  {link : Option Text} {action : Option TreasuryAction}

/-- A text that passes its check. -/
theorem not_rejected {text : Text} {max : ℕ} (h : text ≠ [] ∧ text.length ≤ max) :
    ¬(text.length = 0 ∨ max < text.length) := by
  rw [List.length_eq_zero_iff, not_or, not_lt]
  exact h

theorem link_not_rejected (h : ∀ l ∈ link, l ≠ [] ∧ l.length ≤ 256) :
    ¬(link.any fun l => l.length = 0 ∨ 256 < l.length) = true := by
  rw [link_ok_iff.2 h]
  exact Bool.false_ne_true

/-- The check of the limit is the one that refuses a proposal as one too many. -/
theorem refused_iff (h : ReachesLimit env.toHostEnv s proposer title description quorum duration link) :
    ((exec env (.createProposal proposer title description quorum duration link action)).run ⟨s, o⟩).1 =
        .err .proposalsStillActive ↔ 50 ≤ s.activeProposalCount.val := by
  let c : Ctx Store ω := ⟨s, o⟩
  have hcaller : (env.requireAuth proposer : GovernanceCall ω Unit).run c = (.ok (), c) :=
    env.run_requireAuth_ok.2 ⟨h.auth, rfl⟩
  have hopen : assertReady.run c = (.ok (), c) := run_assertReady_ok.2 ⟨h.ready, rfl⟩
  have hduration : ¬(duration.val < 60 ∨ 2592000 < duration.val) := by
    have := h.duration
    omega
  have hget : (Call.get : GovernanceCall ω (Ctx Store ω)).run c = (.ok c, c) := rfl
  have hunit (m : GovernanceCall ω U64) : ((m >>= fun _ => (pure () : GovernanceCall ω Unit)).run c).1 =
      .err .proposalsStillActive ↔ (m.run c).1 = .err .proposalsStillActive := by
    rw [Call.run_bind]
    rcases m.run c with ⟨_ | _ | _, _⟩ <;> simp
  rw [exec, hunit, createProposal, Call.run_bind_of_ok hcaller, Call.run_bind_of_ok hopen,
    Call.run_bind_of_ok (Call.run_rejectIf_of_not (not_rejected h.title)),
    Call.run_bind_of_ok (Call.run_rejectIf_of_not (not_rejected h.description)),
    Call.run_bind_of_ok (Call.run_rejectIf_of_not (link_not_rejected h.link)),
    Call.run_bind_of_ok (Call.run_rejectIf_of_not (not_le.2 h.quorum)),
    Call.run_bind_of_ok (Call.run_rejectIf_of_not hduration), Call.run_bind_of_ok hget]
  dsimp only [c]
  by_cases hge : 50 ≤ s.activeProposalCount.val
  · rw [Call.run_bind_of_err (Call.run_rejectIf_of hge)]
    exact iff_of_true rfl hge
  · rw [Call.run_bind_of_ok (Call.run_rejectIf_of_not hge)]
    refine iff_of_false (fun herr => ?_) hge
    -- What is left are the other checks, each of which has its own errors.
    generalize hrun : Call.run _ (_ : Ctx Store ω) = x at herr
    obtain ⟨_, c'⟩ := x
    obtain rfl := herr
    simp [Call.NoErr.run_ne] at hrun
    obtain ⟨_, _, _, _, _, hc | ⟨_, hc | ⟨_, hc⟩⟩⟩ := hrun
    · rcases err_of_checkQuorumFloor hc with h | h <;> cases h
    · cases err_of_checkBalance hc
    · cases err_of_checkCooldown hc

end Refused

/-- In every reachable state:

    * there is a proposal for each number below the count, which it carries, and no other one;
    * the counter of the active proposals counts them, and there are at most fifty;
    * a call that closes a proposal finds the counter above zero, and takes one off;
    * a new proposal that gets to the check of the limit is refused by it exactly if there are fifty
      active ones. -/
theorem store_invariant (is : List (Input ω)) :
    (∀ id, ((run step Store.empty is).proposals.lookup id).isSome ↔
      id.val < (run step Store.empty is).proposalCount.val) ∧
    (∀ id p, (run step Store.empty is).proposals.lookup id = some p → p.id = id) ∧
    (run step Store.empty is).activeProposalCount.val =
      (run step Store.empty is).activeProposals.card ∧
    (run step Store.empty is).activeProposals.card ≤ 50 ∧
    (∀ (i : Input ω) id, Closes id i.op → Succeeds (run step Store.empty is) i →
      0 < (run step Store.empty is).activeProposalCount.val ∧
        (step (run step Store.empty is) i).activeProposalCount.val =
          (run step Store.empty is).activeProposalCount.val - 1) ∧
    ∀ (env : Env ω) (o : ω) proposer title description quorum duration link action,
      ReachesLimit env.toHostEnv (run step Store.empty is) proposer title description quorum duration link →
      (((exec env (.createProposal proposer title description quorum duration link action)).run
          ⟨run step Store.empty is, o⟩).1 = .err .proposalsStillActive ↔
        (run step Store.empty is).activeProposals.card = 50) := by
  have hs := run_wellFormed is
  have hcard := hs.active_card
  have hle := run_activeProposalCount_le is
  refine ⟨hs.isSome_iff, fun id p hp => (hs.proper id p hp).id_eq, hcard, by omega, ?_, ?_⟩
  · intro i id hop hi
    obtain ⟨o, he⟩ := hi.effect
    exact he.closes_one hs hop
  · intro env o proposer title description quorum duration link action h
    rw [refused_iff h]
    omega

end CosmosVote.Governance
