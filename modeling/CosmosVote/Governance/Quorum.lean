import CosmosVote.Governance.Lifecycle

/-!
# The floor of the quorum

The configuration sets a floor for the quorum of a proposal, as a part of the supply.
`create_proposal` checks it (`Effect.floor_le`), but `update_quorum`, which writes the quorum
too, only compares it with the supply. So the admin can set a quorum below the floor
(`quorum_floor_iff`).

`initialize` takes any number of basis points, and no call changes it. So it may be that no quorum
is both above the floor and below the supply, or that the floor cannot be computed, and no proposal
can be made (`quorum_room_iff`).
-/

namespace CosmosVote.Governance

open Soroban

variable {ω : Type}

/-- The least quorum, for a supply: so many basis points of it, rounded down. -/
def Store.quorumFloor (s : Store) (supply : I128) : ℤ := supply.val * s.minQuorumBps.val / 10000

/-- The calls that set the quorum of the proposal `id`. -/
inductive SetsQuorum (s : Store) : U64 → Op → Prop
  | create {proposer : Address} {title description : Text} {quorum : I128} {duration : U64}
      {link : Option Text} {action : Option TreasuryAction} : SetsQuorum s s.proposalCount
        (.createProposal proposer title description quorum duration link action)
  | update {admin : Address} {id : U64} {quorum : I128} : SetsQuorum s id (.updateQuorum admin id quorum)

section Floor

variable {s : Store} {quorum supply : I128}

/-- The floor is met by the quorums for which the next larger one covers the part of the supply. -/
theorem Store.quorumFloor_le_iff :
    s.quorumFloor supply ≤ quorum.val ↔ supply.val * s.minQuorumBps.val < 10000 * (quorum.val + 1) := by
  rw [quorumFloor, ← Int.lt_add_one_iff, Int.ediv_lt_iff_lt_mul (by decide), mul_comm (10000 : ℤ)]

/-- What the code computes is the floor. -/
theorem Store.FloorMet.le (h : s.FloorMet quorum supply) (hquorum : 0 < quorum.val)
    (hsupply : 0 < supply.val) : s.quorumFloor supply ≤ quorum.val := by
  have hbps := s.minQuorumBps.lo_le
  rcases hbps.eq_or_lt with hzero | hpos
  · rw [quorumFloor, ← hzero, mul_zero]
    exact hquorum.le
  · obtain ⟨floor, hfloor, hle⟩ := h hpos
    obtain ⟨v, hv, hdiv⟩ := Option.bind_eq_some_iff.1 hfloor
    rw [IntRange.checkedMul_eq_some] at hv
    obtain ⟨_, hdiv⟩ := IntRange.checkedDiv_eq_some.1 hdiv
    -- The division truncates, but nothing is negative.
    have hnonneg : 0 ≤ v.val := hv ▸ mul_nonneg hsupply.le hpos.le
    rw [Int.tdiv_eq_ediv_of_nonneg hnonneg, ← hv] at hdiv
    exact hdiv.le.trans hle

end Floor

variable {s s' : Store} {env : Env ω} {o o' : ω}

/-- A proposal is created with a quorum that is not below the floor. -/
theorem Effect.floor_le {proposer : Address} {title description : Text} {quorum : I128} {duration : U64}
    {link : Option Text} {action : Option TreasuryAction}
    (h : Effect env s o (.createProposal proposer title description quorum duration link action) s' o') :
    ∃ token supply p, s.votingToken = some token ∧ (env.token token o).totalSupply = some supply ∧
      s'.proposals.lookup s.proposalCount = some p ∧ p.quorum.val ≤ supply.val ∧
      s.quorumFloor supply ≤ p.quorum.val := by
  cases h with
  | createProposal _ _ _ _ _ hquorum _ _ htoken hsupply hle hfloor =>
    exact ⟨_, _, _, htoken, hsupply, Finmap.lookup_insert _, hle,
      hfloor.le hquorum (hquorum.trans_le hle)⟩

/-- A quorum is updated to what the admin asks for. -/
theorem Effect.updated_quorum {admin : Address} {id : U64} {quorum : I128}
    (h : Effect env s o (.updateQuorum admin id quorum) s' o') :
    ∃ token supply p, s.votingToken = some token ∧ (env.token token o).totalSupply = some supply ∧
      s'.proposals.lookup id = some p ∧ p.quorum.val ≤ supply.val ∧ p.quorum = quorum := by
  cases h with
  | updateQuorum _ _ _ htoken hsupply hle =>
    exact ⟨_, _, _, htoken, hsupply, Finmap.lookup_insert _, hle, rfl⟩

/-- After every call that sets the quorum of a proposal, the quorum is not above the supply. It is not
    below the floor exactly if the call is no update, or to a quorum for which the next larger one
    covers its part of the supply. -/
theorem quorum_floor_iff {i : Input ω} {id : U64} (hop : SetsQuorum s id i.op) (hi : Succeeds s i) :
    ∃ token supply p, s.votingToken = some token ∧
      (i.env.token token i.outside).totalSupply = some supply ∧
      (step s i).proposals.lookup id = some p ∧ p.quorum.val ≤ supply.val ∧
      (s.quorumFloor supply ≤ p.quorum.val ↔ ∀ admin id' quorum, i.op = .updateQuorum admin id' quorum →
        supply.val * s.minQuorumBps.val < 10000 * (quorum.val + 1)) := by
  obtain ⟨o, he⟩ := hi.effect
  generalize step s i = s' at he ⊢
  obtain ⟨env, outside, op⟩ := i
  cases hop with
  | create =>
    obtain ⟨token, supply, p, htoken, hsupply, hp, hle, hfloor⟩ := he.floor_le
    refine ⟨token, supply, p, htoken, hsupply, hp, hle, iff_of_true hfloor ?_⟩
    intro admin id' quorum hupdate
    cases hupdate
  | @update admin _ quorum =>
    obtain ⟨token, supply, p, htoken, hsupply, hp, hle, rfl⟩ := he.updated_quorum
    refine ⟨token, supply, p, htoken, hsupply, hp, hle, Store.quorumFloor_le_iff.trans ?_⟩
    constructor
    · intro hlt admin' id' quorum hupdate
      obtain ⟨rfl, rfl, rfl⟩ := Op.updateQuorum.inj hupdate
      exact hlt
    · intro hall
      exact hall admin id p.quorum rfl

/-- The admin sets the quorum of the first proposal. -/
def updating (quorum : I128) : Input Unit := signed (.lit 1) (.updateQuorum (.account 9) (.lit 0) quorum)

/-- A fifth of the supply is a quorum that is not below the floor. -/
theorem quorum_floor_iff_updating :
    ∃ token supply p, (run step Store.empty opening).votingToken = some token ∧
      ((updating (.lit 20)).env.token token ()).totalSupply = some supply ∧
      (step (run step Store.empty opening) (updating (.lit 20))).proposals.lookup (.lit 0) = some p ∧
      p.quorum.val ≤ supply.val ∧
      ((run step Store.empty opening).quorumFloor supply ≤ p.quorum.val ↔
        ∀ admin id' quorum, (updating (.lit 20)).op = .updateQuorum admin id' quorum →
          supply.val * (run step Store.empty opening).minQuorumBps.val < 10000 * (quorum.val + 1)) :=
  quorum_floor_iff (i := updating (.lit 20)) .update (by decide)

/-- A hundredth of the supply is a tenth of the floor, and the admin can set it. -/
theorem quorum_below_floor :
    Succeeds (run step Store.empty opening) (updating (.lit 1)) ∧
    ((updating (.lit 1)).env.token (.contract 3) ()).totalSupply = some (.lit 100) ∧
    (run step Store.empty opening).votingToken = some (.contract 3) ∧
    (run step Store.empty opening).quorumFloor (.lit 100) = 10 ∧
    ∃ p, (step (run step Store.empty opening) (updating (.lit 1))).proposals.lookup (.lit 0) = some p ∧
      p.quorum.val = 1 :=
  ⟨by decide, rfl, by decide, by decide,
    Option.map_eq_some_iff.1 (show Option.map (fun p : Proposal => p.quorum.val) _ = some 1 by decide)⟩

/-! ## Room for a quorum -/

section Room

variable {s s' : Store} {supply : I128}

/-- The greatest quorum is not below the floor, and the floor can be computed. -/
def HasRoom (bps : U32) (supply : I128) : Prop :=
  bps.val = 0 ∨ supply.val * bps.val ≤ 170141183460469231731687303715884105727 ∧
    supply.val * bps.val < 10000 * (supply.val + 1)

instance (bps : U32) (supply : I128) : Decidable (HasRoom bps supply) := inferInstanceAs (Decidable (_ ∨ _))

theorem Store.floorMet_iff {quorum : I128} (hsupply : 0 < supply.val) :
    s.FloorMet quorum supply ↔ s.minQuorumBps.val = 0 ∨
      supply.val * s.minQuorumBps.val ≤ 170141183460469231731687303715884105727 ∧
        supply.val * s.minQuorumBps.val < 10000 * (quorum.val + 1) := by
  have hbps := s.minQuorumBps.lo_le
  rcases hbps.eq_or_lt with hzero | hpos
  · exact iff_of_true (fun hpos => absurd hpos (hzero ▸ lt_irrefl _)) (.inl hzero.symm)
  · rw [or_iff_right hpos.ne', FloorMet, imp_iff_right hpos]
    have hnonneg : 0 ≤ supply.val * s.minQuorumBps.val := mul_nonneg hsupply.le hpos.le
    constructor
    · rintro ⟨floor, hfloor, hle⟩
      obtain ⟨v, hv, hdiv⟩ := Option.bind_eq_some_iff.1 hfloor
      rw [IntRange.checkedMul_eq_some] at hv
      obtain ⟨_, hdiv⟩ := IntRange.checkedDiv_eq_some.1 hdiv
      change supply.val * s.minQuorumBps.val = v.val at hv
      rw [hv] at hnonneg ⊢
      refine ⟨v.le_hi, ?_⟩
      rw [Int.tdiv_eq_ediv_of_nonneg hnonneg] at hdiv
      dsimp only at hdiv
      omega
    · rintro ⟨hmax, hlt⟩
      obtain ⟨v, hfit, hv⟩ : ∃ v : I128, supply.checkedMul s.minQuorumBps.toI128 = some v ∧
          v.val = supply.val * s.minQuorumBps.val := IntRange.exists_fit (le_trans (by decide) hnonneg) hmax
      obtain ⟨floor, hfloor, hval⟩ :=
        IntRange.exists_checkedDiv (b := .lit 10000) (by decide) (hv ▸ hnonneg) (by decide)
      refine ⟨floor, ?_, ?_⟩
      · rw [hfit, Option.bind_some, hfloor]
      · rw [hval, hv]
        dsimp only
        omega

/-- Everything that `create_proposal` asks for but a quorum. -/
structure MayPropose (s : Store) (env : Env ω) (o : ω) (proposer : Address) (title description : Text)
    (duration : U64) (link : Option Text) (supply : I128) : Prop where
  auth : env.auth proposer = true
  ready : s.Ready
  title : title ≠ [] ∧ title.length ≤ 128
  description : description ≠ [] ∧ description.length ≤ 1024
  link : ∀ l ∈ link, l ≠ [] ∧ l.length ≤ 256
  lasts : 60 ≤ duration.val ∧ duration.val ≤ 2592000
  active : s.activeProposalCount.val < 50
  supply : ∃ token, s.votingToken = some token ∧ (env.token token o).totalSupply = some supply ∧
    s.BalanceMet (env.token token o) proposer
  cooldown : s.CooldownMet env.timestamp proposer
  /-- Neither the end of the voting period nor the number of proposals overflows. -/
  fits : env.timestamp.val + duration.val ≤ 18446744073709551615 ∧ s.proposalCount.val < 18446744073709551615

variable {env : Env ω} {o : ω} {proposer : Address} {title description : Text} {duration : U64}
  {link : Option Text}

/-- Then the call succeeds if the quorum passes its checks. -/
theorem MayPropose.succeeds_iff (h : MayPropose s env o proposer title description duration link supply)
    (action : Option TreasuryAction) (quorum : I128) :
    Succeeds s ⟨env, o, .createProposal proposer title description quorum duration link action⟩ ↔
      0 < quorum.val ∧ quorum.val ≤ supply.val ∧ s.FloorMet quorum supply := by
  obtain ⟨token, htoken, hsupply, hbalance⟩ := h.supply
  constructor
  · intro hsucceeds
    obtain ⟨o', he⟩ := hsucceeds.effect
    generalize step s _ = s' at he
    cases he with
    | createProposal _ _ _ _ _ hquorum _ _ htoken' hsupply' hle hfloor =>
      obtain rfl := Option.some_inj.1 (htoken.symm.trans htoken')
      obtain rfl := Option.some_inj.1 (hsupply.symm.trans hsupply')
      exact ⟨hquorum, hle, hfloor⟩
  · rintro ⟨hquorum, hle, hfloor⟩
    have hnow := env.timestamp.lo_le
    have hcount := s.proposalCount.lo_le
    have hopen := s.activeProposalCount.lo_le
    obtain ⟨endTime, _, hend⟩ : ∃ t : U64, IntRange.fit _ = some t ∧ t.val = env.timestamp.val + duration.val :=
      IntRange.exists_fit (by have := duration.lo_le; omega) h.fits.1
    obtain ⟨count, _, hcount⟩ : ∃ n : U64, IntRange.fit _ = some n ∧ n.val = s.proposalCount.val + 1 :=
      IntRange.exists_fit (by omega) (by have := h.fits.2; omega)
    obtain ⟨opened, _, hopened⟩ : ∃ n : U64, IntRange.fit _ = some n ∧ n.val = s.activeProposalCount.val + 1 :=
      IntRange.exists_fit (by omega) (by have := h.active; omega)
    rw [Succeeds, exec_of_effect (.createProposal h.auth h.ready h.title h.description h.link hquorum h.lasts
      h.active htoken hsupply hle hfloor hbalance h.cooldown hend.symm hcount.symm hopened.symm)]

/-- The basis points are those of the initialisation. -/
theorem Effect.minQuorumBps (h : Effect env s o op s' o') (hready : s.contractState = .ready) :
    s'.minQuorumBps = s.minQuorumBps ∧ s'.contractState = .ready := by
  obtain ⟨⟩ := s
  cases h with
  | initializeContract hinit => cases hinit.symm.trans hready
  | _ => exact ⟨rfl, hready⟩

theorem run_minQuorumBps (hready : s.contractState = .ready) (is : List (Input ω)) :
    (run step s is).minQuorumBps = s.minQuorumBps := by
  refine (run_invariant (I := fun t : Store => t.minQuorumBps = s.minQuorumBps ∧ t.contractState = .ready) ?_
    ⟨rfl, hready⟩ is).1
  rintro t i ⟨hsame, hready⟩
  refine step_invariant (I := fun t' : Store => t'.minQuorumBps = s.minQuorumBps ∧ t'.contractState = .ready)
    ⟨hsame, hready⟩ fun t' o he => ?_
  exact ⟨(he.minQuorumBps hready).1.trans hsame, (he.minQuorumBps hready).2⟩

/-- In every state that is reached after an initialisation with any number of basis points, and for every
    supply of the voting token, there is a quorum that passes the checks of `create_proposal` on it exactly
    if that number of basis points leaves room for one. If nothing else stands in the way of a proposal,
    it can be made then, and only then. -/
theorem quorum_room_iff {xs is : List (Input ω)} {i : Input ω} {admin token : Address} {minBalance : I128}
    {cooldown : U64} {bps : U32} {restrict : Bool} {treasury : Option Address}
    (hop : i.op = .initializeContract admin token minBalance cooldown bps restrict treasury)
    (hi : Succeeds (run step Store.empty xs) i) (hsupply : 1 ≤ supply.val) (o : ω) :
    let s := run step Store.empty (xs ++ i :: is)
    ((∃ quorum : I128, 0 < quorum.val ∧ quorum.val ≤ supply.val ∧
        (checkQuorumFloor quorum supply).run ⟨s, o⟩ = (.ok (), ⟨s, o⟩)) ↔ HasRoom bps supply) ∧
      ∀ (env : Env ω) proposer title description duration link action,
        MayPropose s env o proposer title description duration link supply →
          ((∃ quorum, Succeeds s
            ⟨env, o, .createProposal proposer title description quorum duration link action⟩) ↔
              HasRoom bps supply) := by
  intro s
  have hbps : s.minQuorumBps = bps := by
    obtain ⟨o', he⟩ := hi.effect_of hop
    change (run step Store.empty (xs ++ i :: is)).minQuorumBps = bps
    rw [run_append, run_cons]
    generalize step (run step Store.empty xs) i = s' at he
    cases he with
    | initializeContract => exact run_minQuorumBps rfl is
  have hroom : (∃ quorum : I128, 0 < quorum.val ∧ quorum.val ≤ supply.val ∧ s.FloorMet quorum supply) ↔
      HasRoom bps supply := by
    simp only [Store.floorMet_iff (Int.lt_of_lt_of_le zero_lt_one hsupply), hbps]
    constructor
    · rintro ⟨quorum, _, hle, hroom⟩
      exact hroom.imp_right fun ⟨hmax, hlt⟩ => ⟨hmax, by omega⟩
    · intro hroom
      exact ⟨supply, by omega, le_rfl, hroom⟩
  refine ⟨?_, fun env proposer title description duration link action h => ?_⟩
  · simp only [run_checkQuorumFloor_ok, and_true, hroom]
  · simp only [h.succeeds_iff, hroom]

end Room

/-- Anyone may propose, if the contract asks for no balance and no cooldown. -/
theorem mayPropose_signed {s : Store} (hready : s.Ready) (hactive : s.activeProposalCount.val < 50)
    (htoken : s.votingToken = some (.contract 3)) (hbalance : s.minProposalBalance.val = 0)
    (hcooldown : s.proposalCooldown.val = 0) (hcount : s.proposalCount.val < 18446744073709551615)
    (proposer : Address) :
    MayPropose s (signed (.lit 1) (.upgrade (.account 9) 0)).env () proposer [84] [68] (.lit 60) none (.lit 100) where
  auth := rfl
  ready := hready
  title := by decide
  description := by decide
  link := nofun
  lasts := by decide
  active := hactive
  supply := ⟨.contract 3, htoken, rfl, fun hpos => absurd hbalance hpos.ne'⟩
  cooldown hpos := absurd hcooldown hpos.ne'
  fits := ⟨by decide, hcount⟩

/-- The account `2` makes the next proposal. -/
theorem quorum_room_iff_opening :
    ∃ quorum, Succeeds (run step Store.empty opening)
      (signed (.lit 1) (.createProposal (.account 2) [84] [68] quorum (.lit 60) none none)) := by
  have hroom : MayPropose (run step Store.empty ([] ++ opening.head (by decide) :: opening.tail))
      (signed (.lit 1) (.upgrade (.account 9) 0)).env () (.account 2) [84] [68] (.lit 60) none (.lit 100) :=
    mayPropose_signed ⟨by decide, by decide⟩ (by decide) (by decide) (by decide) (by decide) (by decide) _
  exact ((quorum_room_iff rfl (by decide) (by decide) ()).2 _ _ _ _ _ _ none hroom).2 (by decide)

/-- The contract is initialised with a floor of twice the supply. -/
def excessive : List (Input Unit) :=
  [signed (.lit 0) (.initializeContract (.account 9) (.contract 3) (.lit 0) (.lit 0) (.lit 20000) false none)]

/-- No quorum up to the supply passes the check of the floor, and no proposal is made. -/
theorem no_room :
    (run step Store.empty excessive).contractState = .ready ∧
    (∀ quorum : I128, quorum.val ≤ 100 → ((checkQuorumFloor quorum (.lit 100)).run
      (⟨run step Store.empty excessive, ()⟩ : Ctx Store Unit)).1 ≠ .ok ()) ∧
    ∀ quorum, ¬Succeeds (run step Store.empty excessive)
      (signed (.lit 1) (.createProposal (.account 1) [84] [68] quorum (.lit 60) none none)) := by
  have hbps : (run step Store.empty excessive).minQuorumBps = .lit 20000 := by decide
  have hfloor {quorum : I128} (hle : quorum.val ≤ 100) :
      ¬(run step Store.empty excessive).FloorMet quorum (.lit 100) := by
    rw [Store.floorMet_iff (by decide), hbps]
    dsimp only
    omega
  have hroom : MayPropose (run step Store.empty excessive) (signed (.lit 1) (.upgrade (.account 9) 0)).env ()
      (.account 1) [84] [68] (.lit 60) none (.lit 100) :=
    mayPropose_signed ⟨by decide, by decide⟩ (by decide) (by decide) (by decide) (by decide) (by decide) _
  refine ⟨by decide, fun quorum hle hok => ?_, fun quorum hsucceeds => ?_⟩
  · exact hfloor hle (run_checkQuorumFloor_ok.1 (Prod.ext hok rfl)).1
  · obtain ⟨_, hle, hmet⟩ := (hroom.succeeds_iff none quorum).1 hsucceeds
    exact hfloor hle hmet

end CosmosVote.Governance
