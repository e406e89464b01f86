import CosmosVote.Governance.History

/-!
# The text that is voted on

The proposer may amend the title and the description of a proposal as long as nobody has
voted on it. What `amend_proposal` looks at is the sum of the tallies, which is positive
if there is any vote (`Effect.no_votes`).

* `text_integrity`: a vote was cast on the text that the proposal still has.
-/

namespace CosmosVote.Governance

open Soroban

variable {ω : Type}

/-- The title and the description are the same. -/
structure Proposal.SameTexts (p p' : Proposal) : Prop where
  title : p'.title = p.title
  description : p'.description = p.description

theorem Proposal.SameTexts.refl (p : Proposal) : p.SameTexts p := ⟨rfl, rfl⟩

theorem Proposal.SameTexts.trans {p q r : Proposal} (h : p.SameTexts q) (h' : q.SameTexts r) :
    p.SameTexts r where
  title := h'.title.trans h.title
  description := h'.description.trans h.description

variable {s s' : Store} {env : Env ω} {op : Op} {o o' : ω} {id : U64} {voter : Address} {p : Proposal}

/-- A proposal that is amended has no votes. -/
theorem Effect.no_votes (h : Effect env s o op s' o') (ht : TallyCorrespondence s)
    (hop : ∃ proposer title description, op = .amendProposal proposer id title description)
    (voter : Address) : s.voteRecords.lookup (id, voter) = none := by
  obtain ⟨proposer, title, description, rfl⟩ := hop
  cases h with
  | @amendProposal _ _ _ _ p total _ _ hp _ _ htotal hnone =>
    by_contra hsome
    obtain ⟨r, hr⟩ := Option.ne_none_iff_exists'.1 hsome
    -- The weight of the vote is positive, and part of one of the three tallies.
    have hpos := ht.weight_pos id voter r hr
    have hle := ht.weight_le hr
    rw [← ht.tally_eq id p hp] at hle
    have hnonneg (vote : Vote) : 0 ≤ (p.tally vote).val := by
      rw [ht.tally_eq id p hp]
      exact ht.recorded_nonneg id vote
    have hsum := Proposal.totalVotes_eq htotal
    have hyes := hnonneg .yes
    have hno := hnonneg .no
    have habstain := hnonneg .abstain
    simp only [Proposal.tally] at hyes hno habstain
    cases hvote : r.vote <;> rw [hvote] at hle <;> simp only [Proposal.tally] at hle <;> omega

/-- While there is a vote on a proposal, no call changes its text. -/
theorem Effect.sameTexts (h : Effect env s o op s' o') (hs : WellFormed s) (ht : TallyCorrespondence s)
    (hsome : (s.voteRecords.lookup (id, voter)).isSome) (hp : s.proposals.lookup id = some p) :
    ∃ p', s'.proposals.lookup id = some p' ∧ p.SameTexts p' := by
  obtain ⟨p', hp', hdisc⟩ := h.change.discipline hs hp
  rcases hdisc.texts with ⟨htitle, hdescription⟩ | ⟨hop, _⟩
  · exact ⟨p', hp', htitle, hdescription⟩
  · rw [h.no_votes ht hop voter] at hsome
    cases hsome

/-- Along a run in which a vote on a proposal stays recorded, its text stays the same. -/
theorem run_sameTexts (hs : WellFormed s) (ht : TallyCorrespondence s) {is : List (Input ω)}
    (hsome : ∀ zs, zs <+: is → ((run step s zs).voteRecords.lookup (id, voter)).isSome)
    (hp : s.proposals.lookup id = some p) :
    ∃ p', (run step s is).proposals.lookup id = some p' ∧ p.SameTexts p' := by
  refine (run_effects_of (I := fun t : Store => TallyCorrespondence t ∧
    ∃ p', t.proposals.lookup id = some p' ∧ p.SameTexts p')
    (.of_states (P := fun t : Store => (t.voteRecords.lookup (id, voter)).isSome) hsome) hs
    ⟨ht, p, hp, .refl p⟩ ?_).2
  rintro t i t' o hs hsome ⟨ht, q, hq, hpq⟩ he
  obtain ⟨q', hq', hqq'⟩ := he.sameTexts hs ht hsome hq
  exact ⟨ht.of_effect hs he, q', hq', hpq.trans hqq'⟩

/-- If a vote on a proposal stays recorded until the end of a run, the proposal has its last text ever
    since. -/
theorem exists_sameTexts {xs ws : List (Input ω)}
    (hsome : ∀ us, us <+: ws → ((run step Store.empty (xs ++ us)).voteRecords.lookup (id, voter)).isSome)
    (hp : (run step Store.empty (xs ++ ws)).proposals.lookup id = some p) :
    ∃ q, (run step Store.empty xs).proposals.lookup id = some q ∧ q.SameTexts p := by
  have hfirst := hsome [] List.nil_prefix
  rw [List.append_nil] at hfirst
  obtain ⟨q, hq⟩ := Option.isSome_iff_exists.1 ((run_correspondence xs).on_proposal id voter hfirst)
  obtain ⟨p', hp', htexts⟩ := run_sameTexts (run_wellFormed xs) (run_correspondence xs)
    (fun us hus => by rw [← run_append]; exact hsome us hus) hq
  rw [← run_append] at hp'
  obtain rfl := Option.some_inj.1 (hp.symm.trans hp')
  exact ⟨q, hq, htexts⟩

/-- The call that casts a vote does not change the text either. -/
theorem Casts.sameTexts {i : Input ω} {token : Address} {weight : I128} (h : Casts s i id voter token weight)
    (hs : WellFormed s) (hp : s.proposals.lookup id = some p) :
    ∃ p', (step s i).proposals.lookup id = some p' ∧ p.SameTexts p' := by
  obtain ⟨vote, hop⟩ := h.op_eq
  obtain ⟨o, he⟩ := h.succeeds.effect
  obtain ⟨p', hp', hdisc⟩ := he.change.discipline hs hp
  rcases hdisc.texts with ⟨htitle, hdescription⟩ | ⟨⟨_, _, _, hamend⟩, _⟩
  · exact ⟨p', hp', htitle, hdescription⟩
  · cases hop.symm.trans hamend

/-- In every reachable state:

    * a call that amends a proposal finds no vote on it;
    * while there is a vote on a proposal, no call changes its title or its description;
    * every vote was cast when the proposal had the title and the description that it has now, and has
      had since. -/
theorem text_integrity (is : List (Input ω)) (id : U64) :
    (∀ (i : Input ω) proposer title description, i.op = .amendProposal proposer id title description →
      Succeeds (run step Store.empty is) i → ∀ voter,
        (run step Store.empty is).voteRecords.lookup (id, voter) = none ∧
          (run step Store.empty is).voted id voter = false) ∧
    (∀ voter p, ((run step Store.empty is).voteRecords.lookup (id, voter)).isSome →
      (run step Store.empty is).proposals.lookup id = some p → ∀ i : Input ω,
        ∃ p', (step (run step Store.empty is) i).proposals.lookup id = some p' ∧ p.SameTexts p') ∧
    ∀ voter r p, (run step Store.empty is).voteRecords.lookup (id, voter) = some r →
      (run step Store.empty is).proposals.lookup id = some p →
      ∃ xs i ys token, is = xs ++ i :: ys ∧
        Casts (run step Store.empty xs) i id voter token r.weight ∧
        (∃ q, (run step Store.empty xs).proposals.lookup id = some q ∧ q.SameTexts p) ∧
        ∀ zs, zs <+: ys → ∃ q, (run step Store.empty (xs ++ i :: zs)).proposals.lookup id = some q ∧
          q.SameTexts p := by
  have hs := run_wellFormed is
  have ht := run_correspondence is
  refine ⟨fun i proposer title description hop hi voter => ?_, fun voter p hsome hp i => ?_,
    fun voter r p hr hp => ?_⟩
  · obtain ⟨o, he⟩ := hi.effect
    have hnone := he.no_votes ht ⟨proposer, title, description, hop⟩ voter
    refine ⟨hnone, Bool.eq_false_of_not_eq_true fun hvoted => ?_⟩
    rw [ht.voted_iff, hnone] at hvoted
    cases hvoted
  · exact step_invariant (I := fun t => ∃ p', t.proposals.lookup id = some p' ∧ p.SameTexts p')
      ⟨p, hp, .refl p⟩ fun _ _ he => he.sameTexts hs ht hsome hp
  · obtain ⟨xs, i, ys, token, rfl, hcasts, hafter⟩ :=
      exists_casts .empty .empty (Finmap.lookup_empty _) hr
    have hsame {zs : List (Input ω)} (hzs : zs <+: ys) :
        ∃ q, (run step Store.empty (xs ++ i :: zs)).proposals.lookup id = some q ∧ q.SameTexts p := by
      obtain ⟨ws, rfl⟩ := hzs
      have hsome (us : List (Input ω)) (hus : us <+: ws) :
          ((run step Store.empty (xs ++ i :: zs ++ us)).voteRecords.lookup (id, voter)).isSome := by
        obtain ⟨q, hq, _⟩ := hafter (zs ++ us) ((List.prefix_append_right_inj zs).2 hus)
        rw [List.append_assoc, List.cons_append, hq]
        rfl
      refine exists_sameTexts hsome ?_
      rwa [List.append_assoc, List.cons_append]
    refine ⟨xs, i, ys, token, rfl, hcasts, ?_, fun zs hzs => hsame hzs⟩
    obtain ⟨q, hq, _⟩ := hcasts.weighed
    obtain ⟨q', hq', hcast⟩ := hcasts.sameTexts (run_wellFormed xs) hq
    obtain ⟨q'', hq'', hrest⟩ := hsame List.nil_prefix
    rw [run_concat] at hq''
    obtain rfl := Option.some_inj.1 (hq'.symm.trans hq'')
    exact ⟨q, hq, hcast.trans hrest⟩

end CosmosVote.Governance
