import CosmosVote.Soroban.Run

/-!
# Handing a role over

A role is held by one party, who can propose another one for it; it changes hands when the
one proposed accepts, unless the proposal has been replaced or withdrawn before. What is stored is
who holds the role and who is proposed (`Role`), not by whom, nor since when.

* `Role.Step`: what each act (`Act`) on a role asks for, and does;
* `HandsOver`: a step of a system acts on its role, and who acts has authorised it;
* `LastProposed`: the last act of a run is a proposal, and who made it has held the role
  ever since;
* `handed`: this is how every stored proposal came about, so that only such a one is ever accepted.
-/

namespace Soroban

variable {α σ κ : Type*}

/-- Who holds a role, and who is proposed for it. -/
structure Role (α : Type*) where
  holder : Option α
  pending : Option α

/-- What can be done to a role, and by whom. -/
inductive Act (α : Type*)
  | keep
  | assign (p : α)
  | propose (a p : α)
  | withdraw (a : α)
  | accept (p : α)

/-- Who acts. The first holder is not asked. -/
def Act.actor : Act α → Option α
  | .propose a _ => some a
  | .withdraw a => some a
  | .accept p => some p
  | _ => none

/-- The acts on a role: the holder proposes and withdraws, and who is proposed accepts. -/
inductive Role.Step : Role α → Act α → Role α → Prop
  | keep (r : Role α) : Step r .keep r
  | assign (p : α) (pending : Option α) : Step ⟨none, pending⟩ (.assign p) ⟨some p, pending⟩
  | propose (a p : α) (pending : Option α) : Step ⟨some a, pending⟩ (.propose a p) ⟨some a, some p⟩
  | withdraw (a p : α) : Step ⟨some a, some p⟩ (.withdraw a) ⟨some a, none⟩
  | accept (a p : α) : Step ⟨some a, some p⟩ (.accept p) ⟨some p, none⟩

/-- Someone is proposed only for a role that is held. -/
def Role.Held (r : Role α) : Prop := r.holder = none → r.pending = none

section Step

variable {r r' : Role α} {act : Act α}

theorem Role.Step.eq_of_keep (h : r.Step .keep r') : r' = r := by
  cases h with
  | keep => rfl

theorem Role.Step.held (h : r.Step act r') (hr : r.Held) : r'.Held := by
  cases h with
  | keep => exact hr
  | _ => exact nofun

/-- Only a proposal leaves someone proposed who was not, or was proposed by another. -/
theorem Role.Step.pending_eq (h : r.Step act r') (hr : r.Held) (hne : act ≠ .keep) {p : α}
    (hp : r'.pending = some p) : ∃ a, act = .propose a p ∧ r.holder = some a ∧ r'.holder = some a := by
  cases h with
  | keep => exact absurd rfl hne
  | assign =>
    -- Nobody holds the role, so nobody is proposed.
    cases (hr rfl).symm.trans hp
  | propose a q => exact ⟨a, by rw [Option.some_inj.1 hp], rfl, rfl⟩
  | withdraw => cases hp
  | accept => cases hp

/-- The role changes hands when it is accepted; before that, it is assigned. -/
theorem Role.Step.holder_eq (h : r.Step act r') (hne : r'.holder ≠ r.holder) :
    (r.holder = none ∧ ∃ p, act = .assign p) ∨ ∃ p, act = .accept p ∧ r'.holder = some p := by
  cases h with
  | assign p => exact .inl ⟨rfl, p, rfl⟩
  | accept _ p => exact .inr ⟨p, rfl, rfl⟩
  | _ => exact absurd rfl hne

/-- Who accepts a role has been proposed for it. -/
theorem Role.Step.pending_of_accept {p : α} (h : r.Step (.accept p) r') : r.pending = some p := by
  cases h with
  | accept => rfl

end Step

/-! ## Systems -/

variable (step : σ → κ → σ) (role : σ → Role α) (act : σ → κ → Act α) (auth : κ → α → Prop)

/-- The step acts on the role, and who acts has authorised it. -/
structure HandsOver (s : σ) (c : κ) : Prop where
  role : (role s).Step (act s c) (role (step s c))
  auth : ∀ a, (act s c).actor = some a → auth c a

/-- The run has come to `xs` when `a`, who holds the role, proposes `p` by the step `c`; in all that follows
    (`ys`), nothing else is done to the role, and it stays with `a`. -/
structure LastProposed (s : σ) (xs : List κ) (c : κ) (ys : List κ) (a p : α) : Prop where
  act_eq : act (run step s xs) c = .propose a p
  auth : auth c a
  holder : (role (run step s xs)).holder = some a
  holder_since : ∀ zs, zs <+: ys → (role (run step s (xs ++ c :: zs))).holder = some a
  quiet : Along step (fun t d => act t d = .keep) (run step s (xs ++ [c])) ys

/-- At the end of the run `cs`, the role is on its way in two steps: who is proposed, or accepts next, was
    proposed by who holds it now, and nothing has been done to it since. It changes hands only when it is
    accepted. -/
structure Handed (s : σ) (cs : List κ) : Prop where
  proposed : ∀ p, (role (run step s cs)).pending = some p →
    ∃ xs c ys a, cs = xs ++ c :: ys ∧ LastProposed step role act auth s xs c ys a p
  accepted : ∀ d p, act (run step s cs) d = .accept p → auth d p ∧
    ∃ xs c ys a, cs = xs ++ c :: ys ∧ LastProposed step role act auth s xs c ys a p
  changed : ∀ d, (role (step (run step s cs) d)).holder ≠ (role (run step s cs)).holder →
    ((role (run step s cs)).holder = none ∧ ∃ p, act (run step s cs) d = .assign p) ∨
      ∃ p, act (run step s cs) d = .accept p ∧ (role (step (run step s cs) d)).holder = some p

variable {step role act auth} {s : σ} {cs : List κ}

/-- A step that does nothing to the role needs no authority. -/
theorem HandsOver.keep {c : κ} (hact : act s c = .keep) (hrole : role (step s c) = role s) :
    HandsOver step role act auth s c := by
  refine ⟨?_, by rw [hact]; exact nofun⟩
  rw [hact, hrole]
  exact .keep _

/-- Without an act, the role stays as it is. -/
theorem run_keep (h : Along step (HandsOver step role act auth) s cs)
    (hkeep : Along step (fun t d => act t d = .keep) s cs) : role (run step s cs) = role s := by
  refine run_invariant_of (I := fun t => role t = role s) (fun t d hd ht => ?_) (h.and hkeep) rfl
  have hstep := hd.1.role
  rw [hd.2] at hstep
  rw [hstep.eq_of_keep, ht]

/-- Who is proposed at the end of a run was proposed by the last act of it. -/
theorem exists_lastProposed (h : Along step (HandsOver step role act auth) s cs)
    (hs : role s = ⟨none, none⟩) {p : α} (hp : (role (run step s cs)).pending = some p) :
    ∃ xs c ys a, cs = xs ++ c :: ys ∧ LastProposed step role act auth s xs c ys a p := by
  rcases along_not_or_exists_last step (fun t d => act t d ≠ .keep) s cs with
    hnone | ⟨xs, c, ys, rfl, hc, hnone⟩
  · rw [run_keep h (hnone.imp fun _ _ => not_not.1), hs] at hp
    cases hp
  · have hquiet := hnone.imp fun _ _ => not_not.1
    have hover : HandsOver step role act auth (run step s xs) c := h xs c ys rfl
    have hheld : (role (run step s xs)).Held :=
      run_invariant_of (I := fun t => (role t).Held) (fun _ _ hd ht => hd.role.held ht) h.left
        (by rw [hs]; exact fun _ => rfl)
    -- Since that act, the role has stayed as it left it.
    have hsince (zs : List κ) (hzs : zs <+: ys) :
        role (run step s (xs ++ c :: zs)) = role (step (run step s xs) c) := by
      obtain ⟨ws, rfl⟩ := hzs
      rw [List.append_cons] at h ⊢
      rw [run_append, run_keep (h.right.left) hquiet.left, run_concat]
    rw [hsince ys (List.prefix_refl ys)] at hp
    obtain ⟨a, hact, hbefore, hafter⟩ := hover.role.pending_eq hheld hc hp
    refine ⟨xs, c, ys, a, rfl, hact, hover.auth a (by rw [hact]; rfl), hbefore, fun zs hzs => ?_, hquiet⟩
    rw [hsince zs hzs, hafter]

/-- In a system that hands a role over in every step it makes, the role is handed over in two steps. -/
theorem handed (h : ∀ xs d, HandsOver step role act auth (run step s xs) d) (hs : role s = ⟨none, none⟩)
    (cs : List κ) : Handed step role act auth s cs where
  proposed _ hp := exists_lastProposed (fun xs d _ _ => h xs d) hs hp
  accepted d p hd := by
    have hover := h cs d
    have hrole := hover.role
    rw [hd] at hrole
    exact ⟨hover.auth p (by rw [hd]; rfl),
      exists_lastProposed (fun xs d _ _ => h xs d) hs hrole.pending_of_accept⟩
  changed d hne := (h cs d).role.holder_eq hne

end Soroban
