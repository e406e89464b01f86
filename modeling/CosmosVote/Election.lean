import Mathlib.Algebra.BigOperators.Finprod
import Mathlib.Logic.Function.Basic

/-!
# Elections

What an election is, apart from how it is held. Questions are put to the vote, and everybody who is in the
register of a question has one ballot on it, as heavy as the register says, which they may hand in, change
and take back until the question closes. Then the ballots decide by a rule, and the chair carries out what
is accepted.

* `Question.Step`: what may happen to a question at a moment, and who has to sign for it;
* `Move`, `Path`: the same for all questions together, and along a sequence of moments;
* `Path.terms`: what a question is about does not change;
* `Path.closed`: after the close, neither do the ballots and the quorum, so that only one decision is left
  (`Question.Leads`).
-/

namespace Election

/-- How far a question has come. -/
inductive Phase
  | undecided
  | accepted
  | refused
  | carriedOut
  | withdrawn

/-- A question that is put to the people `V`, with the answers `C`, a text in `T` and a register in `L`. -/
structure Question (V C T L : Type*) where
  author : V
  text : T
  /-- The answer of each ballot, and its weight. -/
  ballots : V → Option (C × ℤ)
  quorum : ℤ
  opens : ℤ
  period : ℕ
  register : L
  phase : Phase

/-- What there is at a moment: the time, the register that is open, who has signed, and what a register
    weighs everybody by. -/
structure Moment (V L : Type*) where
  now : ℤ
  register : L
  signed : V → Prop
  weighs : V → L → Option ℤ

/-- Whether a question with this quorum is accepted, if its answers have these weights. -/
abbrev Rule (C : Type*) := ℤ → (C → ℤ) → Prop

variable {I V C T L : Type*}

/-- The chair, if there is one, has signed. -/
def Moment.BySign (m : Moment V L) (chair : Option V) : Prop := ∃ v, chair = some v ∧ m.signed v

/-- What a ballot adds to an answer. -/
def share [DecidableEq C] (c : C) (b : Option (C × ℤ)) : ℤ := b.elim 0 fun b => if b.1 = c then b.2 else 0

namespace Question

/-- The time at which a question closes. -/
def closes (q : Question V C T L) : ℤ := q.opens + q.period

/-- The weight of an answer. -/
noncomputable def count [DecidableEq C] (q : Question V C T L) (c : C) : ℤ := ∑ᶠ v, share c (q.ballots v)

/-- The ballots are for the question. -/
def Carried [DecidableEq C] (R : Rule C) (q : Question V C T L) : Prop := R q.quorum q.count

/-- Replace the ballot of `v`. -/
def setBallot [DecidableEq V] (q : Question V C T L) (v : V) (b : Option (C × ℤ)) : Question V C T L :=
  { q with ballots := Function.update q.ballots v b }

section Step

variable [DecidableEq V] [DecidableEq C]

/-- What may happen to a question at a moment. -/
inductive Step (R : Rule C) (chair : Option V) (m : Moment V L) (q : Question V C T L) :
    Question V C T L → Prop
  | amend (text : T) (hopen : q.phase = .undecided) (hnone : ∀ v, q.ballots v = none)
      (hsigned : m.signed q.author) : Step R chair m q { q with text := text }
  | cast {v : V} {w : ℤ} (c : C) (hopen : q.phase = .undecided) (hstart : q.opens ≤ m.now)
      (hend : m.now ≤ q.closes) (hsigned : m.signed v) (hnone : q.ballots v = none)
      (hweight : m.weighs v q.register = some w) (hpos : 0 < w) :
      Step R chair m q (q.setBallot v (some (c, w)))
  | change {v : V} {b : C × ℤ} (c : C) (hopen : q.phase = .undecided) (hend : m.now ≤ q.closes)
      (hsigned : m.signed v) (hb : q.ballots v = some b) (hne : b.1 ≠ c) :
      Step R chair m q (q.setBallot v (some (c, b.2)))
  | retract {v : V} {b : C × ℤ} (hopen : q.phase = .undecided) (hend : m.now ≤ q.closes)
      (hsigned : m.signed v) (hb : q.ballots v = some b) : Step R chair m q (q.setBallot v none)
  | adjust {quorum : ℤ} (hopen : q.phase = .undecided) (hend : m.now ≤ q.opens + q.period / 10)
      (hsigned : m.BySign chair) (hpos : 0 < quorum) : Step R chair m q { q with quorum := quorum }
  | accept (hopen : q.phase = .undecided) (hend : q.closes < m.now) (hcarried : q.Carried R) :
      Step R chair m q { q with phase := .accepted }
  | refuse (hopen : q.phase = .undecided) (hend : q.closes < m.now) (hcarried : ¬q.Carried R) :
      Step R chair m q { q with phase := .refused }
  | carryOut (haccepted : q.phase = .accepted) (hsigned : m.BySign chair) :
      Step R chair m q { q with phase := .carriedOut }
  | withdraw (hopen : q.phase = .undecided) (hsigned : m.BySign chair) :
      Step R chair m q { q with phase := .withdrawn }

end Step

/-- The questions are about the same: they have the same author, and the same register and time. -/
structure SameTerms (q q' : Question V C T L) : Prop where
  author : q'.author = q.author
  opens : q'.opens = q.opens
  period : q'.period = q.period
  register : q'.register = q.register

theorem SameTerms.refl (q : Question V C T L) : q.SameTerms q := ⟨rfl, rfl, rfl, rfl⟩

theorem SameTerms.trans {q q' q'' : Question V C T L} (h : q.SameTerms q') (h' : q'.SameTerms q'') :
    q.SameTerms q'' where
  author := h'.author.trans h.author
  opens := h'.opens.trans h.opens
  period := h'.period.trans h.period
  register := h'.register.trans h.register

theorem SameTerms.closes {q q' : Question V C T L} (h : q.SameTerms q') : q'.closes = q.closes := by
  rw [Question.closes, Question.closes, h.opens, h.period]

/-- How a question that is closed may go on, with nothing to be voted on any more: a phase it is in leads to
    these. -/
inductive Leads (carried : Prop) : Phase → Phase → Prop
  | refl (x : Phase) : Leads carried x x
  | accepted (h : carried) : Leads carried .undecided .accepted
  | refused (h : ¬carried) : Leads carried .undecided .refused
  | decided (h : carried) : Leads carried .undecided .carriedOut
  | withdrawn : Leads carried .undecided .withdrawn
  | carriedOut : Leads carried .accepted .carriedOut

theorem Leads.trans {carried : Prop} {x y z : Phase} (h : Leads carried x y) (h' : Leads carried y z) :
    Leads carried x z := by
  cases h' with
  | refl => exact h
  | carriedOut =>
    -- What is accepted was so before, or has been decided on.
    cases h with
    | refl => exact .carriedOut
    | accepted hcarried => exact .decided hcarried
  | _ => cases h; constructor <;> assumption

section Step

variable [DecidableEq C] {R : Rule C} {chair : Option V} {m : Moment V L} {q q' : Question V C T L}

/-- The same ballots decide in the same way. -/
theorem carried_congr (hballots : q'.ballots = q.ballots) (hquorum : q'.quorum = q.quorum) :
    q'.Carried R ↔ q.Carried R := by
  have hcount : q'.count = q.count := by
    funext c
    rw [count, count, hballots]
  rw [Carried, Carried, hcount, hquorum]

variable [DecidableEq V]

theorem Step.terms (h : q.Step R chair m q') : q.SameTerms q' := by
  cases h <;> exact ⟨rfl, rfl, rfl, rfl⟩

/-- At a moment after the close, only the phase of a question, and its text, may change. -/
theorem Step.closed (h : q.Step R chair m q') (hlate : q.closes < m.now) :
    q'.ballots = q.ballots ∧ q'.quorum = q.quorum ∧ Leads (q.Carried R) q.phase q'.phase := by
  cases h with
  | amend => exact ⟨rfl, rfl, .refl _⟩
  | cast _ _ _ hend => exact absurd hlate hend.not_gt
  | change _ _ hend => exact absurd hlate hend.not_gt
  | retract _ hend => exact absurd hlate hend.not_gt
  | adjust _ hend =>
    -- The quorum is fixed in the first tenth of the period.
    rw [closes] at hlate
    omega
  | accept hopen _ hcarried => exact ⟨rfl, rfl, hopen ▸ .accepted hcarried⟩
  | refuse hopen _ hcarried => exact ⟨rfl, rfl, hopen ▸ .refused hcarried⟩
  | carryOut haccepted => exact ⟨rfl, rfl, haccepted ▸ .carriedOut⟩
  | withdraw hopen => exact ⟨rfl, rfl, hopen ▸ .withdrawn⟩

end Step

end Question

/-! ## All questions together -/

/-- The chair, and the questions that have been put. -/
@[ext]
structure State (I V C T L : Type*) where
  chair : Option V
  questions : I → Option (Question V C T L)

/-- Nothing has been put to the vote, and there is no chair. -/
def State.initial : State I V C T L := ⟨none, fun _ => none⟩

section Moves

variable [DecidableEq I]

/-- Write a question. -/
def State.set (s : State I V C T L) (i : I) (q : Question V C T L) : State I V C T L :=
  { s with questions := Function.update s.questions i (some q) }

theorem State.questions_set (s : State I V C T L) (i j : I) (q : Question V C T L) :
    (s.set i q).questions j = if j = i then some q else s.questions j := Function.update_apply ..

variable [DecidableEq V] [DecidableEq C]

/-- What may happen at a moment: nothing, a new question, a step of one question, or a new chair. -/
inductive Move (R : Rule C) (m : Moment V L) (s : State I V C T L) : State I V C T L → Prop
  | rest : Move R m s s
  | put {i : I} {q : Question V C T L} (hnew : s.questions i = none) (hopen : q.phase = .undecided)
      (hnone : ∀ v, q.ballots v = none) (hsigned : m.signed q.author) (hpos : 0 < q.quorum)
      (hnow : q.opens = m.now) (hregister : q.register = m.register) : Move R m s (s.set i q)
  | act {i : I} {q q' : Question V C T L} (hq : s.questions i = some q)
      (hstep : q.Step R s.chair m q') : Move R m s (s.set i q')
  | appoint {v : V} (hnone : s.chair = none) : Move R m s { s with chair := some v }
  | handOver {v : V} (hsome : s.chair ≠ none) (hsigned : m.signed v) : Move R m s { s with chair := some v }

/-- What may happen at the moments `ms`, one after the other. -/
inductive Path (R : Rule C) : List (Moment V L) → State I V C T L → State I V C T L → Prop
  | nil (s : State I V C T L) : Path R [] s s
  | cons {m : Moment V L} {ms : List (Moment V L)} {s t u : State I V C T L} (hmove : Move R m s t)
      (hpath : Path R ms t u) : Path R (m :: ms) s u

variable {R : Rule C} {m : Moment V L} {ms : List (Moment V L)} {s t : State I V C T L} {i : I}
  {q : Question V C T L}

/-- A question stays as it is, or makes a step. -/
theorem Move.question (h : Move R m s t) (hq : s.questions i = some q) :
    ∃ q', t.questions i = some q' ∧ (q' = q ∨ q.Step R s.chair m q') := by
  cases h with
  | put hnew =>
    refine ⟨q, ?_, .inl rfl⟩
    rw [State.questions_set, if_neg, hq]
    -- A question that has been put is not put again.
    rintro rfl
    cases hnew.symm.trans hq
  | @act j p p' hp hstep =>
    by_cases hij : i = j
    · subst hij
      obtain rfl := Option.some_inj.1 (hp.symm.trans hq)
      exact ⟨p', by rw [State.questions_set, if_pos rfl], .inr hstep⟩
    · exact ⟨q, by rw [State.questions_set, if_neg hij, hq], .inl rfl⟩
  | _ => exact ⟨q, hq, .inl rfl⟩

/-- What a question is about never changes. -/
theorem Path.terms (h : Path R ms s t) (hq : s.questions i = some q) :
    ∃ q', t.questions i = some q' ∧ q.SameTerms q' := by
  induction h generalizing q with
  | nil => exact ⟨q, hq, .refl q⟩
  | cons hmove _ ih =>
    obtain ⟨q₁, hq₁, rfl | hstep⟩ := hmove.question hq
    · exact ih hq₁
    · obtain ⟨q', hq', hterms⟩ := ih hq₁
      exact ⟨q', hq', hstep.terms.trans hterms⟩

/-- At moments after the close, a question keeps its ballots and its quorum, and what these decide is the only
    decision there can be. -/
theorem Path.closed (h : Path R ms s t) (hq : s.questions i = some q) (hlate : ∀ m ∈ ms, q.closes < m.now) :
    ∃ q', t.questions i = some q' ∧ q.SameTerms q' ∧ q'.ballots = q.ballots ∧ q'.quorum = q.quorum ∧
      Question.Leads (q.Carried R) q.phase q'.phase := by
  induction h generalizing q with
  | nil => exact ⟨q, hq, .refl q, rfl, rfl, .refl _⟩
  | cons hmove _ ih =>
    rw [List.forall_mem_cons] at hlate
    obtain ⟨q₁, hq₁, rfl | hstep⟩ := hmove.question hq
    · exact ih hq₁ hlate.2
    · obtain ⟨hballots, hquorum, hleads⟩ := hstep.closed hlate.1
      obtain ⟨q', hq', hterms, hballots', hquorum', hleads'⟩ :=
        ih hq₁ fun m hm => hstep.terms.closes.symm ▸ hlate.2 m hm
      rw [Question.carried_congr hballots hquorum] at hleads'
      exact ⟨q', hq', hstep.terms.trans hterms, hballots'.trans hballots, hquorum'.trans hquorum,
        hleads.trans hleads'⟩

end Moves

end Election
