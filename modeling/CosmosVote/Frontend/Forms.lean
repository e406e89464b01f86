import CosmosVote.JavaScript.Number
import CosmosVote.Unicode.Length
import CosmosVote.Governance.Limit
import CosmosVote.Frontend.Amounts

/-!
# The forms for a proposal

Two forms check what is typed into them before a proposal is created: `validateAll` is the check of
`NewProposalForm`, and `fieldError` the one of `CreateProposalForm`, which then trims the texts and rounds the
numbers (`submittedArgs`). `create_proposal` checks its arguments again (`InputsOk`, `refused_of_not_inputsOk`).

* `textError_of_byteLength`: no text that is short enough for the contract is refused;
* `validateAll_eq_none_iff`, `fieldError_eq_none_iff`: the forms that are accepted;
* `forms_agree_iff`: what an accepted form gives to the contract passes the checks exactly if the texts, which the
  forms measure in code units, are short enough in bytes, and a quorum that is rounded is at least one half.
-/

namespace CosmosVote.Frontend

open Soroban Unicode JavaScript

/-! ## The contract -/

/-- What a form gives to `create_proposal`. -/
structure ProposalArgs where
  title : Text
  description : Text
  quorum : ℤ
  duration : ℤ
  deriving DecidableEq

/-- The checks of `create_proposal` on what a form gives to it. -/
structure InputsOk (args : ProposalArgs) : Prop where
  title : args.title ≠ [] ∧ args.title.length ≤ 128
  description : args.description ≠ [] ∧ args.description.length ≤ 1024
  quorum : 0 < args.quorum
  duration : 60 ≤ args.duration ∧ args.duration ≤ 2592000

section Contract

open Governance

variable {ω : Type} {env : Env ω} {s s' : Store} {o o' : ω} {proposer : Address} {title description : Text}
  {quorum : I128} {duration : U64} {link : Option Text} {action : Option TreasuryAction}

/-- A proposal is created only if its inputs pass the checks. -/
theorem InputsOk.of_effect
    (h : Effect env s o (.createProposal proposer title description quorum duration link action) s' o') :
    InputsOk ⟨title, description, quorum.val, duration.val⟩ := by
  cases h with
  | createProposal _ _ htitle hdescription _ hquorum hduration =>
    exact ⟨htitle, hdescription, hquorum, hduration⟩

/-- A proposal whose inputs do not pass the checks is refused for one of them. -/
theorem refused_of_not_inputsOk (hauth : env.auth proposer = true) (hready : s.Ready)
    (hlink : ∀ l ∈ link, l ≠ [] ∧ l.length ≤ 256)
    (h : ¬InputsOk ⟨title, description, quorum.val, duration.val⟩) :
    ∃ e ∈ [ContractError.invalidTitle, .invalidDescription, .invalidQuorum, .invalidDurationRange],
      (exec env (.createProposal proposer title description quorum duration link action)).run ⟨s, o⟩ =
        (.err e, ⟨s, o⟩) := by
  let c : Ctx Store ω := ⟨s, o⟩
  suffices hrefused : ∃ e ∈ [ContractError.invalidTitle, .invalidDescription, .invalidQuorum, .invalidDurationRange],
      (createProposal proposer title description quorum duration link action env).run c = (.err e, c) by
    obtain ⟨e, he, hrun⟩ := hrefused
    exact ⟨e, he, by rw [exec, Call.run_bind_of_err hrun]⟩
  have hcaller : (env.requireAuth proposer : GovernanceCall ω Unit).run c = (.ok (), c) :=
    env.run_requireAuth_ok.2 ⟨hauth, rfl⟩
  have hopen : assertReady.run c = (.ok (), c) := run_assertReady_ok.2 ⟨hready, rfl⟩
  rw [createProposal, Call.run_bind_of_ok hcaller, Call.run_bind_of_ok hopen]
  by_cases htitle : title.length = 0 ∨ 128 < title.length
  · exact ⟨_, by simp, Call.run_bind_of_err (Call.run_rejectIf_of htitle)⟩
  rw [Call.run_bind_of_ok (Call.run_rejectIf_of_not htitle)]
  by_cases hdescription : description.length = 0 ∨ 1024 < description.length
  · exact ⟨_, by simp, Call.run_bind_of_err (Call.run_rejectIf_of hdescription)⟩
  rw [Call.run_bind_of_ok (Call.run_rejectIf_of_not hdescription),
    Call.run_bind_of_ok (Call.run_rejectIf_of_not (link_not_rejected hlink))]
  by_cases hquorum : quorum.val ≤ 0
  · exact ⟨_, by simp, Call.run_bind_of_err (Call.run_rejectIf_of hquorum)⟩
  rw [Call.run_bind_of_ok (Call.run_rejectIf_of_not hquorum)]
  refine ⟨_, by simp, Call.run_bind_of_err (Call.run_rejectIf_of ?_)⟩
  by_contra hduration
  rw [List.length_eq_zero_iff, not_or, not_lt] at htitle hdescription
  exact h ⟨htitle, hdescription, by dsimp only; omega, by dsimp only; omega⟩

end Contract

/-! ## The forms -/

structure FormState where
  title : List Char
  description : List Char
  quorum : List Char
  duration : List Char

/-- The message for each field with an error. -/
structure FormErrors where
  title : Option String := none
  description : Option String := none
  quorum : Option String := none
  duration : Option String := none
  deriving DecidableEq

/-- The check that both forms make on both texts. -/
def textError (label : String) (max : ℕ) (value : List Char) : Option String :=
  if trim value = [] then some (label ++ " is required.")
  else if max < unitLength value then some (label ++ " must be ≤ " ++ toString max ++ " characters.")
  else none

/-- `n.toLocaleString()` -/
def toLocaleString (n : ℕ) : String := String.ofList (groupThousands none (Nat.toDigits 10 n))

namespace NewProposalForm

def titleMax : ℕ := 128

def descMax : ℕ := 1024

def durationMin : ℕ := 60

def durationMax : ℕ := 2592000

inductive FieldName
  | title
  | description
  | quorum
  | duration

def validateField (name : FieldName) (value : List Char) : Option String :=
  match name with
  | .title => textError "Title" titleMax value
  | .description => textError "Description" descMax value
  | .quorum =>
    if trim value = [] then some "Quorum is required."
    else
      let q := Number.ofString value
      if q.isNaN ∨ ¬q.isInteger ∨ q.le (.finite 0) then some "Quorum must be a positive whole number." else none
  | .duration =>
    if trim value = [] then some "Duration is required."
    else
      let d := Number.ofString value
      if d.isNaN ∨ ¬d.isInteger ∨ d.lt (.finite durationMin) ∨ (Number.finite durationMax).lt d then
        some ("Duration must be " ++ toLocaleString durationMin ++ "–" ++ toLocaleString durationMax ++ " seconds.")
      else none

def validateAll (form : FormState) : FormErrors where
  title := validateField .title form.title
  description := validateField .description form.description
  quorum := validateField .quorum form.quorum
  duration := validateField .duration form.duration

/-- The form as it is, if the numbers are integers. -/
def rawArgs (form : FormState) : Option ProposalArgs :=
  (Number.ofString form.quorum).toBigInt.bind fun quorum =>
    (Number.ofString form.duration).toBigInt.map fun duration =>
      ⟨encode form.title, encode form.description, quorum, duration⟩

end NewProposalForm

namespace CreateProposalForm

def fieldError (form : FormState) : FormErrors :=
  let q := Number.ofString form.quorum
  let d := Number.ofString form.duration
  { title := textError "Title" 128 form.title
    description := textError "Description" 1024 form.description
    quorum := if form.quorum = [] ∨ q.isNaN ∨ q.le (.finite 0) then some "Quorum must be a positive number." else none
    duration :=
      if form.duration = [] ∨ d.isNaN ∨ d.lt (.finite 60) ∨ (Number.finite 2592000).lt d then
        some "Duration must be between 60 seconds and 30 days."
      else none }

/-- The arguments that are submitted, if `BigInt` does not throw. -/
def submittedArgs (form : FormState) : Option ProposalArgs :=
  (Number.ofString form.quorum).round.toBigInt.bind fun quorum =>
    (Number.ofString form.duration).round.toBigInt.map fun duration =>
      ⟨encode (trim form.title), encode (trim form.description), quorum, duration⟩

end CreateProposalForm

open NewProposalForm CreateProposalForm

example : validateAll ⟨" Rewards".toList, "More of them.".toList, "1e3".toList, "86400".toList⟩ = {} ∧
    fieldError ⟨" Rewards".toList, "More of them.".toList, "1e3".toList, "86400".toList⟩ = {} := by
  decide +kernel

/-! ## The forms that are accepted -/

variable {form : FormState}

theorem ite_some_eq_none {c : Prop} [Decidable c] {message : String} {rest : Option String} :
    (if c then some message else rest) = none ↔ ¬c ∧ rest = none := by
  split <;> simp [*]

theorem textError_eq_none {label : String} {max : ℕ} {value : List Char} :
    textError label max value = none ↔ trim value ≠ [] ∧ unitLength value ≤ max := by
  simp only [textError, ite_some_eq_none, not_lt, and_true, ne_eq]

/-- The forms do not refuse a text that is short enough for the contract. -/
theorem textError_of_byteLength {label : String} {max : ℕ} {value : List Char} (hne : trim value ≠ [])
    (h : byteLength value ≤ max) : textError label max value = none :=
  textError_eq_none.2 ⟨hne, (unitLength_le_byteLength value).trans h⟩

/-- A text that stands for a number above zero is not empty. -/
theorem trim_ne_nil {value : List Char} {q : ℚ} (hvalue : Number.ofString value = .finite q) (hq : 0 < q) :
    trim value ≠ [] := by
  intro h
  rw [Number.ofString, if_pos h, Number.finite.injEq] at hvalue
  exact hq.ne hvalue

theorem validateField_quorum_eq_none {value : List Char} :
    validateField .quorum value = none ↔ ∃ q : ℤ, Number.ofString value = .finite q ∧ 0 < q := by
  simp only [validateField, ite_some_eq_none, Number.positive_integer_iff, and_true]
  exact and_iff_right_of_imp fun h => h.elim fun q hq => trim_ne_nil hq.1 (Int.cast_pos.2 hq.2)

theorem validateField_duration_eq_none {value : List Char} :
    validateField .duration value = none ↔
      ∃ d : ℤ, Number.ofString value = .finite d ∧ 60 ≤ d ∧ d ≤ 2592000 := by
  have hbounds : (durationMin : ℚ) = (60 : ℤ) ∧ (durationMax : ℚ) = (2592000 : ℤ) :=
    ⟨by norm_num [durationMin], by norm_num [durationMax]⟩
  simp only [validateField, ite_some_eq_none, hbounds, Number.within_integer_iff, and_true]
  refine and_iff_right_of_imp fun h => ?_
  obtain ⟨d, hvalue, hd, _⟩ := h
  exact trim_ne_nil hvalue (Int.cast_pos.2 (by omega))

/-- The forms that `NewProposalForm` accepts. -/
theorem validateAll_eq_none_iff :
    validateAll form = {} ↔
      (trim form.title ≠ [] ∧ unitLength form.title ≤ 128) ∧
      (trim form.description ≠ [] ∧ unitLength form.description ≤ 1024) ∧
      (∃ q : ℤ, Number.ofString form.quorum = .finite q ∧ 0 < q) ∧
      ∃ d : ℤ, Number.ofString form.duration = .finite d ∧ 60 ≤ d ∧ d ≤ 2592000 := by
  rw [validateAll, FormErrors.mk.injEq, validateField_quorum_eq_none, validateField_duration_eq_none]
  exact and_congr textError_eq_none (and_congr textError_eq_none Iff.rfl)

/-- The forms that `CreateProposalForm` accepts. -/
theorem fieldError_eq_none_iff :
    fieldError form = {} ↔
      (trim form.title ≠ [] ∧ unitLength form.title ≤ 128) ∧
      (trim form.description ≠ [] ∧ unitLength form.description ≤ 1024) ∧
      (Number.ofString form.quorum = .infinity false ∨ ∃ q, Number.ofString form.quorum = .finite q ∧ 0 < q) ∧
      ∃ d, Number.ofString form.duration = .finite d ∧ 60 ≤ d ∧ d ≤ 2592000 := by
  rw [fieldError, FormErrors.mk.injEq, textError_eq_none, textError_eq_none, ite_some_eq_none, ite_some_eq_none,
    not_or, Number.positive_iff, not_or, Number.within_iff, and_iff_left rfl, and_iff_left rfl]
  refine and_congr Iff.rfl (and_congr Iff.rfl (and_congr ?_ ?_)) <;> refine and_iff_right_of_imp fun h hempty => ?_
  · rw [hempty, Number.ofString_nil] at h
    simp at h
  · rw [hempty, Number.ofString_nil] at h
    obtain ⟨d, hd, hlow, _⟩ := h
    rw [← Number.finite.inj hd] at hlow
    norm_num at hlow

/-! ## What the contract is given -/

theorem encode_ne_nil {value : List Char} : encode value ≠ [] ↔ value ≠ [] := by
  rw [ne_eq, ne_eq, ← List.length_eq_zero_iff, length_encode, byteLength_eq_zero]

theorem inputsOk_iff {title description : List Char} {quorum duration : ℤ} (htitle : title ≠ [])
    (hdescription : description ≠ []) (hquorum : 0 < quorum) (hduration : 60 ≤ duration ∧ duration ≤ 2592000) :
    InputsOk ⟨encode title, encode description, quorum, duration⟩ ↔
      byteLength title ≤ 128 ∧ byteLength description ≤ 1024 := by
  rw [← length_encode, ← length_encode]
  exact ⟨fun h => ⟨h.title.2, h.description.2⟩, fun h =>
    ⟨⟨encode_ne_nil.2 htitle, h.1⟩, ⟨encode_ne_nil.2 hdescription, h.2⟩, hquorum, hduration⟩⟩

theorem rawArgs_inputsOk_iff (h : validateAll form = {}) :
    (∃ args, rawArgs form = some args ∧ InputsOk args) ↔
      byteLength form.title ≤ 128 ∧ byteLength form.description ≤ 1024 := by
  obtain ⟨⟨htitle, _⟩, ⟨hdescription, _⟩, ⟨q, hquorum, hq⟩, d, hduration, hd⟩ := validateAll_eq_none_iff.1 h
  have hraw : rawArgs form = some ⟨encode form.title, encode form.description, q, d⟩ := by
    rw [rawArgs, hquorum, hduration]
    rfl
  rw [hraw]
  simp only [Option.some.injEq, exists_eq_left']
  exact inputsOk_iff (fun h => htitle (by rw [h, trim_nil])) (fun h => hdescription (by rw [h, trim_nil])) hq hd

/-- Only a quorum that is infinite is not submitted. -/
theorem submittedArgs_eq_none_iff (h : fieldError form = {}) :
    submittedArgs form = none ↔ Number.ofString form.quorum = .infinity false := by
  obtain ⟨_, _, hquorum, d, hduration, _⟩ := fieldError_eq_none_iff.1 h
  rw [submittedArgs, hduration]
  rcases hquorum with hquorum | ⟨q, hquorum, _⟩
  · exact iff_of_true (by rw [hquorum]; rfl) hquorum
  · rw [hquorum]
    exact iff_of_false (by simp) (by simp)

theorem submittedArgs_inputsOk_iff (h : fieldError form = {}) :
    (∀ args, submittedArgs form = some args → InputsOk args) ↔
      Number.ofString form.quorum = .infinity false ∨
        (Number.ofString form.quorum).lt (.finite (1 / 2)) = false ∧
          byteLength (trim form.title) ≤ 128 ∧ byteLength (trim form.description) ≤ 1024 := by
  have hnone := submittedArgs_eq_none_iff h
  obtain ⟨⟨htitle, _⟩, ⟨hdescription, _⟩, hquorum, d, hduration, hlow, hhigh⟩ := fieldError_eq_none_iff.1 h
  rcases hquorum with hquorum | ⟨q, hquorum, hq⟩
  · rw [hnone.2 hquorum]
    exact iff_of_true (fun args hargs => absurd hargs (Option.some_ne_none args).symm) (.inl hquorum)
  · have hsubmitted : submittedArgs form =
        some ⟨encode (trim form.title), encode (trim form.description), ⌊q + 1 / 2⌋, ⌊d + 1 / 2⌋⟩ := by
      rw [submittedArgs, hquorum, hduration]
      rfl
    have hd := Number.round_mem (a := 60) (b := 2592000) (by exact_mod_cast hlow) (by exact_mod_cast hhigh)
    rw [hsubmitted, hquorum]
    simp only [Option.some.injEq, forall_eq', reduceCtorEq, false_or, Number.finite_lt, decide_eq_false_iff_not,
      not_lt]
    constructor
    · intro hok
      exact ⟨Number.round_pos_iff.1 hok.quorum, (inputsOk_iff htitle hdescription hok.quorum hd).1 hok⟩
    · rintro ⟨hhalf, hsizes⟩
      exact (inputsOk_iff htitle hdescription (Number.round_pos_iff.2 hhalf) hd).2 hsizes

/-- What the forms accept passes the checks of the contract:

    * of `NewProposalForm`, if the title has at most 128 bytes, and the description at most 1024;
    * of `CreateProposalForm`, if that is so of the trimmed texts, and the quorum is at least one half. If it is
      infinite, nothing is submitted. -/
theorem forms_agree_iff (form : FormState) :
    (validateAll form = {} →
      ((∃ args, rawArgs form = some args ∧ InputsOk args) ↔
        byteLength form.title ≤ 128 ∧ byteLength form.description ≤ 1024)) ∧
    (fieldError form = {} →
      ((∀ args, submittedArgs form = some args → InputsOk args) ↔
        Number.ofString form.quorum = .infinity false ∨
          (Number.ofString form.quorum).lt (.finite (1 / 2)) = false ∧
            byteLength (trim form.title) ≤ 128 ∧ byteLength (trim form.description) ≤ 1024) ∧
      (submittedArgs form = none ↔ Number.ofString form.quorum = .infinity false)) :=
  ⟨rawArgs_inputsOk_iff, fun h => ⟨submittedArgs_inputsOk_iff h, submittedArgs_eq_none_iff h⟩⟩

/-- Both forms accept a title of 128 characters that has 256 bytes, and `CreateProposalForm` accepts a quorum that
    it rounds to zero. -/
theorem forms_disagree :
    (∃ args, validateAll ⟨List.replicate 128 'é', "d".toList, "10".toList, "60".toList⟩ = {} ∧
      rawArgs ⟨List.replicate 128 'é', "d".toList, "10".toList, "60".toList⟩ = some args ∧
      args.title.length = 256 ∧ ¬InputsOk args) ∧
    (∃ args, fieldError ⟨List.replicate 128 'é', "d".toList, "10".toList, "60".toList⟩ = {} ∧
      submittedArgs ⟨List.replicate 128 'é', "d".toList, "10".toList, "60".toList⟩ = some args ∧
      args.title.length = 256 ∧ ¬InputsOk args) ∧
    ∃ args, fieldError ⟨"t".toList, "d".toList, "0.4".toList, "60".toList⟩ = {} ∧
      submittedArgs ⟨"t".toList, "d".toList, "0.4".toList, "60".toList⟩ = some args ∧ args.quorum = 0 ∧
      ¬InputsOk args := by
  have hlong : (encode (List.replicate 128 'é')).length = 256 := by decide +kernel
  refine ⟨⟨⟨encode (List.replicate 128 'é'), encode "d".toList, 10, 60⟩, ?_, ?_, hlong, fun h => ?_⟩,
    ⟨⟨encode (List.replicate 128 'é'), encode "d".toList, 10, 60⟩, ?_, ?_, hlong, fun h => ?_⟩,
    ⟨encode "t".toList, encode "d".toList, 0, 60⟩, ?_, ?_, rfl, fun h => absurd h.quorum (by decide)⟩
  all_goals first | decide +kernel | exact absurd h.title.2 (by rw [hlong]; decide)

end CosmosVote.Frontend
