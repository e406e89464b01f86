import Mathlib.Algebra.Order.Field.Rat
import Mathlib.Tactic.Positivity
import CosmosVote.Unicode.Numeral

/-!
# Amounts of tokens

`formatTokenAmount` writes an amount, given in the smallest unit, in whole tokens with two decimals. It works on
the numeral alone: it pads it with zeros, cuts it before the decimals, and puts a comma before every place with
a multiple of three digits behind it.

* `formatTokenAmount_exact`: the whole tokens are those of the amount, in groups of three digits, and the decimals
  are its first two, so that what is displayed is the amount, rounded down to a hundredth.
-/

namespace CosmosVote.Frontend

open Unicode

/-! ## The regular expression -/

/-- A character that `\w` matches. -/
def isWordChar (c : Char) : Bool := c.isAlphanum || c == '_'

/-- `\B`, between two characters or at an end of the text. -/
def notWordBoundary (before after : Option Char) : Bool := before.any isWordChar == after.any isWordChar

/-- `(\d{3})+(?!\d)`, with the group taken `k` times. -/
def matchesThrees (k : ℕ) (s : List Char) : Bool :=
  3 * k ≤ s.length && (s.take (3 * k)).all Char.isDigit && !(s.drop (3 * k)).head?.any Char.isDigit

/-- `(?=(\d{3})+(?!\d))` -/
def threesAhead (s : List Char) : Bool := (List.range s.length).any fun k => matchesThrees (k + 1) s

/-- `s.replace(/\B(?=(\d{3})+(?!\d))/g, ',')`, from a place with the character `before` in front of it. At the
    end of the text, nothing is ahead. -/
def groupThousands (before : Option Char) : List Char → List Char
  | [] => []
  | c :: s =>
    let rest := c :: groupThousands (some c) s
    if notWordBoundary before (some c) && threesAhead (c :: s) then ',' :: rest else rest

/-! ## The amount -/

/-- `s.slice(0, -n)`, for a positive `n`. -/
def dropLast (n : ℕ) (s : List Char) : List Char := s.take (s.length - n)

/-- `s.slice(-n)`, for a positive `n`. -/
def takeLast (n : ℕ) (s : List Char) : List Char := s.drop (s.length - n)

def formatTokenAmount (amount decimals : ℕ) : List Char :=
  let str := Nat.toDigits 10 amount
  if decimals = 0 then groupThousands none str
  else
    let padded := padStart (decimals + 1) '0' str
    let intPart := groupThousands none (dropLast decimals padded)
    let fracPart := padEnd 2 '0' ((takeLast decimals padded).take 2)
    intPart ++ '.' :: fracPart ++ " CVT".toList

/-- The text `s` with commas in it, that split it into groups of three characters from the right. -/
def Grouped (s out : List Char) : Prop :=
  ∃ (first : List Char) (groups : List (List Char)),
    s = first ++ groups.flatten ∧ out = first ++ groups.flatMap (',' :: ·) ∧
      1 ≤ first.length ∧ first.length ≤ 3 ∧ ∀ g ∈ groups, g.length = 3

/-- The number that a text of digits with commas, a point and decimals stands for. -/
def displayed (out : List Char) : ℚ :=
  Nat.ofDigitChars 10 ((out.takeWhile fun c => c ≠ '.').filter Char.isDigit) 0 +
    Nat.ofDigitChars 10 ((out.dropWhile fun c => c ≠ '.').filter Char.isDigit) 0 / 100

example : formatTokenAmount 1234500 4 = "123.45 CVT".toList := by decide

example : formatTokenAmount 1234567 0 = "1,234,567".toList := by decide

/-! ## Groups -/

variable {s out : List Char}

theorem isWordChar_of_isDigit {c : Char} (h : c.isDigit = true) : isWordChar c = true := by
  rw [isWordChar, Char.isAlphanum, h, Bool.or_true, Bool.true_or]

theorem matchesThrees_iff (hs : ∀ c ∈ s, c.isDigit = true) (k : ℕ) :
    matchesThrees k s = true ↔ 3 * k = s.length := by
  have htake : (s.take (3 * k)).all Char.isDigit = true :=
    List.all_eq_true.2 fun c hc => hs c (List.mem_of_mem_take hc)
  have hdrop : (s.drop (3 * k)).head?.any Char.isDigit = true ↔ 3 * k < s.length := by
    cases h : s.drop (3 * k) with
    | nil => simpa using h
    | cons c rest =>
      have hc : c ∈ s := List.mem_of_mem_drop (h ▸ List.mem_cons_self)
      have hlength := congrArg List.length h
      rw [List.length_drop, List.length_cons] at hlength
      exact iff_of_true (hs c hc) (by omega)
  rw [matchesThrees, htake, Bool.and_true, Bool.and_eq_true, decide_eq_true_iff, Bool.not_eq_true', ← Bool.not_eq_true,
    hdrop]
  omega

/-- Of a text of digits, a multiple of three is ahead if that is its length. -/
theorem threesAhead_iff (hs : ∀ c ∈ s, c.isDigit = true) (hne : s ≠ []) : threesAhead s = true ↔ 3 ∣ s.length := by
  have hpos := List.length_pos_iff.2 hne
  simp only [threesAhead, List.any_eq_true, List.mem_range, matchesThrees_iff hs]
  constructor
  · rintro ⟨k, _, hk⟩
    exact ⟨k + 1, hk.symm⟩
  · rintro ⟨k, hk⟩
    exact ⟨k - 1, by omega, by omega⟩

/-- A digit behind a digit has a comma before it if a multiple of three is ahead. -/
theorem groupThousands_cons {c d : Char} (hd : d.isDigit = true) (hs : ∀ x ∈ c :: s, x.isDigit = true) :
    groupThousands (some d) (c :: s) =
      if 3 ∣ s.length + 1 then ',' :: c :: groupThousands (some c) s else c :: groupThousands (some c) s := by
  have hboundary : notWordBoundary (some d) (some c) = true := by
    rw [notWordBoundary, Option.any_some, Option.any_some, isWordChar_of_isDigit hd,
      isWordChar_of_isDigit (hs c List.mem_cons_self)]
    rfl
  have hahead := threesAhead_iff hs (List.cons_ne_nil c s)
  rw [List.length_cons] at hahead
  rw [groupThousands, hboundary, Bool.true_and]
  simp only [hahead]

/-- The first digit has no comma before it. -/
theorem groupThousands_first {c : Char} (hc : c.isDigit = true) :
    groupThousands none (c :: s) = c :: groupThousands (some c) s := by
  have hboundary : notWordBoundary none (some c) = false := by
    rw [notWordBoundary, Option.any_some, Option.any_none, isWordChar_of_isDigit hc]
    rfl
  rw [groupThousands, hboundary, Bool.false_and, if_neg Bool.false_ne_true]

/-- Behind a digit, a multiple of three digits is split into groups with a comma before each. -/
theorem groupThousands_groups {d : Char} (hd : d.isDigit = true) (hs : ∀ c ∈ s, c.isDigit = true) {k : ℕ}
    (hk : s.length = 3 * k) :
    ∃ groups : List (List Char), s = groups.flatten ∧ groupThousands (some d) s = groups.flatMap (',' :: ·) ∧
      ∀ g ∈ groups, g.length = 3 := by
  induction k generalizing s d with
  | zero =>
    obtain rfl := List.length_eq_zero_iff.1 hk
    exact ⟨[], rfl, rfl, by simp⟩
  | succ k ih =>
    match s, hk, hs with
    | x :: y :: z :: s, hk, hs =>
      have hlength : s.length = 3 * k := by
        simp only [List.length_cons] at hk
        omega
      have hx := hs x (by simp)
      have hy := hs y (by simp)
      have hz := hs z (by simp)
      have hrest : ∀ c ∈ s, c.isDigit = true := fun c hc => hs c (by simp [hc])
      obtain ⟨groups, hflatten, hgroups, hthree⟩ := ih hz hrest hlength
      refine ⟨[x, y, z] :: groups, by simp [hflatten], ?_, by simpa using hthree⟩
      rw [groupThousands_cons hd hs, if_pos (by simp only [List.length_cons]; omega),
        groupThousands_cons hx (fun c hc => hs c (List.mem_cons_of_mem x hc)),
        if_neg (by simp only [List.length_cons]; omega),
        groupThousands_cons hy (fun c hc => hs c (List.mem_cons_of_mem x (List.mem_cons_of_mem y hc))),
        if_neg (by omega), hgroups]
      rfl

/-- A numeral is split into groups of three digits from the right. -/
theorem grouped_groupThousands (hs : ∀ c ∈ s, c.isDigit = true) (hne : s ≠ []) :
    Grouped s (groupThousands none s) := by
  obtain ⟨c, s, rfl⟩ := List.exists_cons_of_ne_nil hne
  have hc := hs c List.mem_cons_self
  rw [groupThousands_first hc]
  -- By the number of digits in the first group.
  obtain hmod | hmod | hmod : s.length % 3 = 0 ∨ s.length % 3 = 1 ∨ s.length % 3 = 2 := by omega
  · obtain ⟨groups, hflatten, hgroups, hthree⟩ := groupThousands_groups hc
      (fun x hx => hs x (List.mem_cons_of_mem c hx)) (k := s.length / 3) (by omega)
    exact ⟨[c], groups, by rw [← hflatten]; rfl, by rw [hgroups]; rfl, by simp, by simp, hthree⟩
  · obtain ⟨x, s, rfl⟩ := List.exists_cons_of_length_pos (show 0 < s.length by omega)
    rw [List.length_cons] at hmod
    have hrest : ∀ y ∈ x :: s, y.isDigit = true := fun y hy => hs y (List.mem_cons_of_mem c hy)
    obtain ⟨groups, hflatten, hgroups, hthree⟩ := groupThousands_groups (hrest x List.mem_cons_self)
      (fun y hy => hrest y (List.mem_cons_of_mem x hy)) (k := s.length / 3) (by omega)
    rw [groupThousands_cons hc hrest, if_neg (by omega)]
    exact ⟨[c, x], groups, by rw [← hflatten]; rfl, by rw [hgroups]; rfl, by simp, by simp, hthree⟩
  · obtain ⟨x, s, rfl⟩ := List.exists_cons_of_length_pos (show 0 < s.length by omega)
    rw [List.length_cons] at hmod
    obtain ⟨y, s, rfl⟩ := List.exists_cons_of_length_pos (show 0 < s.length by omega)
    rw [List.length_cons] at hmod
    have hrest : ∀ z ∈ x :: y :: s, z.isDigit = true := fun z hz => hs z (List.mem_cons_of_mem c hz)
    have hrest' : ∀ z ∈ y :: s, z.isDigit = true := fun z hz => hrest z (List.mem_cons_of_mem x hz)
    obtain ⟨groups, hflatten, hgroups, hthree⟩ := groupThousands_groups (hrest' y List.mem_cons_self)
      (fun z hz => hrest' z (List.mem_cons_of_mem y hz)) (k := s.length / 3) (by omega)
    rw [groupThousands_cons hc hrest, if_neg (by rw [List.length_cons]; omega),
      groupThousands_cons (hrest x List.mem_cons_self) hrest', if_neg (by omega)]
    exact ⟨[c, x, y], groups, by rw [← hflatten]; rfl, by rw [hgroups]; rfl, by simp, by simp, hthree⟩

/-- Whatever a text of digits is grouped to, it is what is left without commas, or of digits. -/
theorem Grouped.filter {p : Char → Bool} (h : Grouped s out) (hs : ∀ c ∈ s, p c = true) (hcomma : p ',' = false) :
    out.filter p = s := by
  obtain ⟨first, groups, rfl, rfl, _, _, _⟩ := h
  rw [List.filter_append, List.filter_eq_self.2 fun c hc => hs c (List.mem_append_left _ hc),
    List.append_cancel_left_eq]
  have hgroups : ∀ g ∈ groups, ∀ c ∈ g, p c = true := fun g hg c hc =>
    hs c (List.mem_append_right _ (List.mem_flatten.2 ⟨g, hg, hc⟩))
  rw [List.filter_flatMap, List.flatten_eq_flatMap]
  refine List.flatMap_congr fun g hg => ?_
  rw [List.filter_cons_of_neg (by rw [hcomma]; exact Bool.false_ne_true), List.filter_eq_self.2 (hgroups g hg)]
  rfl

theorem Grouped.mem {c : Char} (h : Grouped s out) (hc : c ∈ out) : c = ',' ∨ c ∈ s := by
  obtain ⟨first, groups, rfl, rfl, _, _, _⟩ := h
  rcases List.mem_append.1 hc with hc | hc
  · exact .inr (List.mem_append_left _ hc)
  · obtain ⟨g, hg, hc⟩ := List.mem_flatMap.1 hc
    exact (List.mem_cons.1 hc).imp_right fun hc => List.mem_append_right _ (List.mem_flatten.2 ⟨g, hg, hc⟩)

/-! ## Decimals -/

/-- The first two of the last digits, with a zero if there is only one. -/
theorem fracPart_eq {d : ℕ} (hd : 1 ≤ d) (a : ℕ) :
    padEnd 2 '0' ((fixedDigits d a).take 2) = fixedDigits 2 (a * 100 / 10 ^ d) := by
  obtain rfl | ⟨m, rfl⟩ : d = 1 ∨ ∃ m, d = 2 + m := by
    rcases Nat.eq_or_lt_of_le hd with h | h
    · exact .inl h.symm
    · exact .inr ⟨d - 2, by omega⟩
  · have hquotient : a * 100 / 10 ^ 1 = a * 10 := by omega
    have hdigits : fixedDigits 2 (a * 10) = fixedDigits 1 a ++ ['0'] := by
      rw [fixedDigits, show a * 10 / 10 = a by omega, show a * 10 % 10 = 0 by omega]
      rfl
    rw [hquotient, hdigits]
    rfl
  · have hquotient : a * 100 / 10 ^ (2 + m) = a / 10 ^ m := by
      rw [pow_add, mul_comm a]
      exact Nat.mul_div_mul_left a (10 ^ m) (show 0 < 100 by decide)
    rw [take_fixedDigits, hquotient, padEnd, length_fixedDigits]
    exact List.append_nil _

theorem formatTokenAmount_zero (a : ℕ) : formatTokenAmount a 0 = groupThousands none (Nat.toDigits 10 a) := by
  rw [formatTokenAmount]
  exact if_pos rfl

/-- What is written of an amount. -/
theorem formatTokenAmount_eq {d : ℕ} (hd : 1 ≤ d) (a : ℕ) :
    formatTokenAmount a d = groupThousands none (Nat.toDigits 10 (a / 10 ^ d)) ++
      '.' :: fixedDigits 2 (a * 100 / 10 ^ d) ++ " CVT".toList := by
  have hpadded := padStart_toDigits d a
  have hlength := congrArg List.length hpadded
  rw [List.length_append, length_fixedDigits] at hlength
  rw [formatTokenAmount, if_neg (by omega)]
  dsimp only
  rw [dropLast, takeLast, hlength, Nat.add_sub_cancel, hpadded, List.take_left, List.drop_left, fracPart_eq hd]

theorem grouped_toDigits (n : ℕ) : Grouped (Nat.toDigits 10 n) (groupThousands none (Nat.toDigits 10 n)) :=
  grouped_groupThousands (fun _ => isDigit_of_mem_toDigits) Nat.toDigits_ne_nil

/-- A grouped numeral has the value of the number. -/
theorem ofDigitChars_groupThousands (n : ℕ) :
    Nat.ofDigitChars 10 ((groupThousands none (Nat.toDigits 10 n)).filter Char.isDigit) 0 = n := by
  rw [(grouped_toDigits n).filter (fun _ => isDigit_of_mem_toDigits) rfl, Nat.ofDigitChars_ten_toDigits]

/-- There is no point in it. -/
theorem ne_point_of_mem {n : ℕ} {c : Char} (hc : c ∈ groupThousands none (Nat.toDigits 10 n)) : c ≠ '.' := by
  rintro rfl
  rcases (grouped_toDigits n).mem hc with h | h
  · exact absurd h (by decide)
  · exact absurd (isDigit_of_mem_toDigits h) (by decide)

/-- A grouped numeral, with what may follow it. -/
theorem displayed_append (n : ℕ) {t : List Char} (ht : t = [] ∨ ∃ u, t = '.' :: u) :
    displayed (groupThousands none (Nat.toDigits 10 n) ++ t) =
      n + Nat.ofDigitChars 10 (t.filter Char.isDigit) 0 / 100 := by
  have hpoint : ∀ c ∈ groupThousands none (Nat.toDigits 10 n), decide (c ≠ '.') = true :=
    fun c hc => decide_eq_true (ne_point_of_mem hc)
  have htake : t.takeWhile (fun c => c ≠ '.') = [] := by
    rcases ht with rfl | ⟨u, rfl⟩ <;> rfl
  have hdrop : t.dropWhile (fun c => c ≠ '.') = t := by
    rcases ht with rfl | ⟨u, rfl⟩ <;> rfl
  rw [displayed, List.takeWhile_append_of_pos hpoint, List.dropWhile_append_of_pos hpoint, htake, hdrop,
    List.append_nil, ofDigitChars_groupThousands]

/-- What is displayed are the whole hundredths of the amount. -/
theorem displayed_formatTokenAmount (a d : ℕ) :
    displayed (formatTokenAmount a d) = (a * 100 / 10 ^ d : ℕ) / 100 := by
  rcases Nat.eq_zero_or_pos d with rfl | hd
  · rw [formatTokenAmount_zero, ← List.append_nil (groupThousands _ _), displayed_append a (.inl rfl)]
    simp [Nat.ofDigitChars]
  · have hfrac : ('.' :: (fixedDigits 2 (a * 100 / 10 ^ d) ++ " CVT".toList)).filter Char.isDigit =
        fixedDigits 2 (a * 100 / 10 ^ d) := by
      rw [List.filter_cons_of_neg (by decide), List.filter_append,
        List.filter_eq_self.2 fun c hc => isDigit_of_mem_fixedDigits hc]
      exact List.append_nil _
    have hquotient : a * 100 / 10 ^ d / 100 = a / 10 ^ d := by
      rw [Nat.div_div_eq_div_mul, Nat.mul_div_mul_right _ _ (by decide)]
    have hsum : a / 10 ^ d * 100 + a * 100 / 10 ^ d % 10 ^ 2 = a * 100 / 10 ^ d := by
      rw [← hquotient]
      exact Nat.div_add_mod' _ 100
    rw [formatTokenAmount_eq hd, List.append_assoc, List.cons_append, displayed_append _ (.inr ⟨_, rfl⟩), hfrac,
      ofDigitChars_fixedDigits, eq_div_iff (by norm_num), add_mul, div_mul_cancel₀ _ (by norm_num)]
    exact_mod_cast hsum

/-- A grouped numeral without its commas. -/
theorem filter_groupThousands (n : ℕ) :
    ((groupThousands none (Nat.toDigits 10 n)).filter fun c => c ≠ ',') = Nat.toDigits 10 n := by
  refine (grouped_toDigits n).filter (fun c hc => decide_eq_true ?_) rfl
  rintro rfl
  exact absurd (isDigit_of_mem_toDigits hc) (by decide)

theorem fixedDigits_two (n : ℕ) :
    fixedDigits 2 n = [Nat.digitChar (n % 100 / 10), Nat.digitChar (n % 100 % 10)] := by
  rw [show n % 100 / 10 = n / 10 % 10 by omega, show n % 100 % 10 = n % 10 by omega]
  rfl

/-- What is displayed is the amount, rounded down to a hundredth. -/
theorem displayed_bounds (a d : ℕ) :
    displayed (formatTokenAmount a d) ≤ (a : ℚ) / 10 ^ d ∧
      (a : ℚ) / 10 ^ d < displayed (formatTokenAmount a d) + 1 / 100 := by
  have hpow : (0 : ℚ) < 10 ^ d := by positivity
  have hle : a * 100 / 10 ^ d * 10 ^ d ≤ a * 100 := Nat.div_mul_le_self _ _
  have hlt : a * 100 < 10 ^ d * (a * 100 / 10 ^ d + 1) := Nat.lt_mul_div_succ _ (by positivity)
  rw [displayed_formatTokenAmount]
  generalize a * 100 / 10 ^ d = n at hle hlt
  constructor
  · rw [div_le_div_iff₀ (by norm_num) hpow]
    exact_mod_cast hle
  · rw [← add_div, div_lt_div_iff₀ hpow (by norm_num), mul_comm _ (10 ^ d)]
    exact_mod_cast hlt

theorem displayed_monotone (d : ℕ) : Monotone fun a => displayed (formatTokenAmount a d) := by
  intro a b hab
  have hle : a * 100 / 10 ^ d ≤ b * 100 / 10 ^ d := Nat.div_le_div_right (Nat.mul_le_mul_right 100 hab)
  dsimp only
  rw [displayed_formatTokenAmount, displayed_formatTokenAmount]
  gcongr

/-- An amount with decimals is written as the numeral of its whole tokens, in groups of three digits from the
    right, and the two digits of its hundredths; without decimals, it is its numeral in such groups. What is
    displayed is never more than the amount, less than a hundredth below it, and monotone. -/
theorem formatTokenAmount_exact :
    (∀ a d : ℕ, 1 ≤ d → ∃ intPart, Grouped (Nat.toDigits 10 (a / 10 ^ d)) intPart ∧
      (intPart.filter fun c => c ≠ ',') = Nat.toDigits 10 (a / 10 ^ d) ∧
      formatTokenAmount a d = intPart ++ '.' :: Nat.digitChar (a * 100 / 10 ^ d % 100 / 10) ::
        Nat.digitChar (a * 100 / 10 ^ d % 100 % 10) :: " CVT".toList) ∧
    (∀ a : ℕ, Grouped (Nat.toDigits 10 a) (formatTokenAmount a 0) ∧
      ((formatTokenAmount a 0).filter fun c => c ≠ ',') = Nat.toDigits 10 a) ∧
    (∀ a d : ℕ, displayed (formatTokenAmount a d) ≤ (a : ℚ) / 10 ^ d ∧
      (a : ℚ) / 10 ^ d < displayed (formatTokenAmount a d) + 1 / 100) ∧
    ∀ d : ℕ, Monotone fun a => displayed (formatTokenAmount a d) := by
  refine ⟨fun a d hd => ⟨_, grouped_toDigits _, filter_groupThousands _, ?_⟩, fun a => ?_, displayed_bounds,
    displayed_monotone⟩
  · rw [formatTokenAmount_eq hd, fixedDigits_two, List.append_assoc]
    rfl
  · rw [formatTokenAmount_zero]
    exact ⟨grouped_toDigits a, filter_groupThousands a⟩

end CosmosVote.Frontend
