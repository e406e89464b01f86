import CosmosVote.Soroban.Run
import Mathlib.Logic.Function.Basic

/-!
# Copies of a register

Several parties have a copy of a register each. A party that has changed its copy writes it to the register. A
write that changes the register is posted to the other parties, and each of them takes it over as a change of
its own copy, which it then writes as well. Changes, messages and writes wait for their turn.

* `run_kept`: if no party changes its copy on top of a message that it has not taken over yet, a copy at rest is
  that of the register;
* `run_exchanges`: but two copies need not come to rest, ever: each can go on taking over what the other was.
-/

namespace Concurrent

open Soroban

variable {π ν : Type*}

/-- A change that waits, of the party itself or after a message. -/
inductive Update (ν : Type*)
  | own (f : ν → ν)
  | heard (v : ν)

def Update.apply (v : ν) : Update ν → ν
  | .own f => f v
  | .heard w => w

/-- A copy, what its party has written last, the changes that wait, and the messages that have not arrived. -/
structure Copy (ν : Type*) where
  value : ν
  written : Option ν
  updates : List (Update ν)
  inbox : List ν

namespace Copy

variable (c : Copy ν)

def update (f : ν → ν) : Copy ν := { c with updates := c.updates ++ [.own f] }

def deliver : Copy ν :=
  match c.inbox with
  | [] => c
  | v :: inbox => { c with updates := c.updates ++ [.heard v], inbox }

/-- Only a party that has written listens. -/
def hear (v : ν) : Copy ν := if c.written.isSome then { c with inbox := c.inbox ++ [v] } else c

/-- All changes that wait are made at once, after the copy before them has been written. -/
def render [DecidableEq ν] : Copy ν :=
  if c.written = some c.value then { c with value := c.updates.foldl Update.apply c.value, updates := [] } else c

/-- Nothing waits. -/
structure AtRest : Prop where
  written : c.written = some c.value
  updates : c.updates = []
  inbox : c.inbox = []

end Copy

/-- A register, and the copies of the parties that take part. -/
@[ext]
structure Echo (π ν : Type*) where
  register : Option ν
  copies : π → Option (Copy ν)

inductive Move (π ν : Type*)
  /-- The copy is that of the register, or `v` if there is nothing in it. -/
  | join (p : π) (v : ν)
  | leave (p : π)
  | update (p : π) (f : ν → ν)
  | deliver (p : π)
  | render (p : π)
  | write (p : π)

namespace Echo

def init (register : Option ν) : Echo π ν := ⟨register, fun _ => none⟩

variable [DecidableEq π]

def setCopy (s : Echo π ν) (p : π) (c : Option (Copy ν)) : Echo π ν :=
  { s with copies := Function.update s.copies p c }

/-- The party `p` writes `v`, and the others are told if it is new. -/
def put [DecidableEq ν] (s : Echo π ν) (p : π) (v : ν) : Echo π ν :=
  if s.register = some v then s
  else ⟨some v, fun q => if q = p then s.copies q else (s.copies q).map fun c => c.hear v⟩

variable {s : Echo π ν} {p q : π}

@[simp]
theorem register_setCopy (c : Option (Copy ν)) : (s.setCopy p c).register = s.register := rfl

@[simp]
theorem copies_setCopy_self (c : Option (Copy ν)) : (s.setCopy p c).copies p = c := Function.update_self ..

theorem copies_setCopy_of_ne (hne : q ≠ p) (c : Option (Copy ν)) : (s.setCopy p c).copies q = s.copies q :=
  Function.update_of_ne hne ..

@[simp]
theorem setCopy_setCopy (c c' : Option (Copy ν)) : (s.setCopy p c).setCopy p c' = s.setCopy p c' :=
  congrArg (Echo.mk _) (Function.update_idem ..)

variable [DecidableEq ν] {v : ν}

@[simp]
theorem register_put : (s.put p v).register = some v := by
  rw [put]
  split
  · assumption
  · rfl

@[simp]
theorem copies_put_self : (s.put p v).copies p = s.copies p := by
  rw [put]
  split
  · rfl
  · exact if_pos rfl

theorem put_of_eq (hsame : s.register = some v) : s.put p v = s := if_pos hsame

theorem copies_put_of_ne (hne : q ≠ p) (hnew : s.register ≠ some v) :
    (s.put p v).copies q = (s.copies q).map fun c => c.hear v := by
  rw [put, if_neg hnew]
  exact if_neg hne

def step (s : Echo π ν) : Move π ν → Echo π ν
  | .join p v =>
    match s.copies p with
    | none => s.setCopy p (some ⟨s.register.getD v, none, [], []⟩)
    | some _ => s
  | .leave p => s.setCopy p none
  | .update p f => s.setCopy p ((s.copies p).map fun c => c.update f)
  | .deliver p => s.setCopy p ((s.copies p).map Copy.deliver)
  | .render p => s.setCopy p ((s.copies p).map fun c => c.render)
  | .write p =>
    match s.copies p with
    | none => s
    | some c =>
      if c.written = some c.value then s
      else (s.setCopy p (some { c with written := some c.value })).put p c.value

end Echo

/-! ## Copies at rest -/

/-- The messages among the changes. -/
def heards (us : List (Update ν)) : List ν :=
  us.filterMap fun
    | .own _ => none
    | .heard v => some v

/-- The last message that a party has not taken over. -/
def Copy.last (c : Copy ν) : Option ν := (heards c.updates ++ c.inbox).getLast?

/-- A copy is that of the register, or its party will still hear of it, or write. -/
structure Copy.Kept (register : Option ν) (c : Copy ν) : Prop where
  follows : ∀ w, c.written = some w → register = some w ∨ (∃ v, c.last = some v ∧ register = some v) ∨ c.value ≠ w
  /-- A change of its own is not on top of a message. -/
  ordered : ∀ us f, c.updates = us ++ [.own f] → heards us = []

/-- A party does not change its copy on top of a message that it has not taken over. -/
def Echo.Prompt (s : Echo π ν) : Move π ν → Prop
  | .update p _ => ∀ c, s.copies p = some c → heards c.updates = []
  | _ => True

@[simp]
theorem heards_nil : heards ([] : List (Update ν)) = [] := rfl

theorem heards_concat_own (us : List (Update ν)) (f : ν → ν) : heards (us ++ [.own f]) = heards us := by
  rw [heards, List.filterMap_append]
  exact List.append_nil _

theorem heards_concat_heard (us : List (Update ν)) (v : ν) : heards (us ++ [.heard v]) = heards us ++ [v] := by
  rw [heards, List.filterMap_append]
  rfl

namespace Copy.Kept

variable {register : Option ν} {c : Copy ν}

theorem update (h : c.Kept register) (hprompt : heards c.updates = []) (f : ν → ν) : (c.update f).Kept register where
  follows w hw := by
    have hlast : (c.update f).last = c.last := by rw [last, last, Copy.update, heards_concat_own]
    rw [hlast]
    exact h.follows w hw
  ordered us g hus := by
    obtain ⟨rfl, _⟩ := List.append_inj' hus rfl
    exact hprompt

theorem deliver (h : c.Kept register) : c.deliver.Kept register := by
  rw [Copy.deliver]
  split
  · exact h
  · rename_i v inbox hinbox
    refine ⟨fun w hw => ?_, fun us f hus => ?_⟩
    · have hlast : Copy.last { c with updates := c.updates ++ [.heard v], inbox } = c.last := by
        rw [last, last, heards_concat_heard, hinbox, List.append_assoc]
        rfl
      rw [hlast]
      exact h.follows w hw
    · cases (List.append_inj' hus rfl).2

/-- The message is that of the register from now on. -/
theorem hear (h : c.Kept register) (v : ν) : (c.hear v).Kept (some v) := by
  rw [Copy.hear]
  split
  · refine ⟨fun w hw => .inr (.inl ⟨v, ?_, rfl⟩), h.ordered⟩
    rw [last, ← List.append_assoc, List.getLast?_concat]
  · rename_i hwritten
    exact ⟨fun w hw => absurd (Option.isSome_of_eq_some hw) hwritten, h.ordered⟩

theorem written (h : c.Kept register) : Kept (some c.value) { c with written := some c.value } where
  follows _ hw := .inl hw
  ordered := h.ordered

/-- The last message is taken over last. -/
theorem foldl_eq (h : c.Kept register) {v : ν} (hv : (heards c.updates).getLast? = some v) :
    c.updates.foldl Update.apply c.value = v := by
  rcases List.eq_nil_or_concat c.updates with hnil | ⟨us, u, hus⟩
  · rw [hnil] at hv
    cases hv
  · rw [List.concat_eq_append] at hus
    cases u with
    | own f =>
      rw [hus, heards_concat_own, h.ordered us f hus] at hv
      cases hv
    | heard w =>
      rw [hus, heards_concat_heard, List.getLast?_concat] at hv
      rw [hus, List.foldl_append]
      exact Option.some_inj.1 hv

theorem render [DecidableEq ν] (h : c.Kept register) : c.render.Kept register := by
  rw [Copy.render]
  split
  · rename_i hwritten
    refine ⟨fun w hw => ?_, fun us f hus => absurd hus.symm (List.concat_ne_nil _ us)⟩
    rcases h.follows w hw with hregister | ⟨v, hlast, hregister⟩ | hvalue
    · exact .inl hregister
    · cases hinbox : c.inbox with
      | cons x inbox =>
        refine .inr (.inl ⟨v, ?_, hregister⟩)
        rw [last, hinbox, List.getLast?_append, List.getLast?_cons, Option.some_or] at hlast
        rw [last, heards_nil, List.nil_append, List.getLast?_cons, hlast]
      | nil =>
        rw [last, hinbox, List.append_nil] at hlast
        by_cases hvw : v = w
        · exact .inl (hvw ▸ hregister)
        · refine .inr (.inr ?_)
          rw [h.foldl_eq hlast]
          exact hvw
    · exact absurd (Option.some_inj.1 (hwritten.symm.trans hw)) hvalue
  · exact h

end Copy.Kept

namespace Echo

def Kept (s : Echo π ν) : Prop := ∀ p c, s.copies p = some c → c.Kept s.register

theorem kept_init (register : Option ν) : (init register : Echo π ν).Kept :=
  fun _ c hc => absurd hc.symm (Option.some_ne_none c)

variable [DecidableEq π] {s : Echo π ν} {p : π}

theorem Kept.setCopy (h : s.Kept) {c : Option (Copy ν)} (hc : ∀ c', c = some c' → c'.Kept s.register) :
    (s.setCopy p c).Kept := by
  intro q c' hq
  rw [register_setCopy]
  rcases eq_or_ne q p with rfl | hne
  · rw [copies_setCopy_self] at hq
    exact hc c' hq
  · rw [copies_setCopy_of_ne hne] at hq
    exact h q c' hq

/-- What is kept in one copy. -/
theorem Kept.map (h : s.Kept) {f : Copy ν → Copy ν}
    (hf : ∀ c, s.copies p = some c → c.Kept s.register → (f c).Kept s.register) :
    (s.setCopy p ((s.copies p).map f)).Kept := by
  refine h.setCopy fun c' hc' => ?_
  obtain ⟨c, hc, rfl⟩ := Option.map_eq_some_iff.1 hc'
  exact hf c hc (h p c hc)

variable [DecidableEq ν]

theorem Kept.write (h : s.Kept) {c : Copy ν} (hc : s.copies p = some c) :
    ((s.setCopy p (some { c with written := some c.value })).put p c.value).Kept := by
  intro q c' hq
  rw [register_put]
  rcases eq_or_ne q p with rfl | hne
  · rw [copies_put_self, copies_setCopy_self] at hq
    obtain rfl := Option.some_inj.1 hq
    exact (h q c hc).written
  · by_cases hnew : s.register = some c.value
    · rw [put_of_eq (s := s.setCopy p _) hnew, copies_setCopy_of_ne hne] at hq
      exact hnew ▸ h q c' hq
    · rw [copies_put_of_ne (s := s.setCopy p _) hne hnew, copies_setCopy_of_ne hne] at hq
      obtain ⟨d, hd, rfl⟩ := Option.map_eq_some_iff.1 hq
      exact (h q d hd).hear c.value

theorem step_kept (m : Move π ν) (h : s.Kept) (hm : s.Prompt m) : (s.step m).Kept := by
  cases m with
  | join p v =>
    rw [step]
    split
    · refine h.setCopy fun c' hc' => ?_
      obtain rfl := Option.some_inj.1 hc'
      refine ⟨fun w hw => absurd hw.symm (Option.some_ne_none w), fun us f hus => ?_⟩
      exact absurd hus.symm (List.concat_ne_nil _ us)
    · exact h
  | leave p => exact h.setCopy fun c' hc' => absurd hc'.symm (Option.some_ne_none c')
  | update p f => exact h.map fun c hc hkept => hkept.update (hm c hc) f
  | deliver p => exact h.map fun c _ hkept => hkept.deliver
  | render p => exact h.map fun c _ hkept => hkept.render
  | write p =>
    rw [step]
    split
    · exact h
    · rename_i c hc
      split
      · exact h
      · exact h.write hc

/-- If no party changes its copy on top of a message that it has not taken over, every copy at rest is that of the
    register. -/
theorem run_kept {register : Option ν} {ms : List (Move π ν)} (hms : Along step Prompt (init register) ms) {c : Copy ν}
    (hc : (run step (init register) ms).copies p = some c) (hrest : c.AtRest) :
    (run step (init register) ms).register = some c.value := by
  have hkept : (run step (init register) ms).Kept :=
    run_invariant_of (fun s m hm h => step_kept m h hm) hms (kept_init register)
  rcases (hkept p c hc).follows c.value hrest.written with hregister | ⟨v, hlast, _⟩ | hvalue
  · exact hregister
  · rw [Copy.last, hrest.updates, hrest.inbox] at hlast
    cases hlast
  · exact absurd rfl hvalue

/-! ## Copies that never rest -/

/-- The party takes over the first message, and writes it. -/
def takeOver (p : π) : List (Move π ν) := [.deliver p, .render p, .write p]

/-- The party changes its copy, and writes it. -/
def change (p : π) (f : ν → ν) : List (Move π ν) := [.update p f, .render p, .write p]

/-- Two parties take part. -/
def pair (p q : π) (v : ν) (c d : Copy ν) : Echo π ν where
  register := some v
  copies r := if r = p then some c else if r = q then some d else none

/-- The copies are different, and each party is going to hear what the other copy is. -/
def exchange (p q : π) (a b : ν) : Echo π ν := pair p q a ⟨a, some a, [], [b]⟩ ⟨b, some b, [], [a]⟩

section Pair

variable {q : π} {c d : Copy ν} {v w x : ν} {inbox : List ν}

omit [DecidableEq ν] in
theorem copies_pair_left : (pair p q v c d).copies p = some c := if_pos rfl

omit [DecidableEq ν] in
theorem copies_pair_right (hpq : p ≠ q) : (pair p q v c d).copies q = some d := (if_neg hpq.symm).trans (if_pos rfl)

omit [DecidableEq ν] in
theorem pair_comm (hpq : p ≠ q) : pair p q v c d = pair q p v d c := by
  refine Echo.ext rfl (funext fun r => ?_)
  rw [pair, pair]
  dsimp only
  rcases eq_or_ne r p with rfl | hp
  · rw [if_pos rfl, if_neg hpq, if_pos rfl]
  · rw [if_neg hp, if_neg hp]

omit [DecidableEq ν] in
theorem setCopy_pair (c' : Copy ν) : (pair p q v c d).setCopy p (some c') = pair p q v c' d := by
  refine Echo.ext rfl (funext fun r => ?_)
  rcases eq_or_ne r p with rfl | hp
  · rw [copies_setCopy_self]
    exact (if_pos rfl).symm
  · rw [copies_setCopy_of_ne hp]
    exact (if_neg hp).trans (if_neg hp).symm

theorem put_pair : (pair p q x c d).put p v = pair p q v c (if x = v then d else d.hear v) := by
  split
  · subst x
    exact put_of_eq rfl
  · rename_i hnew
    refine Echo.ext register_put (funext fun r => ?_)
    rcases eq_or_ne r p with rfl | hp
    · rw [copies_put_self]
      exact (if_pos rfl).trans (if_pos rfl).symm
    · rw [copies_put_of_ne hp fun h => hnew (Option.some_inj.1 h), pair, pair]
      dsimp only
      rw [if_neg hp, if_neg hp]
      split <;> rfl

/-- What waits is rendered, and written if it is new. -/
theorem run_rendered {us : List (Update ν)} (hw : us.foldl Update.apply v = w) (hne : v ≠ w) :
    run step (pair p q x ⟨v, some v, us, inbox⟩ d) [.render p, .write p] =
      pair p q w ⟨w, some w, [], inbox⟩ (if x = w then d else d.hear w) := by
  have hrender : (pair p q x ⟨v, some v, us, inbox⟩ d).step (.render p) = pair p q x ⟨w, some v, [], inbox⟩ d := by
    rw [step, copies_pair_left, Option.map_some, setCopy_pair, Copy.render, if_pos rfl, hw]
  rw [run_cons, run_cons, run_nil, hrender, step, copies_pair_left]
  dsimp only
  rw [if_neg fun h => hne (Option.some_inj.1 h), setCopy_pair, put_pair]

theorem run_takeOver (hne : v ≠ w) :
    run step (pair p q x ⟨v, some v, [], w :: inbox⟩ d) (takeOver p) =
      pair p q w ⟨w, some w, [], inbox⟩ (if x = w then d else d.hear w) := by
  rw [takeOver, run_cons, step, copies_pair_left, Option.map_some, setCopy_pair]
  exact run_rendered rfl hne

theorem run_change {f : ν → ν} (hw : f v = w) (hne : v ≠ w) :
    run step (pair p q x ⟨v, some v, [], inbox⟩ d) (change p f) =
      pair p q w ⟨w, some w, [], inbox⟩ (if x = w then d else d.hear w) := by
  rw [change, run_cons, step, copies_pair_left, Option.map_some, setCopy_pair]
  exact run_rendered hw hne

end Pair

/-- No message waits when the copy is changed. -/
theorem along_change {q : π} {c d : Copy ν} {v : ν} {f : ν → ν} (hc : heards c.updates = []) :
    Along step Prompt (pair p q v c d) (change p f) := by
  refine .cons (fun c' hc' => ?_) (.cons trivial (.cons trivial along_nil))
  obtain rfl := Option.some_inj.1 (copies_pair_left.symm.trans hc')
  exact hc

section Exchange

variable {q : π} (hpq : p ≠ q) {a b : ν} (hab : a ≠ b)

include hpq hab

/-- The copies have changed places. -/
theorem run_exchange : run step (exchange p q a b) (takeOver p ++ takeOver q) = exchange q p a b := by
  rw [run_append, exchange, run_takeOver hab, if_neg hab, pair_comm hpq]
  exact (run_takeOver hab.symm).trans (by rw [if_neg hab.symm]; rfl)

/-- There is no end to it. -/
theorem run_exchanges (n : ℕ) :
    run step (exchange p q a b)
        (List.replicate n (takeOver p ++ takeOver q ++ (takeOver q ++ takeOver p))).flatten =
      exchange p q a b := by
  induction n with
  | zero => rfl
  | succ n ih =>
    rw [List.replicate_succ, List.flatten_cons, run_append, run_append, run_exchange hpq hab,
      run_exchange hpq.symm hab, ih]

/-- It begins when one party changes its copy, and the other changes its own and back before it hears of it. -/
theorem run_changes {f : ν → ν} (hfa : f a = b) (hfb : f b = a) :
    run step (pair p q a ⟨a, some a, [], []⟩ ⟨a, some a, [], []⟩) (change q f ++ change p f ++ change p f) =
        exchange p q a b ∧
      Along step Prompt (pair p q a ⟨a, some a, [], []⟩ ⟨a, some a, [], []⟩)
        (change q f ++ change p f ++ change p f) := by
  have hfirst : run step (pair p q a ⟨a, some a, [], []⟩ ⟨a, some a, [], []⟩) (change q f) =
      pair p q b ⟨a, some a, [], [b]⟩ ⟨b, some b, [], []⟩ := by
    rw [pair_comm hpq, run_change hfa hab, if_neg hab, pair_comm hpq.symm]
    rfl
  have hsecond : run step (pair p q b ⟨a, some a, [], [b]⟩ ⟨b, some b, [], []⟩) (change p f) =
      pair p q b ⟨b, some b, [], [b]⟩ ⟨b, some b, [], []⟩ := by
    rw [run_change hfa hab, if_pos rfl]
  have hthird : run step (pair p q b ⟨b, some b, [], [b]⟩ ⟨b, some b, [], []⟩) (change p f) = exchange p q a b := by
    rw [run_change hfb hab.symm, if_neg hab.symm]
    rfl
  refine ⟨by rw [run_append, run_append, hfirst, hsecond, hthird], ?_⟩
  refine Along.append (Along.append ?_ ?_) ?_
  · rw [pair_comm hpq]
    exact along_change rfl
  · rw [hfirst]
    exact along_change rfl
  · rw [run_append, hfirst, hsecond]
    exact along_change rfl

end Exchange

theorem run_joins {q : π} (hpq : p ≠ q) (a : ν) :
    run step (init none) [.join p a, .write p, .join q a, .write q] =
      pair p q a ⟨a, some a, [], []⟩ ⟨a, some a, [], []⟩ := by
  refine Echo.ext ?_ (funext fun r => ?_)
  · simp [step, init, setCopy, put, pair, hpq.symm, Function.update]
  · by_cases hp : r = p <;> by_cases hq : r = q <;>
      simp [step, init, setCopy, put, pair, hpq, hpq.symm, hp, hq, Function.update, Copy.hear]

end Echo

end Concurrent
