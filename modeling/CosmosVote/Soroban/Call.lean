import Mathlib.Tactic.Common

/-!
# Contract calls

A contract call (`Call`) reads and writes a state and ends in one of three ways
(`Outcome`): it returns a value, it returns one of its own errors, or the host
aborts it (`Trap`). The state is threaded as the code writes it, also on the way
to an error; what the host makes of the call is `Call.commit`: it keeps the
writes of a call that returned a value, and rolls back any other.

* `run_bind_ok`, with the `run_…_ok` lemma of each primitive, is how a successful
  call is inverted: a `simp` that unfolds the code turns `(code).run s = (.ok a, s')`
  into the guards the call passed and the state it wrote. `run_bind_trap` does the
  same for a call that the host aborts, and `run_bind_err` for one that returns an error.
* `TrapsOnly` says for which reasons the host may abort a call, and `trapsOnly_bind` goes through
  its code; there is one lemma for each primitive.
* `ReadOnly`, `NoErr` and `ErrClean` say that a call writes nothing, returns no
  error, or has written nothing when it returns an error. The first two are classes,
  found by following the code of the call.
-/

namespace Soroban

/-- Why the host aborts a call. -/
inductive Trap
  /-- An address was required to authorise the call, and did not. -/
  | unauthorized
  /-- An arithmetic operator overflowed. -/
  | overflow
  /-- `unwrap` on `None`. -/
  | unwrapNone
  /-- The time to live of an entry that does not exist was extended. -/
  | missingEntry
  /-- A contract called by this one failed. -/
  | calleeFailed
  /-- An explicit `panic!`. -/
  | panicked
  deriving DecidableEq

/-- How a call ends. -/
inductive Outcome (ε α : Type)
  | ok (a : α)
  | err (e : ε)
  | trap (t : Trap)
  deriving DecidableEq

/-- A call with state `σ`, errors `ε` and result `α`. -/
def Call (σ ε α : Type) : Type := σ → Outcome ε α × σ

namespace Call

variable {σ ε α β : Type}

/-- The outcome of a call, and the state as the code left it. -/
def run (m : Call σ ε α) (s : σ) : Outcome ε α × σ := m s

instance : Monad (Call σ ε) where
  pure a := fun s => (.ok a, s)
  bind m f := fun s =>
    match m s with
    | (.ok a, s') => f a s'
    | (.err e, s') => (.err e, s')
    | (.trap t, s') => (.trap t, s')

@[ext]
theorem ext {m n : Call σ ε α} (h : ∀ s, m.run s = n.run s) : m = n := funext h

/-! ## Primitives -/

/-- The current state. -/
def get : Call σ ε σ := fun s => (.ok s, s)

/-- Write the state. -/
def modify (f : σ → σ) : Call σ ε Unit := fun s => (.ok (), f s)

/-- Return the error `e`. -/
def fail (e : ε) : Call σ ε α := fun s => (.err e, s)

/-- Be aborted by the host. -/
def abort (t : Trap) : Call σ ε α := fun s => (.trap t, s)

/-- `if c { return Err(e); }` -/
def rejectIf (c : Prop) [Decidable c] (e : ε) : Call σ ε Unit := if c then fail e else pure ()

/-- `o.ok_or(e)?` -/
def orErr (o : Option α) (e : ε) : Call σ ε α := o.elim (fail e) pure

/-- The value of `o`; the host aborts the call if there is none. -/
def orTrap (o : Option α) (t : Trap) : Call σ ε α := o.elim (abort t) pure

/-! ## Inversion -/

@[simp]
theorem run_pure (a : α) (s : σ) : (pure a : Call σ ε α).run s = (.ok a, s) := rfl

@[simp]
theorem run_get (s : σ) : (get : Call σ ε σ).run s = (.ok s, s) := rfl

@[simp]
theorem run_modify (f : σ → σ) (s : σ) : (modify f : Call σ ε Unit).run s = (.ok (), f s) := rfl

@[simp]
theorem run_fail (e : ε) (s : σ) : (fail e : Call σ ε α).run s = (.err e, s) := rfl

@[simp]
theorem run_abort (t : Trap) (s : σ) : (abort t : Call σ ε α).run s = (.trap t, s) := rfl

theorem run_bind (m : Call σ ε α) (f : α → Call σ ε β) (s : σ) :
    (m >>= f).run s = match m.run s with
      | (.ok a, s') => (f a).run s'
      | (.err e, s') => (.err e, s')
      | (.trap t, s') => (.trap t, s') := rfl

theorem run_bind_of_ok {m : Call σ ε α} {f : α → Call σ ε β} {s s' : σ} {a : α}
    (h : m.run s = (.ok a, s')) : (m >>= f).run s = (f a).run s' := by
  rw [run_bind, h]

theorem run_bind_of_err {m : Call σ ε α} {f : α → Call σ ε β} {s s' : σ} {e : ε}
    (h : m.run s = (.err e, s')) : (m >>= f).run s = (.err e, s') := by
  rw [run_bind, h]

theorem run_bind_of_trap {m : Call σ ε α} {f : α → Call σ ε β} {s s' : σ} {t : Trap}
    (h : m.run s = (.trap t, s')) : (m >>= f).run s = (.trap t, s') := by
  rw [run_bind, h]

/-- A sequence returns a value when both parts do. -/
@[simp]
theorem run_bind_ok {m : Call σ ε α} {f : α → Call σ ε β} {s s' : σ} {b : β} :
    (m >>= f).run s = (.ok b, s') ↔
      ∃ a s₁, m.run s = (.ok a, s₁) ∧ (f a).run s₁ = (.ok b, s') := by
  rcases h : m.run s with ⟨_ | _ | _, s₁⟩
  · simp [run_bind_of_ok h]
  · simp [run_bind_of_err h]
  · simp [run_bind_of_trap h]

theorem run_rejectIf {c : Prop} [Decidable c] {e : ε} {s : σ} :
    (rejectIf c e : Call σ ε Unit).run s = (if c then .err e else .ok (), s) := by
  rw [rejectIf]
  split <;> rfl

theorem run_rejectIf_of {c : Prop} [Decidable c] {e : ε} {s : σ} (h : c) :
    (rejectIf c e : Call σ ε Unit).run s = (.err e, s) := by
  rw [run_rejectIf, if_pos h]

theorem run_rejectIf_of_not {c : Prop} [Decidable c] {e : ε} {s : σ} (h : ¬c) :
    (rejectIf c e : Call σ ε Unit).run s = (.ok (), s) := by
  rw [run_rejectIf, if_neg h]

@[simp]
theorem run_rejectIf_ok {c : Prop} [Decidable c] {e : ε} {s s' : σ} {u : Unit} :
    (rejectIf c e : Call σ ε Unit).run s = (.ok u, s') ↔ ¬c ∧ s = s' := by
  rw [run_rejectIf]
  split <;> simp_all

@[simp]
theorem run_orErr_ok {o : Option α} {e : ε} {s s' : σ} {a : α} :
    (orErr o e : Call σ ε α).run s = (.ok a, s') ↔ o = some a ∧ s = s' := by
  cases o <;> simp [orErr]

@[simp]
theorem run_orTrap_ok {o : Option α} {t : Trap} {s s' : σ} {a : α} :
    (orTrap o t : Call σ ε α).run s = (.ok a, s') ↔ o = some a ∧ s = s' := by
  cases o <;> simp [orTrap]

/-- A conditional returns a value when the branch taken does. -/
@[simp]
theorem run_ite_ok {c : Prop} [Decidable c] {m n : Call σ ε α} {s s' : σ} {a : α} :
    (if c then m else n).run s = (.ok a, s') ↔
      (c ∧ m.run s = (.ok a, s')) ∨ (¬c ∧ n.run s = (.ok a, s')) := by
  split <;> simp_all

/-- A check that is made under a condition. -/
theorem run_check_ok {c Q : Prop} [Decidable c] {m : Call σ ε Unit} {s s' : σ} {u : Unit}
    (h : c → (m.run s = (.ok u, s') ↔ Q ∧ s = s')) :
    (if c then m else pure ()).run s = (.ok u, s') ↔ (c → Q) ∧ s = s' := by
  by_cases hc : c
  · rw [if_pos hc, h hc, imp_iff_right hc]
  · rw [if_neg hc, run_pure]
    simp [hc]

/-- A sequence is aborted when the first part is, or the second after it. -/
@[simp]
theorem run_bind_trap {m : Call σ ε α} {f : α → Call σ ε β} {s s' : σ} {t : Trap} :
    (m >>= f).run s = (.trap t, s') ↔ m.run s = (.trap t, s') ∨
      ∃ a s₁, m.run s = (.ok a, s₁) ∧ (f a).run s₁ = (.trap t, s') := by
  rcases h : m.run s with ⟨_ | _ | _, s₁⟩
  · simp [run_bind_of_ok h]
  · simp [run_bind_of_err h]
  · simp [run_bind_of_trap h]

@[simp]
theorem run_rejectIf_trap {c : Prop} [Decidable c] {e : ε} {s s' : σ} {t : Trap} :
    (rejectIf c e : Call σ ε Unit).run s ≠ (.trap t, s') := by
  rw [run_rejectIf]
  split <;> simp

@[simp]
theorem run_orErr_trap {o : Option α} {e : ε} {s s' : σ} {t : Trap} :
    (orErr o e : Call σ ε α).run s ≠ (.trap t, s') := by
  cases o <;> simp [orErr]

@[simp]
theorem run_orTrap_trap {o : Option α} {t t' : Trap} {s s' : σ} :
    (orTrap o t : Call σ ε α).run s = (.trap t', s') ↔ o = none ∧ t = t' ∧ s = s' := by
  cases o <;> simp [orTrap]

@[simp]
theorem run_ite_trap {c : Prop} [Decidable c] {m n : Call σ ε α} {s s' : σ} {t : Trap} :
    (if c then m else n).run s = (.trap t, s') ↔
      (c ∧ m.run s = (.trap t, s')) ∨ (¬c ∧ n.run s = (.trap t, s')) := by
  split <;> simp_all

/-- A sequence returns an error when the first part does, or the second after it. -/
@[simp]
theorem run_bind_err {m : Call σ ε α} {f : α → Call σ ε β} {s s' : σ} {e : ε} :
    (m >>= f).run s = (.err e, s') ↔ m.run s = (.err e, s') ∨
      ∃ a s₁, m.run s = (.ok a, s₁) ∧ (f a).run s₁ = (.err e, s') := by
  rcases h : m.run s with ⟨_ | _ | _, s₁⟩
  · simp [run_bind_of_ok h]
  · simp [run_bind_of_err h]
  · simp [run_bind_of_trap h]

@[simp]
theorem run_rejectIf_err {c : Prop} [Decidable c] {e e' : ε} {s s' : σ} :
    (rejectIf c e : Call σ ε Unit).run s = (.err e', s') ↔ c ∧ e = e' ∧ s = s' := by
  rw [run_rejectIf]
  split <;> simp_all

@[simp]
theorem run_orErr_err {o : Option α} {e e' : ε} {s s' : σ} :
    (orErr o e : Call σ ε α).run s = (.err e', s') ↔ o = none ∧ e = e' ∧ s = s' := by
  cases o <;> simp [orErr]

@[simp]
theorem run_ite_err {c : Prop} [Decidable c] {m n : Call σ ε α} {s s' : σ} {e : ε} :
    (if c then m else n).run s = (.err e, s') ↔
      (c ∧ m.run s = (.err e, s')) ∨ (¬c ∧ n.run s = (.err e, s')) := by
  split <;> simp_all

/-- A loop all of whose iterations return a value. -/
theorem run_foldlM_of_ok {f : β → α → Call σ ε β} {g : β → α → β} {s : σ}
    (h : ∀ b a, (f b a).run s = (.ok (g b a), s)) (as : List α) (b : β) :
    (as.foldlM f b).run s = (.ok (as.foldl g b), s) := by
  induction as generalizing b with
  | nil => rfl
  | cons a as ih =>
    rw [List.foldlM_cons, run_bind_of_ok (h b a), ih]
    rfl

/-! ## Traps -/

/-- The host aborts the call for no reason but those of `A`. -/
def TrapsOnly (A : Trap → Prop) (m : Call σ ε α) (s : σ) : Prop := ∀ t s', m.run s = (.trap t, s') → A t

section TrapsOnly

variable {A : Trap → Prop}

theorem trapsOnly_of_ok {m : Call σ ε α} {s s' : σ} {a : α} (h : m.run s = (.ok a, s')) : m.TrapsOnly A s :=
  fun t s₁ htrap => by simp [h] at htrap

theorem trapsOnly_iff_of_trap {m : Call σ ε α} {s s' : σ} {t : Trap} (h : m.run s = (.trap t, s')) :
    m.TrapsOnly A s ↔ A t := by
  simp only [TrapsOnly, h, Prod.mk.injEq, Outcome.trap.injEq]
  exact ⟨fun hall => hall t s' ⟨rfl, rfl⟩, fun ht _ _ heq => heq.1 ▸ ht⟩

/-- A call that traps for one reason, under one condition. -/
theorem trapsOnly_iff_imp {m : Call σ ε α} {s : σ} {P : Prop} {t : Trap}
    (h : ∀ t' s', m.run s = (.trap t', s') ↔ P ∧ t = t' ∧ s = s') : m.TrapsOnly A s ↔ (P → A t) := by
  simp only [TrapsOnly, h]
  constructor
  · exact fun hall hP => hall t s ⟨hP, rfl, rfl⟩
  · rintro himp _ _ ⟨hP, rfl, _⟩
    exact himp hP

/-- A sequence traps where its first part does, or the second after it. -/
@[simp]
theorem trapsOnly_bind {m : Call σ ε α} {f : α → Call σ ε β} {s : σ} :
    (m >>= f).TrapsOnly A s ↔
      m.TrapsOnly A s ∧ ∀ a s₁, m.run s = (.ok a, s₁) → (f a).TrapsOnly A s₁ := by
  simp only [TrapsOnly, run_bind_trap]
  constructor
  · exact fun h => ⟨fun t s' hm => h t s' (.inl hm), fun a s₁ hm t s' hf => h t s' (.inr ⟨a, s₁, hm, hf⟩)⟩
  · rintro ⟨hm, hf⟩ t s' (htrap | ⟨a, s₁, hok, htrap⟩)
    · exact hm t s' htrap
    · exact hf a s₁ hok t s' htrap

@[simp]
theorem trapsOnly_pure (a : α) (s : σ) : (pure a : Call σ ε α).TrapsOnly A s := trapsOnly_of_ok (run_pure a s)

@[simp]
theorem trapsOnly_get (s : σ) : (get : Call σ ε σ).TrapsOnly A s := trapsOnly_of_ok (run_get s)

@[simp]
theorem trapsOnly_rejectIf (c : Prop) [Decidable c] (e : ε) (s : σ) :
    (rejectIf c e : Call σ ε Unit).TrapsOnly A s := fun _ _ h => absurd h run_rejectIf_trap

@[simp]
theorem trapsOnly_orErr (o : Option α) (e : ε) (s : σ) : (orErr o e : Call σ ε α).TrapsOnly A s :=
  fun _ _ h => absurd h run_orErr_trap

@[simp]
theorem trapsOnly_orTrap (o : Option α) (t : Trap) (s : σ) :
    (orTrap o t : Call σ ε α).TrapsOnly A s ↔ (o = none → A t) :=
  trapsOnly_iff_imp fun _ _ => run_orTrap_trap

@[simp]
theorem trapsOnly_ite {c : Prop} [Decidable c] {m n : Call σ ε α} {s : σ} :
    (if c then m else n).TrapsOnly A s ↔ (c → m.TrapsOnly A s) ∧ (¬c → n.TrapsOnly A s) := by
  split <;> simp_all

end TrapsOnly

/-! ## Commit and rollback -/

/-- The state after the host has committed the call, or rolled it back. -/
def commit (m : Call σ ε α) (s : σ) : σ :=
  match m.run s with
  | (.ok _, s') => s'
  | (.err _, _) => s
  | (.trap _, _) => s

theorem commit_of_ok {m : Call σ ε α} {s s' : σ} {a : α} (h : m.run s = (.ok a, s')) :
    m.commit s = s' := by
  rw [commit, h]

/-- A call that does not return a value has no effect. -/
theorem commit_of_not_ok {m : Call σ ε α} {s : σ} (h : ∀ a s', m.run s ≠ (.ok a, s')) :
    m.commit s = s := by
  rw [commit]
  split
  · rename_i heq
    exact absurd heq (h _ _)
  · rfl
  · rfl

/-- A call either returns a value, and its writes are committed, or has no effect. -/
theorem commit_cases (m : Call σ ε α) (s : σ) :
    (∃ a, m.run s = (.ok a, m.commit s)) ∨
      ((∀ a s', m.run s ≠ (.ok a, s')) ∧ m.commit s = s) := by
  rcases h : m.run s with ⟨a | _ | _, s'⟩
  · exact .inl ⟨a, by rw [commit_of_ok h]⟩
  · exact .inr ⟨by simp, commit_of_not_ok (by simp [h])⟩
  · exact .inr ⟨by simp, commit_of_not_ok (by simp [h])⟩

/-! ## Effects of a call that fails -/

/-- The call writes nothing. -/
class ReadOnly (m : Call σ ε α) : Prop where
  eq (s : σ) : (m.run s).2 = s

/-- The call never returns an error. -/
class NoErr (m : Call σ ε α) : Prop where
  ne (s : σ) (e : ε) : (m.run s).1 ≠ .err e

/-- The call has written nothing when it returns an error. -/
structure ErrClean (m : Call σ ε α) : Prop where
  eq (s : σ) (e : ε) : (m.run s).1 = .err e → (m.run s).2 = s

instance (a : α) : ReadOnly (pure a : Call σ ε α) := ⟨fun _ => rfl⟩
instance : ReadOnly (get : Call σ ε σ) := ⟨fun _ => rfl⟩
instance (e : ε) : ReadOnly (fail e : Call σ ε α) := ⟨fun _ => rfl⟩
instance (t : Trap) : ReadOnly (abort t : Call σ ε α) := ⟨fun _ => rfl⟩

instance (c : Prop) [Decidable c] (e : ε) : ReadOnly (rejectIf c e : Call σ ε Unit) :=
  ⟨fun s => by rw [run_rejectIf]⟩

instance (o : Option α) (e : ε) : ReadOnly (orErr o e : Call σ ε α) :=
  ⟨fun _ => by cases o <;> rfl⟩

instance (o : Option α) (t : Trap) : ReadOnly (orTrap o t : Call σ ε α) :=
  ⟨fun _ => by cases o <;> rfl⟩

instance (a : α) : NoErr (pure a : Call σ ε α) := ⟨by simp⟩
instance : NoErr (get : Call σ ε σ) := ⟨by simp⟩
instance (f : σ → σ) : NoErr (modify f : Call σ ε Unit) := ⟨by simp⟩
instance (t : Trap) : NoErr (abort t : Call σ ε α) := ⟨by simp⟩
instance (o : Option α) (t : Trap) : NoErr (orTrap o t : Call σ ε α) :=
  ⟨by cases o <;> simp [orTrap]⟩

instance (m : Call σ ε α) (f : α → Call σ ε β) [hm : ReadOnly m] [hf : ∀ a, ReadOnly (f a)] :
    ReadOnly (m >>= f) := ⟨fun s => by
  have h := hm.eq s
  rw [run_bind]
  rcases hr : m.run s with ⟨a | _ | _, s'⟩ <;> simp only [hr] at h ⊢
  · exact ((hf a).eq _).trans h
  · exact h
  · exact h⟩

instance (m : Call σ ε α) (f : α → Call σ ε β) [hm : NoErr m] [hf : ∀ a, NoErr (f a)] :
    NoErr (m >>= f) := ⟨fun s e => by
  have h := hm.ne s
  rw [run_bind]
  rcases hr : m.run s with ⟨a | e' | _, s'⟩ <;> simp only [hr] at h ⊢
  · exact (hf a).ne _ _
  · exact absurd rfl (h e')
  · simp⟩

instance (c : Prop) [Decidable c] (m n : Call σ ε α) [ReadOnly m] [ReadOnly n] :
    ReadOnly (if c then m else n) := by split <;> assumption

instance (c : Prop) [Decidable c] (m n : Call σ ε α) [NoErr m] [NoErr n] :
    NoErr (if c then m else n) := by split <;> assumption

theorem NoErr.run_ne {m : Call σ ε α} [h : NoErr m] {s s' : σ} {e : ε} : m.run s ≠ (.err e, s') :=
  fun hr => h.ne s e (by rw [hr])

theorem ErrClean.of_noErr {m : Call σ ε α} [h : NoErr m] : ErrClean m :=
  ⟨fun s e he => absurd he (h.ne s e)⟩

/-- A call that reads before it writes: the errors come from the part that reads, or else
    from what follows it. -/
theorem ErrClean.bind {m : Call σ ε α} {f : α → Call σ ε β} [hm : ReadOnly m]
    (hf : ∀ a, ErrClean (f a)) : ErrClean (m >>= f) := ⟨fun s e he => by
  have h := hm.eq s
  rw [run_bind] at he ⊢
  rcases hr : m.run s with ⟨a | _ | _, s'⟩ <;> simp only [hr] at he h ⊢
  · exact ((hf a).eq _ _ he).trans h
  · exact h
  · exact h⟩

/-- What follows a call without returning errors of its own adds none. -/
theorem ErrClean.seq {m : Call σ ε α} {f : α → Call σ ε β} (hm : ErrClean m)
    [hf : ∀ a, NoErr (f a)] : ErrClean (m >>= f) := ⟨fun s e he => by
  have h := hm.eq s
  rw [run_bind] at he ⊢
  rcases hr : m.run s with ⟨a | e' | _, s'⟩ <;> simp only [hr] at he h ⊢
  · exact absurd he ((hf a).ne _ _)
  · exact h e' rfl
  · cases he⟩

end Call

end Soroban
