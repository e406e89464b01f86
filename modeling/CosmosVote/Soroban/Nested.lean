import CosmosVote.Soroban.Env

/-!
# Nested calls

A contract that calls others runs in a context (`Ctx`): its own store, and what is
outside of it. It reads the outside by asking (`ask`) and changes it by invoking
(`invoke`); the host aborts the call when the contract it calls fails. There is no
re-entry: what is outside cannot touch the store of a contract that is being called.
`answer` and `leaves` are what a call of one contract is to another.
-/

namespace Soroban

/-- The store of a contract, with what is outside of it. -/
structure Ctx (σ ω : Type) where
  store : σ
  outside : ω

namespace Call

variable {σ ω ε α : Type}

/-- Write the store. -/
def update (f : σ → σ) : Call (Ctx σ ω) ε Unit := modify fun c => { c with store := f c.store }

/-- The answer of another contract to a call that changes nothing. -/
def ask (q : ω → Option α) : Call (Ctx σ ω) ε α := do
  let c ← get
  orTrap (q c.outside) .calleeFailed

/-- A call of another contract. -/
def invoke (f : ω → Option ω) : Call (Ctx σ ω) ε Unit := do
  let c ← get
  let o ← orTrap (f c.outside) .calleeFailed
  modify fun c => { c with outside := o }

@[simp]
theorem run_update (f : σ → σ) (c : Ctx σ ω) :
    (update f : Call (Ctx σ ω) ε Unit).run c = (.ok (), ⟨f c.store, c.outside⟩) := rfl

@[simp]
theorem run_ask_ok {q : ω → Option α} {c c' : Ctx σ ω} {a : α} :
    (ask q : Call (Ctx σ ω) ε α).run c = (.ok a, c') ↔ q c.outside = some a ∧ c = c' := by
  simp [ask, and_comm]

@[simp]
theorem run_invoke_ok {f : ω → Option ω} {c c' : Ctx σ ω} {u : Unit} :
    (invoke f : Call (Ctx σ ω) ε Unit).run c = (.ok u, c') ↔
      ∃ o, f c.outside = some o ∧ ⟨c.store, o⟩ = c' := by
  simp [invoke]

@[simp]
theorem run_ask_trap {q : ω → Option α} {c c' : Ctx σ ω} {t : Trap} :
    (ask q : Call (Ctx σ ω) ε α).run c = (.trap t, c') ↔
      q c.outside = none ∧ .calleeFailed = t ∧ c = c' := by
  simp [ask]

@[simp]
theorem trapsOnly_update {A : Trap → Prop} (f : σ → σ) (c : Ctx σ ω) :
    (update f : Call (Ctx σ ω) ε Unit).TrapsOnly A c := trapsOnly_of_ok (run_update f c)

@[simp]
theorem trapsOnly_ask {A : Trap → Prop} {q : ω → Option α} {c : Ctx σ ω} :
    (ask q : Call (Ctx σ ω) ε α).TrapsOnly A c ↔ (q c.outside = none → A .calleeFailed) :=
  trapsOnly_iff_imp fun _ _ => run_ask_trap

@[simp]
theorem trapsOnly_invoke {A : Trap → Prop} {f : ω → Option ω} {c : Ctx σ ω} :
    (invoke f : Call (Ctx σ ω) ε Unit).TrapsOnly A c ↔ (f c.outside = none → A .calleeFailed) := by
  have hmodify (o : ω) (c : Ctx σ ω) :
      (modify fun c => { c with outside := o } : Call (Ctx σ ω) ε Unit).TrapsOnly A c :=
    trapsOnly_of_ok (run_modify _ c)
  simp [invoke, hmodify]

instance (f : σ → σ) : NoErr (update f : Call (Ctx σ ω) ε Unit) := by
  rw [update]; infer_instance

instance (q : ω → Option α) : ReadOnly (ask q : Call (Ctx σ ω) ε α) := by
  rw [ask]; infer_instance

instance (q : ω → Option α) : NoErr (ask q : Call (Ctx σ ω) ε α) := by
  rw [ask]; infer_instance

instance (f : ω → Option ω) : NoErr (invoke f : Call (Ctx σ ω) ε Unit) := by
  rw [invoke]; infer_instance

/-! ## Calls that are made by others -/

/-- What the caller gets from a call that returns a value. -/
def answer (m : Call σ ε α) (s : σ) : Option α :=
  match (m.run s).1 with
  | .ok a => some a
  | .err _ => none
  | .trap _ => none

/-- The state that a call leaves, if it returns a value. -/
def leaves (m : Call σ ε α) (s : σ) : Option σ :=
  match m.run s with
  | (.ok _, s') => some s'
  | (.err _, _) => none
  | (.trap _, _) => none

theorem answer_of_ok {m : Call σ ε α} {s s' : σ} {a : α} (h : m.run s = (.ok a, s')) :
    m.answer s = some a := by
  rw [answer, h]

theorem leaves_eq_some {m : Call σ ε α} {s s' : σ} :
    m.leaves s = some s' ↔ ∃ a, m.run s = (.ok a, s') := by
  rw [leaves]
  rcases m.run s with ⟨_ | _ | _, s₁⟩ <;> simp

end Call

end Soroban
