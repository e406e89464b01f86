import CosmosVote.Soroban.Handover
import CosmosVote.Governance.Pause
import CosmosVote.Token.Conservation

/-!
# The succession of the admins

Both contracts have an admin who hands over in two steps: `propose_admin` stores who is to be
the next one, and they become the admin by `accept_admin`. In governance, the admin can also
withdraw (`cancel_admin_transfer`). What is stored says nothing of who has proposed.

* `Governance.Effect.handsOver`, `Token.Effect.handsOver`: what each call does to the role;
* `admin_succession`: so only who the present admin has proposed last can become the next one.
-/

namespace CosmosVote

open Soroban

namespace Governance

variable {ω : Type}

/-- The admin, and who is proposed for it. -/
def Store.role (s : Store) : Role Address := ⟨s.admin, s.pendingAdmin⟩

/-- What a call that succeeds does to the role of the admin. -/
def Op.act : Op → Act Address
  | .initializeContract admin _ _ _ _ _ _ => .assign admin
  | .proposeAdmin admin newAdmin => .propose admin newAdmin
  | .cancelAdminTransfer admin => .withdraw admin
  | .acceptAdmin pendingAdmin => .accept pendingAdmin
  | _ => .keep

/-- What a call does to the role of the admin: nothing, if it fails. -/
def act (s : Store) (i : Input ω) : Act Address := if Succeeds s i then i.op.act else .keep

/-- The address has authorised the call. -/
def Input.Auth (i : Input ω) (a : Address) : Prop := i.env.auth a = true

/-- Each call acts on the role of the admin, by the authority of who acts. -/
theorem Effect.handsOver {s s' : Store} {env : Env ω} {op : Op} {o o' : ω} (h : Effect env s o op s' o')
    (hfresh : Fresh s) :
    s.role.Step op.act s'.role ∧ ∀ a, op.act.actor = some a → env.auth a = true := by
  obtain ⟨⟩ := s
  cases h with
  | initializeContract hinit =>
    obtain rfl := (hfresh hinit).1
    exact ⟨.assign _ _, nofun⟩
  | proposeAdmin hauth hadmin =>
    obtain rfl := hadmin
    exact ⟨.propose _ _ _, fun a ha => Option.some_inj.1 ha ▸ hauth⟩
  | cancelAdminTransfer hauth hadmin hpending =>
    obtain rfl := hadmin
    obtain rfl := hpending
    exact ⟨.withdraw _ _, fun a ha => Option.some_inj.1 ha ▸ hauth⟩
  | acceptAdmin hauth hpending hadmin =>
    obtain rfl := hadmin
    obtain rfl := hpending
    exact ⟨.accept _ _, fun a ha => Option.some_inj.1 ha ▸ hauth⟩
  | _ => exact ⟨.keep _, nofun⟩

theorem handsOver (is : List (Input ω)) (i : Input ω) :
    HandsOver step Store.role act Input.Auth (run step Store.empty is) i := by
  by_cases hi : Succeeds (run step Store.empty is) i
  · obtain ⟨o, he⟩ := hi.effect
    obtain ⟨hrole, hauth⟩ := he.handsOver (run_fresh is)
    have hact : act (run step Store.empty is) i = i.op.act := if_pos hi
    exact ⟨hact ▸ hrole, hact ▸ hauth⟩
  · exact .keep (if_neg hi) (by rw [step_of_not_succeeds hi])

end Governance

namespace Token

/-- The admin, and who is proposed for it. -/
def Store.role (s : Store) : Role Address := ⟨s.admin, s.pendingAdmin⟩

/-- What a call that succeeds does to the role of the admin. -/
def Op.act : Op → Act Address
  | .initializeContract admin _ _ _ _ => .assign admin
  | .proposeAdmin admin newAdmin => .propose admin newAdmin
  | .acceptAdmin pendingAdmin => .accept pendingAdmin
  | _ => .keep

/-- What a call does to the role of the admin: nothing, if it fails. -/
def act (s : Store) (c : Input) : Act Address := if Succeeds s c then c.op.act else .keep

/-- The address has authorised the call. -/
def Input.Auth (c : Input) (a : Address) : Prop := c.env.auth a = true

/-- Each call acts on the role of the admin, by the authority of who acts. -/
theorem Effect.handsOver {s s' : Store} {env : HostEnv} {op : Op} (h : Effect env s op s')
    (hs : Conserved s) :
    s.role.Step op.act s'.role ∧ ∀ a, op.act.actor = some a → env.auth a = true := by
  have hfresh := hs.fresh
  obtain ⟨⟩ := s
  cases h with
  | initializeContract hinit =>
    obtain rfl := (hfresh hinit).1
    exact ⟨.assign _ _, nofun⟩
  | proposeAdmin hauth hadmin =>
    obtain rfl := hadmin
    exact ⟨.propose _ _ _, fun a ha => Option.some_inj.1 ha ▸ hauth⟩
  | acceptAdmin hauth hpending hadmin =>
    obtain rfl := hadmin
    obtain rfl := hpending
    exact ⟨.accept _ _, fun a ha => Option.some_inj.1 ha ▸ hauth⟩
  | _ => exact ⟨.keep _, nofun⟩

theorem handsOver (cs : List Input) (c : Input) :
    HandsOver step Store.role act Input.Auth (run step Store.empty cs) c := by
  by_cases hc : Succeeds (run step Store.empty cs) c
  · obtain ⟨hrole, hauth⟩ := hc.effect.handsOver (run_conserved cs)
    have hact : act (run step Store.empty cs) c = c.op.act := if_pos hc
    exact ⟨hact ▸ hrole, hact ▸ hauth⟩
  · exact .keep (if_neg hc) (by rw [step_of_not_succeeds hc])

end Token

/-- In every run of governance, and in every run of the token, from before the initialisation on: a stored
    pending admin was proposed by the present admin, who has been the admin ever since, and no admin has
    been proposed, withdrawn or accepted since; the same is true of whoever accepts, who has authorised
    that; and an admin changes in no other way. -/
theorem admin_succession {ω : Type} :
    (∀ is : List (Governance.Input ω), Handed Governance.step Governance.Store.role Governance.act
      Governance.Input.Auth Governance.Store.empty is) ∧
    ∀ cs : List Token.Input, Handed Token.step Token.Store.role Token.act Token.Input.Auth
      Token.Store.empty cs :=
  ⟨handed Governance.handsOver rfl, handed Token.handsOver rfl⟩

end CosmosVote
