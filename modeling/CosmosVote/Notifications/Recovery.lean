import CosmosVote.Notifications.Subscriptions

/-!
# Errors in reading the subscription store

Every operation loads the file first, and takes any error in that for an empty store with the cursor `'now'`:
that the file is missing, that it cannot be read just now, and that its content does not parse. What the
operation saves then replaces whatever is in the file.

* `store_kept_iff`: when what is in the file survives an operation.
-/

namespace CosmosVote.Notifications

/-- How reading the file goes: `readFileSync` returns its text, or throws. -/
inductive Reading
  | succeeds
  | fails
  deriving DecidableEq

/-- What reading and parsing the file gives, if the reading goes so. -/
def File.readAs (f : File) : Reading → Option SubscriptionStore
  | .succeeds => f.read
  | .fails => none

/-- What an operation saves, if anything: otherwise the file stays as it was. -/
def StoreOp.saves (op : StoreOp) (f : File) (r : Reading) : Option SubscriptionStore := op.apply (load (f.readAs r))

/-- The operation saves nothing if it finds no subscribers. -/
def StoreOp.Idle : StoreOp → Prop
  | .saveCursor _ => False
  | .addSubscriber sub => sub.hasChannel = false
  | .removeSubscriber _ => True

/-- The operation does not lose what is in the store if it takes the store for an empty one. -/
def StoreOp.Harmless (old : SubscriptionStore) : StoreOp → Prop
  | .saveCursor _ => old.subscribers = []
  | .addSubscriber sub => (∀ other ∈ old.subscribers, other = sub) ∧ old.cursor = .now
  | .removeSubscriber _ => False

/-- What an operation saves has everything that was in the file, but for what the operation is to change. What
    is in a damaged file cannot be kept. -/
structure Kept (f : File) (op : StoreOp) (s : SubscriptionStore) : Prop where
  not_damaged : f ≠ .damaged
  subscribers : ∀ old, f = .stored old → ∀ sub ∈ old.subscribers, op ≠ .removeSubscriber sub.id → sub ∈ s.subscribers
  cursor : ∀ old, f = .stored old → (∀ cursor, op ≠ .saveCursor cursor) → s.cursor = old.cursor

variable {f : File} {op : StoreOp} {r : Reading} {s old : SubscriptionStore}

theorem StoreOp.edit_eq_saves (op : StoreOp) (f : File) : op.edit f = (op.saves f .succeeds).map .stored := rfl

theorem SubscriptionStore.addSubscriber_eq_some {sub : Subscriber} :
    old.addSubscriber sub = some s ↔
      sub.hasChannel ∧ { old with subscribers := old.subscribers ++ [sub] } = s := by
  rw [addSubscriber, Option.ite_none_right_eq_some, Option.some_inj]

/-- An operation on a store keeps what is in it. -/
theorem kept_apply (h : op.apply old = some s) : Kept (.stored old) op s := by
  cases op with
  | saveCursor cursor =>
    obtain rfl := Option.some_inj.1 h
    refine ⟨by simp, ?_, fun _ _ hop => absurd rfl (hop cursor)⟩
    rintro _ ⟨⟩ sub hsub _
    exact hsub
  | addSubscriber sub =>
    obtain ⟨_, rfl⟩ := SubscriptionStore.addSubscriber_eq_some.1 h
    refine ⟨by simp, ?_, ?_⟩
    · rintro _ ⟨⟩ other hother _
      exact List.mem_append_left _ hother
    · rintro _ ⟨⟩ _
      rfl
  | removeSubscriber id =>
    rw [StoreOp.apply, SubscriptionStore.removeSubscriber] at h
    split at h
    · cases h
    · obtain rfl := Option.some_inj.1 h
      refine ⟨by simp, ?_, ?_⟩
      · rintro _ ⟨⟩ sub hsub hop
        exact List.mem_filter.2 ⟨hsub, decide_eq_true fun e => hop (congrArg StoreOp.removeSubscriber e.symm)⟩
      · rintro _ ⟨⟩ _
        rfl

theorem apply_idle (h : op.Idle) : op.apply ⟨[], .now⟩ = none := by
  cases op with
  | saveCursor cursor => exact absurd h id
  | addSubscriber sub =>
    rw [StoreOp.apply, SubscriptionStore.addSubscriber, if_neg (Bool.eq_false_iff.1 h)]
  | removeSubscriber id => rfl

/-- Over a damaged file, an operation must not save anything. -/
theorem kept_damaged_iff : (∀ s, op.apply ⟨[], .now⟩ = some s → Kept .damaged op s) ↔ op.Idle := by
  constructor
  · intro h
    by_contra hidle
    cases op with
    | saveCursor cursor => exact (h _ rfl).not_damaged rfl
    | addSubscriber sub => exact (h _ (if_pos (Bool.not_eq_false _ |>.mp hidle))).not_damaged rfl
    | removeSubscriber id => exact hidle trivial
  · intro hidle s hs
    rw [apply_idle hidle] at hs
    cases hs

/-- Over a file that is taken for an empty one, an operation must not save anything, unless there is nothing to
    lose. -/
theorem kept_unread_iff :
    (∀ s, op.apply ⟨[], .now⟩ = some s → Kept (.stored old) op s) ↔ op.Idle ∨ op.Harmless old := by
  constructor
  · intro h
    cases op with
    | saveCursor cursor =>
      refine .inr (List.eq_nil_iff_forall_not_mem.2 fun sub hsub => ?_)
      exact List.not_mem_nil ((h _ rfl).subscribers old rfl sub hsub (by simp))
    | addSubscriber sub =>
      by_cases hchannel : sub.hasChannel
      · have hkept := h _ (if_pos hchannel)
        refine .inr ⟨fun other hother => ?_, (hkept.cursor old rfl (by simp)).symm⟩
        exact List.mem_singleton.1 (hkept.subscribers old rfl other hother (by simp))
      · exact .inl (Bool.eq_false_iff.2 hchannel)
    | removeSubscriber id => exact .inl trivial
  · rintro (hidle | hharmless) s hs
    · rw [apply_idle hidle] at hs
      cases hs
    · refine ⟨by simp, ?_, ?_⟩
      · rintro _ ⟨⟩ other hother _
        cases op with
        | saveCursor cursor =>
          rw [show old.subscribers = [] from hharmless] at hother
          exact absurd hother List.not_mem_nil
        | addSubscriber sub =>
          obtain ⟨_, rfl⟩ := SubscriptionStore.addSubscriber_eq_some.1 hs
          rw [hharmless.1 other hother]
          exact List.mem_singleton_self sub
        | removeSubscriber id => exact absurd hharmless not_false
      · rintro _ ⟨⟩ hop
        cases op with
        | saveCursor cursor => exact absurd rfl (hop cursor)
        | addSubscriber sub =>
          obtain ⟨_, rfl⟩ := SubscriptionStore.addSubscriber_eq_some.1 hs
          exact hharmless.2.symm
        | removeSubscriber id => exact absurd hharmless not_false

/-- For every content of the file and every outcome of reading it, an operation keeps what is in the file or leaves
    it as it was exactly if there is no file yet, if the file is read and parses, if the operation saves nothing
    when it finds nothing, or if there is nothing in the file that it would lose. -/
theorem store_kept_iff (f : File) (op : StoreOp) (r : Reading) :
    (∀ s, op.saves f r = some s → Kept f op s) ↔
      f = .missing ∨ op.Idle ∨ ∃ old, f = .stored old ∧ (r = .succeeds ∨ op.Harmless old) := by
  cases f with
  | missing => exact iff_of_true (fun s _ => ⟨by simp, by simp, by simp⟩) (.inl rfl)
  | damaged =>
    have hsaves : op.saves .damaged r = op.apply ⟨[], .now⟩ := by cases r <;> rfl
    rw [hsaves, kept_damaged_iff]
    simp
  | stored old =>
    cases r with
    | succeeds => exact iff_of_true (fun s hs => kept_apply hs) (.inr (.inr ⟨old, rfl, .inl rfl⟩))
    | fails =>
      refine kept_unread_iff.trans ?_
      simp

/-- A subscriber is added to a store that cannot be read just now. -/
theorem store_lost_on_read_error :
    let f : File := .stored ⟨[sampleSubscriber "a1"], .after ⟨5, 1⟩⟩
    let op := StoreOp.addSubscriber (sampleSubscriber "b2")
    op.saves f .fails = some ⟨[sampleSubscriber "b2"], .now⟩ ∧
      ¬∀ s, op.saves f .fails = some s → Kept f op s := by
  intro f op
  have hsaves : op.saves f .fails = some ⟨[sampleSubscriber "b2"], .now⟩ := by decide
  refine ⟨hsaves, fun h => ?_⟩
  have hcursor := (h _ hsaves).cursor _ rfl (by simp [op])
  cases hcursor

end CosmosVote.Notifications
