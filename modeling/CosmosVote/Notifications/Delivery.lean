import CosmosVote.Notifications.Watcher

/-!
# What the cursor promises

The cursor in the file is only moved past an event when all subscribers who match it have been
notified, as far as their channels let them be.

* `Attempted`: an event has been taken, and every subscriber who matched it then has been called for;
* `never_skips`: in every run, with failures and crashes at any point, delivery of every event up to the
  cursor in the file has been attempted, and what is attempted does not depend on the channels.
-/

namespace CosmosVote.Notifications

open Soroban Concurrent

namespace Watcher

variable (env : Environment) (f : File) (is : List Action)

/-- The process after the actions. -/
abbrev reached : Watcher := run (step env) (init f) is

/-- The event has been taken, and of the calls for the subscribers who matched it then, on each channel they
    have, all have been made since but those that are left. -/
def Begun (event : GovernanceEvent) (left : List Call) : Prop :=
  ∃ xs ys events nextCursor, is = xs ++ .take :: ys ∧
    (reached env f xs).phase = .processing (event :: events) nextCursor ∧
    ∀ sub ∈ (load (reached env f xs).file.read).matchingSubscribers event.type event.proposalId,
      ∀ channel : NotificationChannel, channel.isConfigured env sub → (sub, channel) ∉ left →
        (event, sub, channel) ∈ (reached env f is).sent.drop (reached env f xs).sent.length

/-- All of these calls have been made. -/
def Attempted (event : GovernanceEvent) : Prop := Begun env f is event []

/-- All events up to the cursor have been attempted, but those that are left. -/
structure Reaches (cursor : Cursor) (left : List GovernanceEvent) : Prop where
  placed : Placed Record.id (reached env f is).records cursor.token
  attempted : ∀ record ∈ upTo Record.id (reached env f is).records cursor.token,
    ∀ event, parseEvent record = some event → event ∈ left ∨ Attempted env f is event

/-- What is known in each phase. -/
def SafeIn : Phase → Prop
  | .down => True
  | .waiting => True
  | .fetching cursor => Reaches env f is cursor []
  | .processing events nextCursor => Reaches env f is nextCursor events
  | .notifying event calls _ events nextCursor =>
    Reaches env f is nextCursor (event :: events) ∧ Begun env f is event calls
  | .saving store => Reaches env f is store.cursor []

/-- The cursor in the file, and those in what the command line is going to write. -/
structure Safe : Prop where
  file : Reaches env f is (reached env f is).file.cursor []
  pending : ∀ c ∈ (reached env f is).disk.pending, Reaches env f is c.2.cursor []
  phase : SafeIn env f is (reached env f is).phase

theorem reached_concat (a : Action) : reached env f (is ++ [a]) = (reached env f is).step env a := run_concat ..

/-- In a longer run there are more records, and more calls. -/
theorem reached_append (xs ys : List Action) :
    (reached env f xs).records <+: (reached env f (xs ++ ys)).records ∧
      (reached env f xs).sent <+: (reached env f (xs ++ ys)).sent := by
  rw [reached, reached, run_append]
  refine run_invariant (I := fun w : Watcher =>
    (reached env f xs).records <+: w.records ∧ (reached env f xs).sent <+: w.sent) ?_
    ⟨List.prefix_refl _, List.prefix_refl _⟩ ys
  intro w a hw
  have hstep := step_grows env w a
  exact ⟨hw.1.trans hstep.1, hw.2.trans hstep.2⟩

variable {env f is} {event : GovernanceEvent} {left : List Call} {cursor : Cursor} {events : List GovernanceEvent}

/-- Of the calls that were left, some more may have been made. -/
theorem Begun.concat (h : Begun env f is event left) (a : Action) {left' : List Call}
    (hleft : ∀ c ∈ left, c ∉ left' →
      (event, c) ∈ (reached env f (is ++ [a])).sent.drop (reached env f is).sent.length) :
    Begun env f (is ++ [a]) event left' := by
  obtain ⟨xs, ys, events, nextCursor, rfl, hphase, hcalls⟩ := h
  refine ⟨xs, ys ++ [a], events, nextCursor, by rw [List.append_assoc, List.cons_append], hphase, ?_⟩
  intro sub hsub channel hchannel hnot
  obtain ⟨sent, hsent⟩ := (reached_append env f (xs ++ .take :: ys) [a]).2
  have hle := (reached_append env f xs (.take :: ys)).2.length_le
  by_cases hc : (sub, channel) ∈ left
  · exact List.drop_subset_drop_left _ hle (hleft _ hc hnot)
  · rw [← hsent, List.drop_append_of_le_length hle]
    exact List.mem_append_left _ (hcalls sub hsub channel hchannel hc)

theorem Attempted.concat (h : Attempted env f is event) (a : Action) : Attempted env f (is ++ [a]) event :=
  Begun.concat h a (List.forall_mem_nil _)

theorem Reaches.concat (h : Reaches env f is cursor events) (a : Action) : Reaches env f (is ++ [a]) cursor events := by
  obtain ⟨records, hrecords⟩ := (reached_append env f is [a]).1
  constructor
  · rw [← hrecords]
    exact h.placed.append records
  · rw [← hrecords, upTo_append h.placed]
    exact fun record hrecord event hevent => (h.attempted record hrecord event hevent).imp_right (.concat · a)

theorem SafeIn.concat {phase : Phase} (h : SafeIn env f is phase) (a : Action) : SafeIn env f (is ++ [a]) phase := by
  cases phase with
  | down => trivial
  | waiting => trivial
  | fetching cursor => exact Reaches.concat h a
  | processing events nextCursor => exact Reaches.concat h a
  | notifying event calls pending events nextCursor =>
    exact ⟨h.1.concat a, h.2.concat a fun _ hc hnot => absurd hc hnot⟩
  | saving store => exact Reaches.concat h a

/-- A step that leaves the file alone, and what is going to be written to it. -/
theorem Safe.concat (h : Safe env f is) {a : Action} {w : Watcher} (hw : reached env f (is ++ [a]) = w)
    (hdisk : w.disk = (reached env f is).disk) (hphase : SafeIn env f (is ++ [a]) w.phase) :
    Safe env f (is ++ [a]) := by
  refine ⟨?_, ?_, hw ▸ hphase⟩
  · rw [hw, Watcher.file, hdisk]
    exact h.file.concat a
  · rw [hw, hdisk]
    exact fun c hc => (h.pending c hc).concat a

/-- The events of a page are left when it has been fetched. -/
theorem Reaches.fetch (h : Reaches env f is cursor []) (hids : ((reached env f is).records.map Record.id).Nodup) :
    let found := fetchNewEvents (contractEvents (reached env f is).records cursor.token pageSize) cursor
    Reaches env f is found.2 found.1 := by
  intro found
  have hafter : after Record.id (reached env f is).records cursor.token =
      contractEvents (reached env f is).records cursor.token pageSize ++
        (after Record.id (reached env f is).records cursor.token).drop pageSize := (List.take_append_drop ..).symm
  constructor
  · rw [token_fetchNewEvents]
    exact h.placed.next hafter
  · intro record hrecord event hevent
    dsimp only [found] at hrecord ⊢
    rw [token_fetchNewEvents, upTo_next hids hafter] at hrecord
    rcases List.mem_append.1 hrecord with hrecord | hrecord
    · exact .inr ((h.attempted record hrecord event hevent).resolve_left List.not_mem_nil)
    · left
      rw [fetchNewEvents_eq]
      exact List.mem_filterMap.2 ⟨record, hrecord, hevent⟩

/-- The cursor is of no concern to the command line. -/
theorem cursor_edit {o : CliOp} {f g : File} (h : o.edit f = some g) : g.cursor = f.cursor := by
  cases o with
  | addSubscriber sub =>
    have hcursor : (perform StoreOp.edit f (.addSubscriber sub)).cursor = f.cursor := cursor_perform f (by simp)
    rwa [perform, show StoreOp.edit (.addSubscriber sub) f = some g from h] at hcursor
  | removeSubscriber id =>
    have hcursor : (perform StoreOp.edit f (.removeSubscriber id)).cursor = f.cursor := cursor_perform f (by simp)
    rwa [perform, show StoreOp.edit (.removeSubscriber id) f = some g from h] at hcursor

/-- The command line writes the cursor that it has loaded. -/
theorem Safe.cli (h : Safe env f is) {access : Access CliOp}
    (hw : reached env f (is ++ [.cli access]) =
      { reached env f is with disk := (reached env f is).disk.step CliOp.edit access }) :
    Safe env f (is ++ [.cli access]) := by
  have hstep := step_cases CliOp.edit (reached env f is).disk access
  refine ⟨?_, ?_, by rw [hw]; exact h.phase.concat _⟩
  · rw [hw, Watcher.file]
    dsimp only
    rcases hstep with hsame | ⟨o, g, _, _, hstep⟩ | ⟨k, o, g, _, hk, hstep⟩
    · rw [hsame]
      exact h.file.concat _
    · rw [hstep]
      exact h.file.concat _
    · rw [hstep]
      exact (h.pending _ (List.mem_of_getElem? hk)).concat _
  · rw [hw]
    dsimp only
    rcases hstep with hsame | ⟨o, g, _, hedit, hstep⟩ | ⟨k, o, g, _, _, hstep⟩
    · rw [hsame]
      exact fun c hc => (h.pending c hc).concat _
    · rw [hstep]
      intro c hc
      rcases List.mem_append.1 hc with hc | hc
      · exact (h.pending c hc).concat _
      · rw [List.mem_singleton.1 hc, cursor_edit hedit]
        exact h.file.concat _
    · rw [hstep]
      exact fun c hc => (h.pending c (List.eraseIdx_subset hc)).concat _

/-- Whatever happens next, the cursors stay behind what has been attempted. -/
theorem Safe.step (h : Safe env f is) (a : Action)
    (hids : ((reached env f (is ++ [a])).records.map Record.id).Nodup) : Safe env f (is ++ [a]) := by
  have hids' : ((reached env f is).records.map Record.id).Nodup :=
    hids.sublist (((reached_append env f is [a]).1.sublist).map _)
  have heffect : Effect env (reached env f is) a (reached env f (is ++ [a])) := by
    rw [reached_concat]
    exact effect_step a
  generalize hw : reached env f (is ++ [a]) = w at heffect
  have hphase := h.phase
  cases heffect with
  | none => exact h.concat hw rfl (hphase.concat a)
  | arrive record => exact h.concat hw rfl (hphase.concat _)
  | cli access => exact h.cli hw
  | fetch => exact h.concat hw rfl (h.file.concat a)
  | found ok hfetching =>
    rw [hfetching] at hphase
    rw [fetch] at hw
    split at hw
    · exact h.concat hw rfl ((Reaches.fetch hphase hids').concat _)
    · exact h.concat hw rfl trivial
  | wait => exact h.concat hw rfl trivial
  | @take event events nextCursor hprocessing =>
    rw [hprocessing] at hphase
    refine h.concat hw rfl ⟨Reaches.concat hphase _, is, [], events, nextCursor, rfl, hprocessing, ?_⟩
    exact fun sub hsub channel hchannel hnot => absurd (mem_calls.2 ⟨hsub, hchannel⟩) hnot
  | @call event c cs pending events nextCursor hnotifying =>
    rw [hnotifying] at hphase
    refine h.concat hw rfl ⟨hphase.1.concat _, hphase.2.concat _ ?_⟩
    intro d hd hnot
    obtain rfl := (List.mem_cons.1 hd).resolve_right hnot
    rw [hw, List.drop_left]
    exact List.mem_singleton_self _
  | settle k outcome hnotifying =>
    rw [hnotifying] at hphase
    exact h.concat hw rfl ⟨hphase.1.concat _, hphase.2.concat _ fun _ hd hnot => absurd hd hnot⟩
  | @done event events nextCursor hnotifying =>
    rw [hnotifying] at hphase
    refine h.concat hw rfl ⟨(hphase.1.concat _).placed, fun record hrecord other hevent => ?_⟩
    rcases (hphase.1.concat _).attempted record hrecord other hevent with hmem | hattempted
    · rcases List.mem_cons.1 hmem with rfl | hmem
      · exact .inr (Attempted.concat hphase.2 _)
      · exact .inl hmem
    · exact .inr hattempted
  | load hprocessing =>
    rw [hprocessing] at hphase
    exact h.concat hw rfl (Reaches.concat hphase _)
  | save ok hsaving =>
    rw [hsaving] at hphase
    refine ⟨?_, by rw [hw]; exact fun c hc => (h.pending c hc).concat _, by rw [hw]; trivial⟩
    rw [hw, Watcher.file]
    dsimp only
    split
    · exact Reaches.concat hphase _
    · exact h.file.concat _
  | crash => exact h.concat hw rfl trivial

theorem safe_reached (hf : f.cursor = .now) (hids : ((reached env f is).records.map Record.id).Nodup) :
    Safe env f is := by
  induction is using List.reverseRecOn with
  | nil =>
    refine ⟨⟨?_, ?_⟩, List.forall_mem_nil _, trivial⟩
    · exact hf ▸ placed_none
    · intro record hrecord
      rw [show (reached env f []).file.cursor = .now from hf] at hrecord
      exact absurd hrecord List.not_mem_nil
  | append_singleton is a ih =>
    exact (ih (hids.sublist (((reached_append env f is [a]).1.sublist).map _))).step a hids

end Watcher

/-- The same action, but a call of `send` that ends has succeeded. -/
def Action.delivered : Action → Action
  | .settle k _ => .settle k (.ok ())
  | a => a

namespace Watcher

variable {env : Environment} {f : File} {is : List Action}

/-- Whether the calls succeed makes no difference but to the results. -/
theorem step_delivered (w : Watcher) (a : Action) (results : List (Subscriber × ChannelResult)) :
    ∃ results', { w with results }.step env a.delivered = { w.step env a with results := results' } := by
  obtain ⟨disk, records, phase, handed, sent, _⟩ := w
  cases a with
  | start => cases phase <;> exact ⟨results, rfl⟩
  | poll => cases phase <;> exact ⟨results, rfl⟩
  | fetched ok =>
    cases phase with
    | fetching cursor =>
      refine ⟨results, ?_⟩
      simp only [Action.delivered, step, fetch]
      split_ifs <;> rfl
    | _ => exact ⟨results, rfl⟩
  | take => rcases phase with _ | _ | _ | ⟨_ | _, _⟩ | _ | _ <;> exact ⟨results, rfl⟩
  | call => rcases phase with _ | _ | _ | _ | ⟨_, _ | _, _, _, _⟩ | _ <;> exact ⟨results, rfl⟩
  | settle k outcome =>
    rcases phase with _ | _ | _ | _ | ⟨_, _ | _, pending, _, _⟩ | _
    case notifying.nil =>
      simp only [Action.delivered, step]
      cases pending[k]? with
      | none => exact ⟨results, rfl⟩
      | some c => exact ⟨_, rfl⟩
    all_goals exact ⟨results, rfl⟩
  | done => rcases phase with _ | _ | _ | _ | ⟨_, _ | _, _ | _, _, _⟩ | _ <;> exact ⟨results, rfl⟩
  | load => rcases phase with _ | _ | _ | ⟨_ | _, _⟩ | _ | _ <;> exact ⟨results, rfl⟩
  | save ok => cases phase <;> exact ⟨results, rfl⟩
  | _ => exact ⟨results, rfl⟩

theorem reached_delivered (env : Environment) (f : File) (is : List Action) :
    ∃ results, reached env f (is.map Action.delivered) = { reached env f is with results } := by
  induction is using List.reverseRecOn with
  | nil => exact ⟨_, rfl⟩
  | append_singleton is a ih =>
    obtain ⟨results, hresults⟩ := ih
    rw [List.map_append, List.map_singleton, reached_concat, reached_concat, hresults]
    exact step_delivered _ a results

end Watcher

/-- In every run of the watcher, with polls, failing requests, failing channels, failing saves, crashes at any
    point and restarts, and with any operations of the command line in between:

    * every event up to the cursor in the file has been attempted: after it was taken, every subscriber who
      matched it then has been called for on each of their channels;
    * the calls that are made are those that would be made if no call failed. -/
theorem never_skips {env : Environment} {f : File} {is : List Action} (hf : f.cursor = .now)
    (hids : ((Watcher.reached env f is).records.map Record.id).Nodup) :
    (∀ record ∈ upTo Record.id (Watcher.reached env f is).records (Watcher.reached env f is).file.cursor.token,
      ∀ event, parseEvent record = some event → Watcher.Attempted env f is event) ∧
    (Watcher.reached env f (is.map Action.delivered)).sent = (Watcher.reached env f is).sent := by
  constructor
  · intro record hrecord event hevent
    exact ((Watcher.safe_reached hf hids).file.attempted record hrecord event hevent).resolve_left List.not_mem_nil
  · obtain ⟨results, hresults⟩ := Watcher.reached_delivered env f is
    rw [hresults]

/-- The mail cannot be sent: it has been attempted all the same when the cursor is saved. -/
theorem never_skips_failing :
    let env : Environment := ⟨none, none⟩
    let is : List Action := [.cli (.load (.addSubscriber (sampleSubscriber "a1"))), .cli (.save 0),
      .arrive (sampleRecord "created" 1), .start, .fetched true, .take, .call, .settle 0 (.error "ECONNREFUSED"),
      .done, .load, .save true]
    (Watcher.reached env .missing is).file.cursor = .after ⟨5, 1⟩ ∧
      Watcher.Attempted env .missing is ⟨.created, some "0", 5, sampleRecord "created" 1⟩ := by
  intro env is
  refine ⟨by decide, ?_⟩
  exact (never_skips rfl (by decide)).1 (sampleRecord "created" 1) (by decide) _ (by decide)

end CosmosVote.Notifications
