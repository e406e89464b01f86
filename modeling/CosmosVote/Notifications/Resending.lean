import CosmosVote.Notifications.Delivery
import CosmosVote.Notifications.Messages

/-!
# What is sent again

An event is handed over again when the cursor that is past it has not been saved, or has been overwritten: after
a crash, after a save that failed, and after a save of the command line, which writes the cursor it has loaded.

* `due`: how often a call may still be made for an event, unless the process is interrupted;
* `resent_at_most`: an event is sent to a subscriber on a channel once, and once more for each interruption at
  most;
* `resent_each_time`: and each interruption can bring it about.
-/

namespace CosmosVote.Notifications

open Soroban Concurrent

/-- The cursor may fall back: what is being processed is given up, or the file gets an older store. -/
def Action.interrupts : Action → Bool
  | .crash => true
  | .save ok => !ok
  | .cli (.save _) => true
  | _ => false

/-- The subscriber that the command line is told to add. -/
def Action.added : Action → Option Subscriber
  | .cli (.load (.addSubscriber sub)) => some sub
  | _ => none

/-- An event is not made of two records. -/
theorem nodup_parseEvent {records : List Record} (h : records.Nodup) : (records.filterMap parseEvent).Nodup := by
  refine h.filterMap fun record record' event hrecord hrecord' => ?_
  rw [← raw_parseEvent hrecord, ← raw_parseEvent hrecord']

namespace Watcher

/-! ## What is still due -/

variable (event : GovernanceEvent) (c : Call) (w : Watcher)

/-- How often the event is among those up to the cursor: once, or not at all. -/
def seen (cursor : Cursor) : ℕ := ((upTo Record.id w.records cursor.token).filterMap parseEvent).count event

/-- How often the call may still be made for the event, if the process is not interrupted. -/
def due : Phase → ℕ
  | .down => 1 - seen event w w.file.cursor
  | .waiting => 1 - seen event w w.file.cursor
  | .fetching cursor => max (1 - seen event w cursor) (1 - seen event w w.file.cursor)
  | .processing events nextCursor => events.count event + (1 - seen event w nextCursor)
  | .notifying e calls _ events nextCursor =>
    (calls.map fun d => (e, d)).count (event, c) + events.count event + (1 - seen event w nextCursor)
  | .saving store => 1 - seen event w store.cursor

/-- What is left of a page is among what the next cursor is past, and nobody is called twice for it. -/
def Listed : Phase → Prop
  | .processing events nextCursor => events.count event ≤ seen event w nextCursor
  | .notifying e calls _ events nextCursor => (e :: events).count event ≤ seen event w nextCursor ∧ calls.Nodup
  | _ => True

variable {event c w}

theorem seen_le_one (hids : (w.records.map Record.id).Nodup) (cursor : Cursor) : seen event w cursor ≤ 1 := by
  refine List.nodup_iff_count_le_one.1 (nodup_parseEvent ?_) event
  exact (List.take_sublist ..).nodup (hids.of_map _)

/-- The calls for the event are made for it at most once each. -/
theorem count_calls_le {e : GovernanceEvent} {calls : List Call} (hcalls : calls.Nodup) :
    (calls.map fun d => (e, d)).count (event, c) ≤ [e].count event := by
  by_cases he : e = event
  · rw [he, List.count_singleton_self]
    exact List.nodup_iff_count_le_one.1 (hcalls.map fun _ _ h => (Prod.mk.inj h).2) _
  · rw [List.count_eq_zero_of_not_mem]
    · exact Nat.zero_le _
    · intro hmem
      obtain ⟨d, _, heq⟩ := List.mem_map.1 hmem
      exact he (Prod.mk.inj heq).1

/-- Wherever the process is, the call is due once at most. -/
theorem due_le_one (hids : (w.records.map Record.id).Nodup) {phase : Phase} (h : Listed event w phase) :
    due event c w phase ≤ 1 := by
  cases phase with
  | down => exact Nat.sub_le ..
  | waiting => exact Nat.sub_le ..
  | fetching cursor => exact max_le (Nat.sub_le ..) (Nat.sub_le ..)
  | processing events nextCursor =>
    have hlisted : events.count event ≤ seen event w nextCursor := h
    have hseen : seen event w nextCursor ≤ 1 := seen_le_one hids nextCursor
    rw [due]
    omega
  | notifying e calls pending events nextCursor =>
    obtain ⟨hlisted, hcalls⟩ := h
    have hcall : (calls.map fun d => (e, d)).count (event, c) ≤ [e].count event := count_calls_le hcalls
    have hseen : seen event w nextCursor ≤ 1 := seen_le_one hids nextCursor
    rw [← List.singleton_append, List.count_append] at hlisted
    rw [due]
    omega
  | saving store => exact Nat.sub_le ..

/-- What a cursor is past stays what it was as records arrive. -/
theorem seen_append {cursor : Cursor} (h : Placed Record.id w.records cursor.token) (records : List Record) :
    seen event { w with records := w.records ++ records } cursor = seen event w cursor := by
  rw [seen, seen, upTo_append h]

/-- What is found in a page moves from what the cursor is before to what the next one is past. -/
theorem seen_fetch (hids : (w.records.map Record.id).Nodup) (cursor : Cursor) :
    let found := fetchNewEvents (contractEvents w.records cursor.token pageSize) cursor
    seen event w found.2 = seen event w cursor + found.1.count event := by
  intro found
  have hafter : after Record.id w.records cursor.token = contractEvents w.records cursor.token pageSize ++
      (after Record.id w.records cursor.token).drop pageSize := (List.take_append_drop ..).symm
  rw [seen, token_fetchNewEvents, upTo_next hids hafter, List.filterMap_append, List.count_append, ← seen]
  dsimp only [found]
  rw [fetchNewEvents_eq]

/-! ## One step -/

section Phases

variable {e : GovernanceEvent} {events : List GovernanceEvent} {nextCursor : Cursor}

/-- The events found were due before, since the cursor was not past them. -/
theorem due_found (hids : (w.records.map Record.id).Nodup) (cursor : Cursor) :
    let found := fetchNewEvents (contractEvents w.records cursor.token pageSize) cursor
    due event c w (.processing found.1 found.2) ≤ due event c w (.fetching cursor) := by
  intro found
  have hseen : seen event w found.2 = seen event w cursor + found.1.count event := seen_fetch hids cursor
  have hle : seen event w found.2 ≤ 1 := seen_le_one hids found.2
  rw [due, due]
  omega

/-- The call is made for the event that is taken, or not. -/
theorem due_take {calls pending : List Call} (hcalls : calls.Nodup) :
    due event c w (.notifying e calls pending events nextCursor) ≤
      due event c w (.processing (e :: events) nextCursor) := by
  have hcall : (calls.map fun d => (e, d)).count (event, c) ≤ [e].count event := count_calls_le hcalls
  rw [due, due, ← List.singleton_append, List.count_append]
  omega

/-- A call that is made is not due any more. -/
theorem due_call (d : Call) (calls pending pending' : List Call) :
    [(e, d)].count (event, c) + due event c w (.notifying e calls pending' events nextCursor) =
      due event c w (.notifying e (d :: calls) pending events nextCursor) := by
  rw [due, due, List.map_cons, List.count_singleton, List.count_cons]
  omega

theorem due_done (pending : List Call) :
    due event c w (.processing events nextCursor) = due event c w (.notifying e [] pending events nextCursor) := by
  rw [due, due, List.map_nil, List.count_nil, Nat.zero_add]

theorem due_load (store : SubscriptionStore) :
    due event c w (.saving (store.saveCursor nextCursor)) = due event c w (.processing [] nextCursor) := by
  rw [due, due, List.count_nil, Nat.zero_add]
  rfl

end Phases

section Step

variable {env : Environment} {f : File} {is : List Action}

theorem Listed.append {phase : Phase} (h : Listed event (reached env f is) phase) (hsafe : SafeIn env f is phase)
    (records : List Record) :
    Listed event { reached env f is with records := (reached env f is).records ++ records } phase := by
  cases phase with
  | processing events nextCursor =>
    rw [Listed, seen_append (Reaches.placed hsafe)]
    exact h
  | notifying e calls pending events nextCursor =>
    rw [Listed, seen_append hsafe.1.placed]
    exact h
  | _ => trivial

theorem due_append (h : Safe env f is) {phase : Phase} (hsafe : SafeIn env f is phase) (records : List Record) :
    due event c { reached env f is with records := (reached env f is).records ++ records } phase =
      due event c (reached env f is) phase := by
  have hfile := @seen_append event _ _ h.file.placed records
  cases phase with
  | down => exact congrArg (1 - ·) hfile
  | waiting => exact congrArg (1 - ·) hfile
  | fetching cursor =>
    exact congrArg₂ (fun m n => max (1 - m) (1 - n)) (seen_append (Reaches.placed hsafe) records) hfile
  | processing events nextCursor => rw [due, due, seen_append (Reaches.placed hsafe)]
  | notifying e calls pending events nextCursor => rw [due, due, seen_append hsafe.1.placed]
  | saving store => exact congrArg (1 - ·) (seen_append (Reaches.placed hsafe) records)

theorem Listed.step (h : Listed event (reached env f is) (reached env f is).phase) (hsafe : Safe env f is)
    (hids : ((reached env f is).records.map Record.id).Nodup) (hsubscribers : (reached env f is).file.subscribers.Nodup)
    (a : Action) : Listed event ((reached env f is).step env a) ((reached env f is).step env a).phase := by
  have heffect : Effect env (reached env f is) a ((reached env f is).step env a) := effect_step a
  generalize (reached env f is).step env a = v at heffect ⊢
  have hphase := hsafe.phase
  cases heffect with
  | none => exact h
  | arrive record => exact h.append hphase [record]
  | cli access => exact h
  | found ok hfetching =>
    rw [fetch]
    split
    · exact (Nat.le_add_left ..).trans (seen_fetch hids _).ge
    · trivial
  | take hprocessing =>
    rw [hprocessing] at h
    exact ⟨h, nodup_calls hsubscribers _⟩
  | call hnotifying =>
    rw [hnotifying] at h
    exact ⟨h.1, h.2.of_cons⟩
  | settle k outcome hnotifying =>
    rw [hnotifying] at h
    exact h
  | done hnotifying =>
    rw [hnotifying] at h
    exact List.count_le_count_cons.trans h.1
  | _ => trivial

/-- The calls that have been made, and those that are due. -/
def charge (event : GovernanceEvent) (c : Call) (w : Watcher) : ℕ := w.sent.count (event, c) + due event c w w.phase

/-- A step that is no interruption makes the calls that are due, and lets no other ones become due. -/
theorem charge_step (hsafe : Safe env f is) (hids : ((reached env f is).records.map Record.id).Nodup)
    (hsubscribers : (reached env f is).file.subscribers.Nodup) {a : Action} (ha : a.interrupts = false) :
    charge event c ((reached env f is).step env a) ≤ charge event c (reached env f is) := by
  have hphase := hsafe.phase
  unfold charge
  cases a with
  | arrive record => exact Nat.add_le_add_left (due_append hsafe hphase [record]).le _
  | cli access =>
    cases access with
    | load o =>
      rw [step, Shared.step]
      split <;> exact le_rfl
    | save k => cases ha
  | start =>
    rw [step]
    split
    · rename_i h
      rw [h]
      exact Nat.add_le_add_left (max_self _).le _
    · exact le_rfl
  | poll =>
    rw [step]
    split
    · rename_i h
      rw [h]
      exact Nat.add_le_add_left (max_self _).le _
    · exact le_rfl
  | fetched ok =>
    rw [step]
    split
    · rename_i cursor h
      rw [h]
      split
      · rw [fetch]
        split
        · exact Nat.add_le_add_left (due_found hids cursor) _
        · exact Nat.add_le_add_left (le_max_right ..) _
      · exact Nat.add_le_add_left (le_max_right ..) _
    · exact le_rfl
  | take =>
    rw [step]
    split
    · rename_i e events nextCursor h
      rw [h]
      exact Nat.add_le_add_left (due_take (nodup_calls hsubscribers e)) _
    · exact le_rfl
  | call =>
    rw [step]
    split
    · rename_i e d calls pending events nextCursor h
      rw [h, ← due_call d calls pending (pending ++ [d]), List.count_append, Nat.add_assoc]
      exact le_rfl
    · exact le_rfl
  | settle k outcome =>
    rw [step]
    split
    · rename_i h
      split
      · rw [h]
        exact le_rfl
      · exact le_rfl
    · exact le_rfl
  | done =>
    rw [step]
    split
    · rename_i h
      rw [h]
      exact Nat.add_le_add_left (due_done []).le _
    · exact le_rfl
  | load =>
    rw [step]
    split
    · rename_i h
      rw [h]
      exact Nat.add_le_add_left (due_load _).le _
    · exact le_rfl
  | save ok =>
    obtain rfl : ok = true := by simpa [Action.interrupts] using ha
    rw [step]
    split
    · rename_i store h
      rw [h]
      exact le_rfl
    · exact le_rfl
  | crash => cases ha

end Step

/-! ## The subscribers -/

section Enrolled

variable (env : Environment) (f : File) (is : List Action)

/-- The subscribers in a file are different ones, who were there at first or have been added. -/
def Distinct (g : File) : Prop :=
  g.subscribers.Nodup ∧ g.subscribers ⊆ f.subscribers ++ is.filterMap Action.added

/-- So are those in the file, in what the command line is going to write, and in what `saveCursor` is. -/
structure Enrolled : Prop where
  file : Distinct f is (reached env f is).file
  pending : ∀ o ∈ (reached env f is).disk.pending, Distinct f is o.2
  saving : ∀ store, (reached env f is).phase = .saving store → Distinct f is (.stored store)

variable {env f is}

theorem Distinct.concat {g : File} (h : Distinct f is g) (a : Action) : Distinct f (is ++ [a]) g := by
  refine ⟨h.1, fun sub hsub => ?_⟩
  rw [List.filterMap_append, ← List.append_assoc]
  exact List.mem_append_left _ (h.2 hsub)

/-- The command line adds somebody new, or removes somebody. -/
theorem Distinct.edit {g g' : File} {o : CliOp} (h : Distinct f is g) (hg' : o.edit g = some g')
    (hnew : (f.subscribers ++ (is ++ [Action.cli (.load o)]).filterMap Action.added).Nodup) :
    Distinct f (is ++ [.cli (.load o)]) g' := by
  cases o with
  | addSubscriber sub =>
    have hperform : perform StoreOp.edit g (.addSubscriber sub) = g' := by
      rw [perform, show StoreOp.edit (.addSubscriber sub) g = some g' from hg', Option.getD_some]
    have hsubs : g'.subscribers = g.subscribers ++ if sub.hasChannel then [sub] else [] := by
      rw [← hperform, subscribers_add]
    rw [List.filterMap_append, ← List.append_assoc] at hnew
    have hsub : sub ∉ g.subscribers := fun hmem =>
      (List.nodup_append.1 hnew).2.2 sub (h.2 hmem) sub (List.mem_singleton_self sub) rfl
    rw [Distinct, hsubs]
    split
    · refine ⟨h.1.append (List.nodup_singleton sub) (List.disjoint_singleton.2 hsub), ?_⟩
      rw [List.filterMap_append, ← List.append_assoc]
      exact fun s hs => List.mem_append.2 ((List.mem_append.1 hs).imp_left (h.2 ·))
    · rw [List.append_nil]
      exact h.concat _
  | removeSubscriber id =>
    have hperform : perform StoreOp.edit g (.removeSubscriber id) = g' := by
      rw [perform, show StoreOp.edit (.removeSubscriber id) g = some g' from hg', Option.getD_some]
    rw [Distinct, ← hperform, subscribers_remove]
    exact ⟨h.1.filter _, fun sub hsub => (h.concat _).2 (List.mem_filter.1 hsub).1⟩

theorem Enrolled.step (h : Enrolled env f is) {a : Action}
    (hnew : (f.subscribers ++ (is ++ [a]).filterMap Action.added).Nodup) : Enrolled env f (is ++ [a]) := by
  have hfile := h.file.concat a
  have hpending (o : CliOp × File) (ho : o ∈ (reached env f is).disk.pending) : Distinct f (is ++ [a]) o.2 :=
    (h.pending o ho).concat a
  have hsaving (store : SubscriptionStore) (hstore : (reached env f is).phase = .saving store) :
      Distinct f (is ++ [a]) (.stored store) := (h.saving store hstore).concat a
  have heffect : Effect env (reached env f is) a (reached env f (is ++ [a])) := by
    rw [reached_concat]
    exact effect_step a
  generalize hw : reached env f (is ++ [a]) = w at heffect
  cases heffect with
  | none => exact ⟨hw ▸ hfile, hw ▸ hpending, hw ▸ hsaving⟩
  | arrive record => exact ⟨hw ▸ hfile, hw ▸ hpending, hw ▸ hsaving⟩
  | cli access =>
    rcases step_cases CliOp.edit (reached env f is).disk access with hsame | ⟨o, g, rfl, hedit, hstep⟩ |
      ⟨k, o, g, rfl, hk, hstep⟩
    · rw [hsame] at hw
      exact ⟨hw ▸ hfile, hw ▸ hpending, hw ▸ hsaving⟩
    · rw [hstep] at hw
      refine ⟨hw ▸ hfile, ?_, hw ▸ hsaving⟩
      rw [hw]
      intro o' ho'
      rcases List.mem_append.1 ho' with ho' | ho'
      · exact hpending o' ho'
      · rw [List.mem_singleton.1 ho']
        exact h.file.edit hedit hnew
    · rw [hstep] at hw
      refine ⟨?_, ?_, hw ▸ hsaving⟩
      · rw [hw]
        exact hpending _ (List.mem_of_getElem? hk)
      · rw [hw]
        exact fun o' ho' => hpending o' (List.eraseIdx_subset ho')
  | found ok hfetching =>
    rw [fetch] at hw
    split at hw <;>
    · exact ⟨hw ▸ hfile, hw ▸ hpending, by rw [hw]; exact fun _ hphase => Phase.noConfusion hphase⟩
  | load hprocessing =>
    refine ⟨hw ▸ hfile, hw ▸ hpending, ?_⟩
    rw [hw]
    rintro store hstore
    rw [← Phase.saving.inj hstore]
    exact hfile
  | @save ok store hstore =>
    refine ⟨?_, hw ▸ hpending, by rw [hw]; exact fun _ hphase => Phase.noConfusion hphase⟩
    rw [hw, Watcher.file]
    dsimp only
    split
    · exact hsaving store hstore
    · exact hfile
  | _ => exact ⟨hw ▸ hfile, hw ▸ hpending, by rw [hw]; exact fun _ hphase => Phase.noConfusion hphase⟩

end Enrolled

/-! ## Runs -/

variable {env : Environment} {f : File} {is : List Action}

theorem enrolled_reached (hnew : (f.subscribers ++ is.filterMap Action.added).Nodup) : Enrolled env f is := by
  induction is using List.reverseRecOn with
  | nil =>
    rw [List.filterMap_nil, List.append_nil] at hnew
    refine ⟨⟨hnew, List.subset_append_left ..⟩, List.forall_mem_nil _, ?_⟩
    exact fun store hstore => Phase.noConfusion hstore
  | append_singleton is a ih =>
    refine (ih (hnew.sublist ?_)).step hnew
    rw [List.filterMap_append]
    exact (List.sublist_append_left ..).append_left _

/-- Each interruption may let a call become due that has been made. -/
theorem charge_reached (hf : f.cursor = .now) (hids : ((reached env f is).records.map Record.id).Nodup)
    (hnew : (f.subscribers ++ is.filterMap Action.added).Nodup) (event : GovernanceEvent) (c : Call) :
    Listed event (reached env f is) (reached env f is).phase ∧
      charge event c (reached env f is) ≤ 1 + is.countP Action.interrupts := by
  induction is using List.reverseRecOn with
  | nil =>
    refine ⟨trivial, ?_⟩
    rw [charge, show (reached env f []).sent = [] from rfl, List.count_nil, Nat.zero_add, List.countP_nil]
    exact Nat.sub_le ..
  | append_singleton is a ih =>
    have hids' : ((reached env f is).records.map Record.id).Nodup :=
      hids.sublist (((reached_append env f is [a]).1.sublist).map _)
    have hnew' : (f.subscribers ++ is.filterMap Action.added).Nodup := by
      rw [List.filterMap_append, ← List.append_assoc] at hnew
      exact hnew.of_append_left
    obtain ⟨hlisted, hcharge⟩ := ih hids' hnew'
    have hsafe : Safe env f is := safe_reached hf hids'
    have hsubscribers : (reached env f is).file.subscribers.Nodup := (enrolled_reached hnew').file.1
    have hlisted' := hlisted.step hsafe hids' hsubscribers a
    rw [← reached_concat] at hlisted'
    refine ⟨hlisted', ?_⟩
    rw [List.countP_append, List.countP_singleton]
    cases ha : a.interrupts with
    | false =>
      have hstep : charge event c ((reached env f is).step env a) ≤ charge event c (reached env f is) :=
        charge_step hsafe hids' hsubscribers ha
      rw [← reached_concat] at hstep
      exact hstep.trans hcharge
    | true =>
      -- What has been made stays made, and what is due is due once at most, wherever the process is.
      have hsent : (reached env f (is ++ [a])).sent = (reached env f is).sent := by
        rw [reached_concat]
        exact sent_step fun h => by rw [h] at ha; cases ha
      have hdue : due event c (reached env f (is ++ [a])) (reached env f (is ++ [a])).phase ≤ 1 :=
        due_le_one hids hlisted'
      rw [charge, hsent]
      rw [charge] at hcharge
      simp only [if_true]
      omega

end Watcher

/-- In every run of the watcher, with failures and crashes at any point and any operations of the command line in
    between, an event is sent to a subscriber on a channel at most once, and once more for each time that the
    process crashes, cannot save its cursor, or has it overwritten by the command line. -/
theorem resent_at_most {env : Environment} {f : File} {is : List Action} (hf : f.cursor = .now)
    (hids : ((Watcher.reached env f is).records.map Record.id).Nodup)
    (hnew : (f.subscribers ++ is.filterMap Action.added).Nodup) (event : GovernanceEvent) (c : Call) :
    (Watcher.reached env f is).sent.count (event, c) ≤ 1 + is.countP Action.interrupts :=
  (Nat.le_add_right ..).trans (Watcher.charge_reached hf hids hnew event c).2

/-- The process crashes when the mail has been sent, and is started again: it is sent once more. -/
theorem resent_at_most_crash :
    let env : Environment := ⟨none, none⟩
    let event : GovernanceEvent := ⟨.created, some "0", 5, sampleRecord "created" 1⟩
    let is : List Action := [.arrive (sampleRecord "created" 1), .start, .fetched true, .take, .call, .crash, .start,
      .fetched true, .take, .call]
    (Watcher.reached env (.stored ⟨[reader], .now⟩) is).sent.count (event, reader, .email) = 2 ∧
      (Watcher.reached env (.stored ⟨[reader], .now⟩) is).sent.count (event, reader, .email) ≤ 2 := by
  intro env event is
  exact ⟨by decide, resent_at_most rfl (by decide) (by decide) event (reader, .email)⟩

/-! ## Every interruption can bring it about -/

/-- Somebody who does not want to hear of anything any more. -/
def leaver : Subscriber := { reader with id := "2", events := [] }

/-- What is sent to the reader. -/
def news : GovernanceEvent × Call := (⟨.created, some "0", 5, sampleRecord "created" 1⟩, reader, .email)

/-- The phase when the news have been sent. -/
def delivering : Phase := .notifying news.1 [] [news.2] [] (.after news.1.raw.id)

/-- The news have been sent so often, and so many processes are about to remove the other one. -/
structure Sending (w : Watcher) (phase : Phase) (made removals : ℕ) : Prop where
  file : w.disk.value = .stored ⟨[reader, leaver], .now⟩ ∨ w.disk.value = .stored ⟨[reader], .now⟩
  pending : w.disk.pending = List.replicate removals (.removeSubscriber leaver.id, .stored ⟨[reader], .now⟩)
  records : w.records = [news.1.raw]
  phase : w.phase = phase
  sent : w.sent.count news = made

/-- The interruption, when the news have been sent, and what happens until the request is made again. -/
def interrupted : Action → List Action
  | .crash => [.crash, .start]
  | .save ok => [.settle 0 (.ok ()), .done, .load, .save ok, .poll]
  | a => [.settle 0 (.ok ()), .done, .load, .save true, a, .poll]

/-- The news are found, and sent. -/
def resend : List Action := [.fetched true, .take, .call]

variable {w : Watcher} {made removals : ℕ}

/-- An interruption takes one of the removals, or none. -/
theorem Sending.interrupted (h : Sending w delivering made (removals + 1)) {a : Action}
    (ha : a = .crash ∨ a = .save false ∨ a = .cli (.save 0)) :
    ∃ r, removals ≤ r ∧ Sending (run (Watcher.step ⟨none, none⟩) w (interrupted a)) (.fetching .now) made r := by
  obtain ⟨⟨value, pending, completed⟩, records, phase, handed, sent, results⟩ := w
  obtain ⟨hfile, hpending, hrecords, hphase, hsent⟩ := h
  dsimp only at hfile hpending hrecords hphase hsent
  subst hpending hrecords hphase
  rcases ha with rfl | rfl | rfl
  · refine ⟨removals + 1, Nat.le_succ _, ?_⟩
    rcases hfile with rfl | rfl
    · exact ⟨.inl rfl, rfl, rfl, rfl, hsent⟩
    · exact ⟨.inr rfl, rfl, rfl, rfl, hsent⟩
  · refine ⟨removals + 1, Nat.le_succ _, ?_⟩
    rcases hfile with rfl | rfl
    · exact ⟨.inl rfl, rfl, rfl, rfl, hsent⟩
    · exact ⟨.inr rfl, rfl, rfl, rfl, hsent⟩
  · -- The file that the command line writes has the first cursor.
    exact ⟨removals, le_rfl, .inr rfl, rfl, rfl, rfl, hsent⟩

theorem Sending.resend (h : Sending w (.fetching .now) made removals) :
    Sending (run (Watcher.step ⟨none, none⟩) w resend) delivering (made + 1) removals := by
  obtain ⟨⟨value, pending, completed⟩, records, phase, handed, sent, results⟩ := w
  obtain ⟨hfile, hpending, hrecords, hphase, hsent⟩ := h
  dsimp only at hfile hpending hrecords hphase hsent
  subst hpending hrecords hphase
  have hcount : (sent ++ [news]).count news = made + 1 := by
    rw [List.count_append, hsent, List.count_singleton_self]
  rcases hfile with rfl | rfl
  · exact ⟨.inl rfl, rfl, rfl, rfl, hcount⟩
  · exact ⟨.inr rfl, rfl, rfl, rfl, hcount⟩

/-- The interruption, and the same call again. -/
def again (a : Action) : List Action := interrupted a ++ resend

theorem Sending.flatMap_again {as : List Action} (h : Sending w delivering made removals) (hle : as.length ≤ removals)
    (has : ∀ a ∈ as, a = .crash ∨ a = .save false ∨ a = .cli (.save 0)) :
    ∃ r, Sending (run (Watcher.step ⟨none, none⟩) w (as.flatMap again)) delivering (made + as.length) r := by
  induction as generalizing w made removals with
  | nil => exact ⟨removals, h⟩
  | cons a as ih =>
    obtain ⟨ha, has⟩ := List.forall_mem_cons.1 has
    obtain ⟨removals, rfl⟩ : ∃ r, removals = r + 1 := Nat.exists_eq_succ_of_ne_zero (Nat.ne_zero_of_lt hle)
    obtain ⟨r, hr, hinterrupted⟩ := h.interrupted ha
    obtain ⟨r', hrest⟩ := ih hinterrupted.resend ((Nat.le_of_succ_le_succ hle).trans hr) has
    refine ⟨r', ?_⟩
    rwa [List.flatMap_cons, again, run_append, run_append, List.length_cons, Nat.add_comm as.length, ← Nat.add_assoc]

theorem filter_again {as : List Action} (has : ∀ a ∈ as, a = .crash ∨ a = .save false ∨ a = .cli (.save 0)) :
    (as.flatMap again).filter Action.interrupts = as := by
  induction as with
  | nil => rfl
  | cons a as ih =>
    obtain ⟨ha, has⟩ := List.forall_mem_cons.1 has
    rw [List.flatMap_cons, List.filter_append, ih has]
    rcases ha with rfl | rfl | rfl <;> rfl

/-- Some processes begin to remove somebody, and the reader is sent the news. -/
def opening (removals : ℕ) : List Action :=
  List.replicate removals (.cli (.load (.removeSubscriber leaver.id))) ++
    (.arrive news.1.raw :: .start :: resend)

theorem filter_opening (removals : ℕ) : (opening removals).filter Action.interrupts = [] := by
  rw [opening, List.filter_append, List.filter_replicate_of_neg Bool.false_ne_true]
  rfl

theorem sending_opening (removals : ℕ) :
    Sending (Watcher.reached ⟨none, none⟩ (.stored ⟨[reader, leaver], .now⟩) (opening removals)) delivering 1
      removals := by
  have hloads : Watcher.reached ⟨none, none⟩ (.stored ⟨[reader, leaver], .now⟩)
      (List.replicate removals (.cli (.load (.removeSubscriber leaver.id)))) =
        ⟨⟨.stored ⟨[reader, leaver], .now⟩,
            List.replicate removals (.removeSubscriber leaver.id, .stored ⟨[reader], .now⟩), []⟩,
          [], .down, [], [], []⟩ := by
    induction removals with
    | zero => rfl
    | succ n ih =>
      rw [List.replicate_succ', Watcher.reached_concat, ih, List.replicate_succ']
      rfl
  rw [opening, Watcher.reached, run_append, run_cons, run_cons, ← Watcher.reached, hloads]
  exact Sending.resend ⟨.inl rfl, rfl, rfl, rfl, rfl⟩

theorem added_again {as : List Action} (has : ∀ a ∈ as, a = .crash ∨ a = .save false ∨ a = .cli (.save 0)) :
    (as.flatMap again).filterMap Action.added = [] := by
  rw [List.filterMap_flatMap, List.flatMap_eq_nil_iff]
  intro a ha
  rcases has a ha with rfl | rfl | rfl <;> rfl

theorem added_opening (removals : ℕ) : (opening removals).filterMap Action.added = [] := by
  rw [opening, List.filterMap_append, List.filterMap_replicate_of_none rfl]
  rfl

/-- Whichever interruptions there are to be, there is a run with them in which the news are sent once, and once more
    for each of them. -/
theorem resent_each_time {as : List Action} (has : ∀ a ∈ as, a = .crash ∨ a = .save false ∨ a = .cli (.save 0)) :
    ∃ is, is.filter Action.interrupts = as ∧ is.filterMap Action.added = [] ∧
      (Watcher.reached ⟨none, none⟩ (.stored ⟨[reader, leaver], .now⟩) is).records = [news.1.raw] ∧
      (Watcher.reached ⟨none, none⟩ (.stored ⟨[reader, leaver], .now⟩) is).sent.count news = 1 + as.length := by
  obtain ⟨r, hsending⟩ := (sending_opening as.length).flatMap_again le_rfl has
  rw [Watcher.reached, ← run_append] at hsending
  refine ⟨opening as.length ++ as.flatMap again, ?_, ?_, hsending.records, hsending.sent⟩
  · rw [List.filter_append, filter_opening, filter_again has, List.nil_append]
  · rw [List.filterMap_append, added_opening, added_again has, List.nil_append]

end CosmosVote.Notifications
