import CosmosVote.Notifications.Lifecycle

/-!
# What the subscribers are sent

Each event that is handed over is sent to the subscribers who match it, on every channel that they have
configured. The watcher saves its cursor with the subscribers it has loaded, so that these stay while nothing
else writes the file.

* `sent_rounds`: what has been sent after any rounds without failures is what has been handed over, event by
  event;
* `lifecycle_sent`: so a subscriber reads the life of every proposal that they want to hear of, as far as they
  want to hear of it.
-/

namespace CosmosVote.Notifications

open Soroban Governance

/-- What is sent for an event. -/
def messages (env : Environment) (f : File) (event : GovernanceEvent) : List (GovernanceEvent × Call) :=
  (calls env f event).map fun c => (event, c)

namespace Watcher

variable {env : Environment} {f : File} {w : Watcher} {event : GovernanceEvent} {cs pending : List Call}
  {events : List GovernanceEvent} {nextCursor : Cursor}

/-- Only `send` sends. -/
theorem sent_step {a : Action} (h : a ≠ .call) : (w.step env a).sent = w.sent := by
  have heffect : Effect env w a (w.step env a) := effect_step a
  generalize w.step env a = v at heffect ⊢
  cases heffect with
  | call => exact absurd rfl h
  | found =>
    rw [fetch]
    split <;> rfl
  | _ => rfl

theorem sent_run {as : List Action} (h : ∀ a ∈ as, a ≠ .call) : (run (step env) w as).sent = w.sent := by
  induction as generalizing w with
  | nil => rfl
  | cons a as ih =>
    obtain ⟨ha, has⟩ := List.forall_mem_cons.1 h
    rw [run_cons, ih has, sent_step ha]

theorem sent_call (h : w.phase = .notifying event cs pending events nextCursor) :
    (run (step env) w (List.replicate cs.length .call)).sent = w.sent ++ cs.map fun c => (event, c) := by
  induction cs generalizing w pending with
  | nil => exact (List.append_nil _).symm
  | cons c cs ih =>
    have hstep : w.step env .call =
        { w with phase := .notifying event cs (pending ++ [c]) events nextCursor, sent := w.sent ++ [(event, c)] } := by
      rw [step, h]
    have hphase : (w.step env .call).phase = .notifying event cs (pending ++ [c]) events nextCursor := by rw [hstep]
    rw [List.length_cons, List.replicate_succ, run_cons, ih hphase, hstep, List.append_assoc, List.map_cons]
    rfl

variable (env) in
theorem sent_notifyActions (h : w.phase = .processing (event :: events) nextCursor) :
    (run (step env) w (notifyActions env w.file event)).sent = w.sent ++ messages env w.file event := by
  have htake : w.step env .take =
      { w with phase := .notifying event (calls env w.file event) [] events nextCursor } := by
    rw [step, h]
  have hrest : ∀ a ∈ List.replicate (calls env w.file event).length (Action.settle 0 (.ok ())) ++ [.done],
      a ≠ .call := by
    intro a ha
    rcases List.mem_append.1 ha with ha | ha
    · rw [List.eq_of_mem_replicate ha]
      exact Action.noConfusion
    · rw [List.mem_singleton.1 ha]
      exact Action.noConfusion
  rw [notifyActions, run_cons, List.append_assoc, run_append, sent_run hrest,
    sent_call (w := w.step env .take) (by rw [htake]), htake]
  rfl

variable (env) in
theorem sent_flatMap_notifyActions (hf : w.file = f) (h : w.phase = .processing events nextCursor) :
    (run (step env) w (events.flatMap (notifyActions env f))).sent = w.sent ++ events.flatMap (messages env f) := by
  induction events generalizing w with
  | nil => exact (List.append_nil _).symm
  | cons event events ih =>
    obtain ⟨sent, results, hevent⟩ := run_notifyActions env h
    have hsent := sent_notifyActions env h
    rw [hf] at hevent hsent
    rw [List.flatMap_cons, run_append, ih (by rw [hevent]; exact hf) (by rw [hevent]), hsent, List.flatMap_cons,
      List.append_assoc]

variable (env) in
/-- A poll without failures sends what is found, and keeps the subscribers. -/
theorem sent_pollActions (h : w.phase = .down ∨ w.phase = .waiting) :
    (run (step env) w (pollActions env w)).sent = w.sent ++
        (fetchNewEvents (contractEvents w.records w.file.cursor.token pageSize) w.file.cursor).1.flatMap
          (messages env w.file) ∧
      (run (step env) w (pollActions env w)).file.subscribers = w.file.subscribers := by
  obtain ⟨begin, hbegin, hfetch⟩ : ∃ begin, pollActions env w = begin :: (pollActions env w).tail ∧
      w.step env begin = { w with phase := .fetching w.file.cursor } := by
    rcases h with h | h
    · exact ⟨.start, by rw [pollActions, h]; rfl, by rw [step, h]⟩
    · exact ⟨.poll, by rw [pollActions, h]; rfl, by rw [step, h]⟩
  rw [hbegin, pollActions, List.tail_cons]
  generalize hfound : fetchNewEvents (contractEvents w.records w.file.cursor.token pageSize) w.file.cursor = found
  have hfetched : (w.step env begin).step env (.fetched true) =
      if 0 < found.1.length then
        { w with phase := .processing found.1 found.2, handed := w.handed ++ found.1 }
      else { w with phase := .waiting } := by
    rw [hfetch, ← hfound]
    rfl
  rw [run_cons, run_cons, hfetched]
  by_cases hpos : 0 < found.1.length
  · rw [if_pos hpos, if_pos hpos, run_append]
    have hsent := sent_flatMap_notifyActions env (f := w.file)
      (w := { w with phase := .processing found.1 found.2, handed := w.handed ++ found.1 }) rfl rfl
    obtain ⟨sent, results, hrun⟩ := run_flatMap_notifyActions env
      (w := { w with phase := .processing found.1 found.2, handed := w.handed ++ found.1 }) w.file rfl rfl
    rw [hrun] at hsent ⊢
    exact ⟨hsent, rfl⟩
  · rw [if_neg hpos, if_neg hpos]
    have hnone : found.1 = [] := List.length_eq_zero_iff.1 (Nat.eq_zero_of_not_pos hpos)
    rw [hnone]
    exact ⟨(List.append_nil _).symm, rfl⟩

variable (env f) in
/-- After rounds without failures, what has been sent is what there is to be sent of what has been handed over. -/
theorem sent_rounds (rs : List Round) : (rounds env f rs).sent = (rounds env f rs).handed.flatMap (messages env f) := by
  refine (run_invariant (I := fun w : Watcher => (w.phase = .down ∨ w.phase = .waiting) ∧
    w.file.subscribers = f.subscribers ∧ w.sent = w.handed.flatMap (messages env f)) ?_ ⟨.inl rfl, rfl, rfl⟩ rs).2.2
  rintro w c ⟨hphase, hsubscribers, hsent⟩
  cases c with
  | arrive record => exact ⟨hphase, hsubscribers, hsent⟩
  | poll =>
    have hpolled := run_pollActions env hphase
    obtain ⟨hsent', hsubscribers'⟩ := sent_pollActions env hphase
    have hmessages : messages env w.file = messages env f := by
      funext event
      change ((w.file.subscribers.filter _).flatMap _).map _ = ((f.subscribers.filter _).flatMap _).map _
      rw [hsubscribers]
    refine ⟨.inr hpolled.phase, hsubscribers'.trans hsubscribers, ?_⟩
    change (run (step env) w (pollActions env w)).sent = (run (step env) w (pollActions env w)).handed.flatMap _
    rw [hsent', hpolled.handed, hsent, List.flatMap_append, hmessages]

end Watcher

/-! ## One subscriber -/

/-- The subscriber wants to hear of the proposal. -/
def Subscriber.Follows (sub : Subscriber) (proposalId : Option String) : Prop :=
  given sub.proposalId → sub.proposalId = proposalId

instance (sub : Subscriber) (proposalId : Option String) : Decidable (sub.Follows proposalId) :=
  inferInstanceAs (Decidable (_ → _))

/-- The events that are sent to a subscriber on a channel. -/
def Watcher.sentTo (w : Watcher) (sub : Subscriber) (channel : NotificationChannel) : List GovernanceEvent :=
  (w.sent.filter fun x => x.2 = (sub, channel)).map Prod.fst

/-- Nobody is called twice on a channel for an event. -/
theorem nodup_calls {env : Environment} {f : File} (hnodup : f.subscribers.Nodup) (event : GovernanceEvent) :
    (calls env f event).Nodup := by
  rw [calls, List.nodup_flatMap]
  refine ⟨fun sub _ => ?_, (hnodup.filter _).imp fun {sub sub'} hne => ?_⟩
  · exact ((by decide : channels.Nodup).filter _).map fun _ _ h => (Prod.mk.inj h).2
  · intro c hc hc'
    obtain ⟨_, _, rfl⟩ := List.mem_map.1 hc
    obtain ⟨_, _, heq⟩ := List.mem_map.1 hc'
    exact hne (Prod.mk.inj heq).1.symm

theorem mem_calls_iff {env : Environment} {f : File} {sub : Subscriber} (hsub : sub ∈ f.subscribers)
    {channel : NotificationChannel} {event : GovernanceEvent} : (sub, channel) ∈ calls env f event ↔
      event.type.name ∈ sub.events ∧ sub.Follows event.proposalId ∧ channel.isConfigured env sub := by
  have hfilter : sub ∈ (load f.read).matchingSubscribers event.type event.proposalId ↔
      event.type.name ∈ sub.events ∧ sub.Follows event.proposalId := by
    rw [SubscriptionStore.matchingSubscribers, List.mem_filter,
      and_iff_right (show sub ∈ (load f.read).subscribers from hsub), decide_eq_true_eq, List.contains_iff_mem,
      not_and, not_ne_iff]
    exact .rfl
  rw [mem_calls, hfilter, and_assoc]

/-- A subscriber gets an event on a channel once, or not at all. -/
theorem filter_messages {env : Environment} {f : File} (hnodup : f.subscribers.Nodup) {sub : Subscriber}
    (hsub : sub ∈ f.subscribers) (channel : NotificationChannel) (event : GovernanceEvent) :
    ((messages env f event).filter fun x => x.2 = (sub, channel)).map Prod.fst =
      if event.type.name ∈ sub.events ∧ sub.Follows event.proposalId ∧ channel.isConfigured env sub then [event]
      else [] := by
  have hcalls : (calls env f event).filter (fun c => c = (sub, channel)) =
      if (sub, channel) ∈ calls env f event then [(sub, channel)] else [] := by
    rw [List.filter_eq, (nodup_calls hnodup event).count]
    split <;> rfl
  rw [messages, List.filter_map, List.map_map]
  change ((calls env f event).filter fun c => c = (sub, channel)).map (fun _ => event) = _
  rw [hcalls]
  simp only [mem_calls_iff hsub]
  split <;> rfl

/-- So what a subscriber gets is what they want of what has been handed over. -/
theorem sentTo_rounds {env : Environment} {f : File} (hnodup : f.subscribers.Nodup) {sub : Subscriber}
    (hsub : sub ∈ f.subscribers) (channel : NotificationChannel) (rs : List Round) :
    (Watcher.rounds env f rs).sentTo sub channel = (Watcher.rounds env f rs).handed.filter fun e =>
      e.type.name ∈ sub.events ∧ sub.Follows e.proposalId ∧ channel.isConfigured env sub := by
  rw [Watcher.sentTo, Watcher.sent_rounds, List.filter_flatMap, List.map_flatMap]
  induction (Watcher.rounds env f rs).handed with
  | nil => rfl
  | cons event events ih =>
    rw [List.flatMap_cons, ih, filter_messages hnodup hsub, List.filter_cons]
    by_cases h : event.type.name ∈ sub.events ∧ sub.Follows event.proposalId ∧ channel.isConfigured env sub
    · rw [if_pos h, if_pos (decide_eq_true h)]
      rfl
    · rw [if_neg h, if_neg fun h' => h (of_decide_eq_true h')]
      rfl

/-- Governance is run from its beginning, and what it publishes is answered by Horizon as records with different
    ids, which arrive in any way between the polls of a watcher that has been started before, with different
    subscribers in its file, and for which nothing fails. If they do not clog it, then after sufficiently many
    polls each subscriber has been sent, on every channel that they have configured, of every proposal that they
    want to hear of, those of its creation, as many votes as its count of voters, and how it has ended, that they
    want to hear of, in this order and once each; and nothing else of a proposal. -/
theorem lifecycle_sent {ω : Type} (env : Environment) {f : File} (hf : f.cursor = .now)
    (hsubscribers : f.subscribers.Nodup) (is : List (Governance.Input ω)) (strkey : Address → String)
    (utf8 : Text → String) {ids : List RecordId} (hids : ids.Nodup)
    (hlength : ids.length = ((run Governance.step Store.empty is).events.filterMap Event.published).length)
    {rs : List Round}
    (hrs : arrivals rs = stream (itemString strkey utf8) ids (run Governance.step Store.empty is).events)
    (hclogged : ¬Clogged (arrivals rs)) :
    ∃ n, ∀ m, n ≤ m → ∀ sub ∈ f.subscribers, ∀ channel, ∀ id : U64,
      (((Watcher.rounds env f (rs ++ polls m)).sentTo sub channel).filter fun e =>
          e.proposalId = some (toString id.val)).map GovernanceEvent.type =
        if sub.Follows (some (toString id.val)) ∧ channel.isConfigured env sub then
          (((run Governance.step Store.empty is).proposals.lookup id).elim [] fun p =>
            p.trail.map milestoneType).filter fun type => type.name ∈ sub.events
        else [] := by
  have hnodup : ((arrivals rs).map Record.id).Nodup := by rwa [hrs, map_id_stream _ hlength]
  obtain ⟨n, hn⟩ := complete_of_not_clogged env hf hnodup hclogged
  refine ⟨n, fun m hm sub hsub channel id => ?_⟩
  rw [sentTo_rounds hsubscribers hsub, hn m hm, hrs, ← read_trail is strkey utf8 hlength id, List.filter_map,
    List.filter_filter, List.filter_filter]
  generalize some (toString id.val) = proposalId
  split
  · rename_i hwants
    refine congrArg _ (List.filter_congr fun e _ => ?_)
    by_cases he : e.proposalId = proposalId
    · simp [he, hwants]
    · simp [he]
  · rename_i hnot
    rw [List.map_eq_nil_iff, List.filter_eq_nil_iff]
    intro e _ he
    simp only [Bool.and_eq_true, decide_eq_true_eq] at he
    exact hnot ⟨he.1 ▸ he.2.2.1, he.2.2.2⟩

/-- Somebody who wants to hear by email when a proposal is created or finalised. -/
def reader : Subscriber where
  id := "1"
  proposalId := none
  events := ["created", "final"]
  email := some "a@b.c"
  webhookUrl := none
  slackWebhookUrl := none
  discordWebhookUrl := none

theorem lifecycle_sent_decided :
    let records := stream (itemString (fun _ => "G") fun _ => "T") ((List.range 4).map (⟨5, ·⟩))
      (run Governance.step Store.empty decidedRun).events
    ∃ n, ∀ m, n ≤ m →
      (((Watcher.rounds ⟨none, none⟩ (.stored ⟨[reader], .now⟩) (oneByOne records ++ polls m)).sentTo reader
          .email).filter fun e => e.proposalId = some (toString (.lit 0 : U64).val)).map GovernanceEvent.type =
        [.created, .final] := by
  intro records
  have hids : ((List.range 4).map (⟨5, ·⟩ : ℕ → RecordId)).Nodup := by decide
  have hclogged : ¬Clogged (arrivals (oneByOne records)) := by
    rw [arrivals_oneByOne]
    exact not_clogged_of_short (by decide)
  obtain ⟨n, hn⟩ := lifecycle_sent ⟨none, none⟩ (f := .stored ⟨[reader], .now⟩) rfl (List.nodup_singleton _)
    decidedRun (fun _ => "G") (fun _ => "T") hids rfl (arrivals_oneByOne records) hclogged
  exact ⟨n, fun m hm => hn m hm reader (List.mem_singleton_self _) .email (.lit 0)⟩

end CosmosVote.Notifications
