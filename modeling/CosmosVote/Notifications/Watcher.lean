import CosmosVote.Concurrent.Pages
import CosmosVote.Notifications.Subscriptions
import CosmosVote.Wire

/-!
# The watcher

It asks Horizon for the records after its cursor, a page at a time, notifies the subscribers of each
governance event among these, and saves the cursor. It may be stopped at any point, and started
again; the command line changes the subscribers meanwhile.

* `fetchNewEvents_eq`: what is found in a page, and how far it reaches;
* `poll`: what the steps of one poll come to if nothing fails.
-/

namespace CosmosVote.Notifications

open Soroban Concurrent

/-! ## Records and events -/

/-- A contract event, as Horizon answers it. A topic is the value it decodes to, and an element of the value
    what `toString` gives. -/
structure Record where
  id : RecordId
  topic : Option (List (Option String))
  value : Option (List (Option String))
  /-- There is a `ledger_closed_at`. -/
  ledgerClosedAt : Bool
  deriving DecidableEq

structure GovernanceEvent where
  type : GovernanceEventType
  proposalId : Option String
  ledger : ℕ
  raw : Record
  deriving DecidableEq

/-- `TRACKED_TOPICS` -/
def trackedTopics : List GovernanceEventType := [.created, .voted, .final, .exec, .cancel]

/-- The contract publishes events with these topics. -/
theorem trackedTopics_published : ∀ type ∈ trackedTopics, ["gov", type.name] ∈ publishedTopics := by decide

/-- The event of a record, if it is one that is tracked. -/
def parseEvent (record : Record) : Option GovernanceEvent :=
  let topics := record.topic.getD []
  let ns := (topics[0]?.bind id).getD ""
  let subtype := (topics[1]?.bind id).getD ""
  if topics.length < 2 then none
  else if ns ≠ "gov" then none
  else
    (trackedTopics.find? fun type => type.name = subtype).map fun type =>
      { type
        proposalId := record.value.bind fun value => value[0]?.bind id
        ledger := if record.ledgerClosedAt then record.id.ledger else 0
        raw := record }

/-- An event carries its record. -/
theorem raw_parseEvent {record : Record} {event : GovernanceEvent} (h : parseEvent record = some event) :
    event.raw = record := by
  rw [parseEvent] at h
  split at h
  · cases h
  · split at h
    · cases h
    · obtain ⟨type, _, rfl⟩ := Option.map_eq_some_iff.1 h
      rfl

/-- The record of a governance event. -/
def sampleRecord (subtype : String) (index : ℕ) : Record where
  id := ⟨5, index⟩
  topic := some [some "gov", some subtype]
  value := some [some "0"]
  ledgerClosedAt := true

/-- The paging token as a parameter of a request, which leaves out `'now'`. -/
def Cursor.token : Cursor → Option RecordId
  | .now => none
  | .after id => some id

/-- The limit of a request. -/
def pageSize : ℕ := 50

/-- What Horizon answers: the next records after the cursor. -/
def contractEvents (records : List Record) (cursor : Option RecordId) (limit : ℕ) : List Record :=
  (after Record.id records cursor).take limit

/-- The events of a page, and the cursor after it. -/
def fetchNewEvents (page : List Record) (cursor : Cursor) : List GovernanceEvent × Cursor :=
  page.foldl (fun (events, _) record => (events ++ (parseEvent record).toList, .after record.id)) ([], cursor)

theorem fetchNewEvents_eq (page : List Record) (cursor : Cursor) :
    fetchNewEvents page cursor = (page.filterMap parseEvent, (page.getLast?.map fun r => .after r.id).getD cursor) := by
  rw [fetchNewEvents]
  induction page using List.reverseRecOn with
  | nil => rfl
  | append_singleton page record ih =>
    rw [List.foldl_concat, ih, List.filterMap_append, List.getLast?_concat, List.filterMap_cons]
    cases parseEvent record <;> rfl

theorem token_fetchNewEvents (page : List Record) (cursor : Cursor) :
    (fetchNewEvents page cursor).2.token = next Record.id cursor.token page := by
  rw [fetchNewEvents_eq, next]
  cases page.getLast? <;> rfl

/-! ## Channels -/

inductive NotificationChannel
  | email
  | webhook
  | slack
  | discord
  deriving DecidableEq

/-- `SLACK_WEBHOOK_URL` and `DISCORD_WEBHOOK_URL` of the process. -/
structure Environment where
  slackWebhookUrl : Option String
  discordWebhookUrl : Option String

def NotificationChannel.name : NotificationChannel → String
  | .email => "email"
  | .webhook => "webhook"
  | .slack => "slack"
  | .discord => "discord"

def NotificationChannel.isConfigured (env : Environment) (sub : Subscriber) : NotificationChannel → Bool
  | .email => given sub.email
  | .webhook => given sub.webhookUrl
  | .slack => given (sub.slackWebhookUrl.or env.slackWebhookUrl)
  | .discord => given (sub.discordWebhookUrl.or env.discordWebhookUrl)

/-- `CHANNELS` -/
def channels : List NotificationChannel := [.email, .webhook, .slack, .discord]

/-- Who is notified, and how. -/
abbrev Call := Subscriber × NotificationChannel

structure ChannelResult where
  channel : String
  success : Bool
  error : Option String
  deriving DecidableEq

/-- What comes of a call of `send`: `notify` catches its error. -/
def Call.result (c : Call) : Except String Unit → ChannelResult
  | .ok _ => ⟨c.2.name, true, none⟩
  | .error message => ⟨c.2.name, false, some message⟩

/-- The calls of `send` that `notify` makes for a subscriber. -/
def notify (env : Environment) (sub : Subscriber) : List Call :=
  (channels.filter fun channel => channel.isConfigured env sub).map fun channel => (sub, channel)

/-- The calls of `send` for an event: those for the subscribers who match it. -/
def calls (env : Environment) (f : File) (event : GovernanceEvent) : List Call :=
  ((load f.read).matchingSubscribers event.type event.proposalId).flatMap (notify env)

theorem mem_calls {env : Environment} {f : File} {event : GovernanceEvent} {sub : Subscriber}
    {channel : NotificationChannel} :
    (sub, channel) ∈ calls env f event ↔
      sub ∈ (load f.read).matchingSubscribers event.type event.proposalId ∧ channel.isConfigured env sub := by
  have hall : channel ∈ channels := by cases channel <;> decide
  simp only [calls, notify, List.mem_flatMap, List.mem_map, List.mem_filter, Prod.mk.injEq]
  constructor
  · rintro ⟨_, hsub, _, ⟨_, hconfigured⟩, rfl, rfl⟩
    exact ⟨hsub, hconfigured⟩
  · rintro ⟨hsub, hconfigured⟩
    exact ⟨sub, hsub, channel, ⟨hall, hconfigured⟩, rfl, rfl⟩

/-! ## The process -/

/-- The operations of the command line. -/
inductive CliOp
  | addSubscriber (sub : Subscriber)
  | removeSubscriber (id : String)

def CliOp.edit : CliOp → File → Option File
  | .addSubscriber sub => StoreOp.edit (.addSubscriber sub)
  | .removeSubscriber id => StoreOp.edit (.removeSubscriber id)

/-- Where the process is. -/
inductive Phase
  | down
  /-- A timer is armed for the next poll. -/
  | waiting
  | fetching (cursor : Cursor)
  /-- There are events still to be processed. -/
  | processing (events : List GovernanceEvent) (nextCursor : Cursor)
  /-- The first of the events is being processed: there are calls still to be made, and calls that have not
      ended. -/
  | notifying (event : GovernanceEvent) (calls pending : List Call) (events : List GovernanceEvent)
      (nextCursor : Cursor)
  /-- `saveCursor` is about to save the store. -/
  | saving (store : SubscriptionStore)

/-- The process and what it works on: the file, and the records that there are. -/
structure Watcher where
  disk : Shared File CliOp
  records : List Record
  phase : Phase
  /-- The events that `processEvents` has been called with. -/
  handed : List GovernanceEvent
  /-- The calls of `send`. -/
  sent : List (GovernanceEvent × Call)
  /-- The calls that have ended. -/
  results : List (Subscriber × ChannelResult)

/-- What can happen. -/
inductive Action
  | arrive (record : Record)
  | cli (a : Access CliOp)
  | start
  /-- The timer expires. -/
  | poll
  /-- The request is answered, or fails. -/
  | fetched (ok : Bool)
  /-- The next event is taken, and the subscribers are found who match it. -/
  | take
  /-- The next call of `send` is made. -/
  | call
  /-- A call of `send` ends. -/
  | settle (k : ℕ) (outcome : Except String Unit)
  /-- All calls have ended. -/
  | done
  /-- All events are processed, and `saveCursor` loads the store. -/
  | load
  /-- The file is written, or cannot be. -/
  | save (ok : Bool)
  | crash

namespace Watcher

/-- Before the process is started for the first time. -/
def init (f : File) : Watcher := ⟨.init f, [], .down, [], [], []⟩

variable (env : Environment) (w : Watcher)

/-- The file as it is. -/
def file : File := w.disk.value

def fetch (cursor : Cursor) : Watcher :=
  let found := fetchNewEvents (contractEvents w.records cursor.token pageSize) cursor
  if 0 < found.1.length then
    { w with phase := .processing found.1 found.2, handed := w.handed ++ found.1 }
  else { w with phase := .waiting }

/-- An action that cannot happen now changes nothing. -/
def step (w : Watcher) : Action → Watcher
  | .arrive record => { w with records := w.records ++ [record] }
  | .cli a => { w with disk := w.disk.step CliOp.edit a }
  | .start => match w.phase with
    | .down => { w with phase := .fetching w.file.cursor }
    | _ => w
  | .poll => match w.phase with
    | .waiting => { w with phase := .fetching w.file.cursor }
    | _ => w
  | .fetched ok => match w.phase with
    | .fetching cursor => if ok then w.fetch cursor else { w with phase := .waiting }
    | _ => w
  | .take => match w.phase with
    | .processing (event :: events) nextCursor =>
      { w with phase := .notifying event (calls env w.file event) [] events nextCursor }
    | _ => w
  | .call => match w.phase with
    | .notifying event (c :: cs) pending events nextCursor =>
      { w with phase := .notifying event cs (pending ++ [c]) events nextCursor, sent := w.sent ++ [(event, c)] }
    | _ => w
  | .settle k outcome => match w.phase with
    | .notifying event [] pending events nextCursor => match pending[k]? with
      | some c =>
        { w with
          phase := .notifying event [] (pending.eraseIdx k) events nextCursor
          results := w.results ++ [(c.1, c.result outcome)] }
      | none => w
    | _ => w
  | .done => match w.phase with
    | .notifying _ [] [] events nextCursor => { w with phase := .processing events nextCursor }
    | _ => w
  | .load => match w.phase with
    | .processing [] nextCursor =>
      { w with phase := .saving ((Notifications.load w.file.read).saveCursor nextCursor) }
    | _ => w
  | .save ok => match w.phase with
    | .saving store =>
      { w with disk.value := if ok then .stored store else w.file, phase := .waiting }
    | _ => w
  | .crash => { w with phase := .down }

/-- What the actions do in the phases in which they can happen. -/
inductive Effect : Action → Watcher → Prop
  | none (a : Action) : Effect a w
  | arrive (record : Record) : Effect (.arrive record) { w with records := w.records ++ [record] }
  | cli (a : Access CliOp) : Effect (.cli a) { w with disk := w.disk.step CliOp.edit a }
  | fetch (a : Action) : Effect a { w with phase := .fetching w.file.cursor }
  | found (ok : Bool) {cursor : Cursor} (h : w.phase = .fetching cursor) : Effect (.fetched ok) (w.fetch cursor)
  | wait (a : Action) : Effect a { w with phase := .waiting }
  | take {event : GovernanceEvent} {events : List GovernanceEvent} {nextCursor : Cursor}
      (h : w.phase = .processing (event :: events) nextCursor) :
      Effect .take { w with phase := .notifying event (calls env w.file event) [] events nextCursor }
  | call {event : GovernanceEvent} {c : Call} {cs pending : List Call} {events : List GovernanceEvent}
      {nextCursor : Cursor} (h : w.phase = .notifying event (c :: cs) pending events nextCursor) :
      Effect .call
        { w with phase := .notifying event cs (pending ++ [c]) events nextCursor, sent := w.sent ++ [(event, c)] }
  | settle (k : ℕ) (outcome : Except String Unit) {event : GovernanceEvent} {c : Call} {pending : List Call}
      {events : List GovernanceEvent} {nextCursor : Cursor}
      (h : w.phase = .notifying event [] pending events nextCursor) :
      Effect (.settle k outcome)
        { w with
          phase := .notifying event [] (pending.eraseIdx k) events nextCursor
          results := w.results ++ [(c.1, c.result outcome)] }
  | done {event : GovernanceEvent} {events : List GovernanceEvent} {nextCursor : Cursor}
      (h : w.phase = .notifying event [] [] events nextCursor) :
      Effect .done { w with phase := .processing events nextCursor }
  | load {nextCursor : Cursor} (h : w.phase = .processing [] nextCursor) :
      Effect .load { w with phase := .saving ((Notifications.load w.file.read).saveCursor nextCursor) }
  | save (ok : Bool) {store : SubscriptionStore} (h : w.phase = .saving store) :
      Effect (.save ok) { w with disk.value := if ok then .stored store else w.file, phase := .waiting }
  | crash : Effect .crash { w with phase := .down }

variable {env w}

theorem effect_step (a : Action) : Effect env w a (w.step env a) := by
  cases a with
  | arrive record => exact .arrive record
  | cli a => exact .cli a
  | start =>
    rw [step]
    split
    · exact .fetch _
    · exact .none _
  | poll =>
    rw [step]
    split
    · exact .fetch _
    · exact .none _
  | fetched ok =>
    rw [step]
    split
    · rename_i h
      split
      · exact .found ok h
      · exact .wait _
    · exact .none _
  | take =>
    rw [step]
    split
    · rename_i h
      exact .take h
    · exact .none _
  | call =>
    rw [step]
    split
    · rename_i h
      exact .call h
    · exact .none _
  | settle k outcome =>
    rw [step]
    split
    · rename_i h
      split
      · exact .settle k outcome h
      · exact .none _
    · exact .none _
  | done =>
    rw [step]
    split
    · rename_i h
      exact .done h
    · exact .none _
  | load =>
    rw [step]
    split
    · rename_i h
      exact .load h
    · exact .none _
  | save ok =>
    rw [step]
    split
    · rename_i h
      exact .save ok h
    · exact .none _
  | crash => exact .crash

variable (env w) in
/-- Records are only added, and calls only made. -/
theorem step_grows (a : Action) : w.records <+: (w.step env a).records ∧ w.sent <+: (w.step env a).sent := by
  have heffect : Effect env w a (w.step env a) := effect_step a
  generalize w.step env a = v at heffect ⊢
  cases heffect with
  | arrive record => exact ⟨List.prefix_append .., List.prefix_refl _⟩
  | call h => exact ⟨List.prefix_refl _, List.prefix_append ..⟩
  | found ok h =>
    rw [fetch]
    split <;> exact ⟨List.prefix_refl _, List.prefix_refl _⟩
  | _ => exact ⟨List.prefix_refl _, List.prefix_refl _⟩

/-! ## A poll without failures -/

variable (env w)

/-- An event is processed, when the file is `f`. -/
def notifyActions (f : File) (event : GovernanceEvent) : List Action :=
  let n := (calls env f event).length
  .take :: (List.replicate n .call ++ List.replicate n (.settle 0 (.ok ())) ++ [.done])

/-- One poll, when nothing else happens. The first one is made as the process is started. -/
def pollActions : List Action :=
  let found := fetchNewEvents (contractEvents w.records w.file.cursor.token pageSize) w.file.cursor
  let begin := match w.phase with
    | .down => .start
    | _ => .poll
  begin :: .fetched true ::
    if 0 < found.1.length then found.1.flatMap (notifyActions env w.file) ++ [.load, .save true] else []

variable {w} {event : GovernanceEvent} {cs pending : List Call} {events : List GovernanceEvent}
  {nextCursor : Cursor}

theorem run_call (h : w.phase = .notifying event cs pending events nextCursor) :
    ∃ sent, run (step env) w (List.replicate cs.length .call) =
      { w with phase := .notifying event [] (pending ++ cs) events nextCursor, sent } := by
  induction cs generalizing w pending with
  | nil => exact ⟨w.sent, by rw [List.append_nil, ← h]; rfl⟩
  | cons c cs ih =>
    have hstep : w.step env .call =
        { w with phase := .notifying event cs (pending ++ [c]) events nextCursor, sent := w.sent ++ [(event, c)] } := by
      rw [step, h]
    obtain ⟨sent, hsent⟩ := ih (w := w.step env .call) (by rw [hstep])
    refine ⟨sent, ?_⟩
    rw [List.length_cons, List.replicate_succ, run_cons, hsent, hstep, List.append_assoc, List.singleton_append]

theorem run_settle (h : w.phase = .notifying event [] pending events nextCursor) :
    ∃ results, run (step env) w (List.replicate pending.length (.settle 0 (.ok ()))) =
      { w with phase := .notifying event [] [] events nextCursor, results } := by
  induction pending generalizing w with
  | nil => exact ⟨w.results, by rw [← h]; rfl⟩
  | cons c pending ih =>
    have hstep : w.step env (.settle 0 (.ok ())) =
        { w with
          phase := .notifying event [] pending events nextCursor
          results := w.results ++ [(c.1, c.result (.ok ()))] } := by
      rw [step, h]
      rfl
    obtain ⟨results, hresults⟩ := ih (w := w.step env (.settle 0 (.ok ()))) (by rw [hstep])
    exact ⟨results, by rw [List.length_cons, List.replicate_succ, run_cons, hresults, hstep]⟩

theorem run_notifyActions (h : w.phase = .processing (event :: events) nextCursor) :
    ∃ sent results, run (step env) w (notifyActions env w.file event) =
      { w with phase := .processing events nextCursor, sent, results } := by
  have htake : w.step env .take =
      { w with phase := .notifying event (calls env w.file event) [] events nextCursor } := by
    rw [step, h]
  obtain ⟨sent, hsent⟩ := run_call env (w := w.step env .take) (by rw [htake])
  rw [htake] at hsent
  obtain ⟨results, hresults⟩ := run_settle env
    (w := { w with phase := .notifying event [] ([] ++ calls env w.file event) events nextCursor, sent }) rfl
  refine ⟨sent, results, ?_⟩
  rw [notifyActions, run_cons, run_append, run_append, htake, hsent]
  rw [List.nil_append] at hresults
  exact congrArg (fun v => step env v .done) hresults

theorem run_flatMap_notifyActions (f : File) (hf : w.file = f) (h : w.phase = .processing events nextCursor) :
    ∃ sent results, run (step env) w (events.flatMap (notifyActions env f)) =
      { w with phase := .processing [] nextCursor, sent, results } := by
  induction events generalizing w with
  | nil => exact ⟨w.sent, w.results, by rw [← h]; rfl⟩
  | cons event events ih =>
    obtain ⟨sent, results, hevent⟩ := run_notifyActions env h
    obtain ⟨sent', results', hevents⟩ :=
      ih (w := { w with phase := .processing events nextCursor, sent, results }) hf rfl
    exact ⟨sent', results', by rw [List.flatMap_cons, run_append, ← hf, hevent, hf, hevents]⟩

/-- What a poll without failures comes to. -/
structure Polled (w v : Watcher) (found : List GovernanceEvent × Cursor) : Prop where
  phase : v.phase = .waiting
  records : v.records = w.records
  handed : v.handed = w.handed ++ found.1
  cursor : v.file.cursor = if 0 < found.1.length then found.2 else w.file.cursor

theorem run_pollActions (h : w.phase = .down ∨ w.phase = .waiting) :
    Polled w (run (step env) w (pollActions env w))
      (fetchNewEvents (contractEvents w.records w.file.cursor.token pageSize) w.file.cursor) := by
  rw [pollActions]
  generalize hfound : fetchNewEvents (contractEvents w.records w.file.cursor.token pageSize) w.file.cursor = found
  generalize hbegin : (match w.phase with | .down => Action.start | _ => Action.poll) = begin
  have hfetch : w.step env begin = { w with phase := .fetching w.file.cursor } := by
    rcases h with h | h <;>
    · rw [h] at hbegin
      rw [← hbegin, step, h]
  have hfetched : (w.step env begin).step env (.fetched true) =
      if 0 < found.1.length then
        { w with phase := .processing found.1 found.2, handed := w.handed ++ found.1 }
      else { w with phase := .waiting } := by
    rw [hfetch, ← hfound]
    rfl
  rw [run_cons, run_cons, hfetched]
  by_cases hpos : 0 < found.1.length
  · rw [if_pos hpos, if_pos hpos]
    obtain ⟨sent, results, hrun⟩ := run_flatMap_notifyActions env
      (w := { w with phase := .processing found.1 found.2, handed := w.handed ++ found.1 }) w.file rfl rfl
    rw [run_append, hrun]
    exact ⟨rfl, rfl, rfl, (if_pos hpos).symm⟩
  · rw [if_neg hpos, if_neg hpos]
    have hnone : found.1 = [] := List.length_eq_zero_iff.1 (Nat.eq_zero_of_not_pos hpos)
    exact ⟨rfl, rfl, by rw [hnone, List.append_nil]; rfl, (if_neg hpos).symm⟩

end Watcher

end CosmosVote.Notifications
