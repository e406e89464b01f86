import CosmosVote.Concurrent.Polls
import CosmosVote.Governance.Trail
import CosmosVote.Unicode.Length
import CosmosVote.Wire

/-!
# The monitor of admin actions

It polls Horizon for the events of governance every fifteen seconds, whether or not the poll before has been
answered, and sends an alert for each event whose second topic is one of six names. Governance uses four of
these.

* `step_ofPoller`: its polls are those of a reader of the log, and its alerts those of what it has seen;
* `alerts_cover`: whatever polls overlap, nothing up to its cursor is without an alert that is due, and no alert
  is wrong;
* `alerts_exact`: if its polls do not overlap, every execution, cancellation, pause and change of a quorum comes
  to one alert, in order, and nothing else does;
* `slack_cut`: but what is posted to Slack is declared shorter than it is.
-/

namespace CosmosVote.AdminMonitor

open Soroban Concurrent Unicode

/-! ## Records -/

/-- A topic of a record: a plain string, or an object that may have a `value`. -/
inductive Topic
  | text (s : String)
  | object (value : Option String)

/-- A contract event, as Horizon answers it. -/
structure Record where
  id : String
  topic : Option (List Topic)
  /-- The text of `ledger_closed_at`. -/
  ledgerClosedAt : String

/-- `ADMIN_EVENTS` -/
def adminEvents : List String := ["exec", "cancel", "paused", "unpaused", "admin_trans", "quorum"]

/-- `topic.value || topic`, if it is a string: an empty value counts as none. -/
def Topic.value : Topic → Option String
  | .text s => some s
  | .object (some v) => if v = "" then none else some v
  | .object none => none

/-- The topic, if it is a string itself. -/
def Topic.plain : Topic → Option String
  | .text s => some s
  | .object _ => none

/-- The two topics that are compared. Objects are only looked into if the first one is one. -/
def topicValues (ns subtype : Topic) : Option String × Option String :=
  match ns with
  | .object _ => (ns.value, subtype.value)
  | .text s => (some s, subtype.plain)

/-- The name of the admin event of a record, if it is one. -/
def adminEvent (record : Record) : Option String :=
  match record.topic with
  | some (ns :: subtype :: _) =>
    let (nsVal, subtypeVal) := topicValues ns subtype
    if nsVal = some "gov" then subtypeVal.filter fun name => name ∈ adminEvents else none
  | _ => none

/-- An alert that is sent. -/
structure Alert where
  subtype : String
  eventId : String
  ledger : String

def alert (record : Record) : Option Alert :=
  (adminEvent record).map fun name => ⟨name, record.id, record.ledgerClosedAt⟩

/-! ## The loop -/

/-- The limit of a request. -/
def pageSize : ℕ := 50

/-- The monitor: the records that there are, its cursor, where `none` stands for `'now'`, the requests on their
    way, and the alerts that it has sent. -/
structure Monitor where
  records : List Record
  cursor : Option String
  requests : List (Request Record String)
  alerts : List Alert

/-- The loop over the records of a page. -/
def handle (page : List Record) (cursor : Option String) (alerts : List Alert) : Option String × List Alert :=
  page.foldl (fun (_, alerts) record => (some record.id, alerts ++ (alert record).toList)) (cursor, alerts)

namespace Monitor

def init : Monitor := ⟨[], none, [], []⟩

/-- `setInterval` does not wait: a tick asks for the next page whatever is on its way. -/
def step (m : Monitor) : Poll Record → Monitor
  | .arrive record => { m with records := m.records ++ [record] }
  | .tick => { m with requests := m.requests ++ [.asked m.cursor] }
  | .serve k =>
    match m.requests[k]? with
    | some (.asked cursor) =>
      { m with requests := m.requests.set k (.served ((after Record.id m.records cursor).take pageSize)) }
    | _ => m
  | .deliver k =>
    match m.requests[k]? with
    | some (.served page) =>
      { m with
        cursor := (handle page m.cursor m.alerts).1
        alerts := (handle page m.cursor m.alerts).2
        requests := m.requests.eraseIdx k }
    | _ => m
  | .fail k => { m with requests := m.requests.eraseIdx k }

/-- No poll begins before the one before has ended. -/
def Alone (m : Monitor) (c : Poll Record) : Prop := c = .tick → m.requests = []

end Monitor

/-- A page moves the cursor to its last record, and adds the alerts of its records. -/
theorem handle_eq (page : List Record) (cursor : Option String) (alerts : List Alert) :
    handle page cursor alerts = (next Record.id cursor page, alerts ++ page.filterMap alert) := by
  rw [handle]
  induction page using List.reverseRecOn with
  | nil => rw [List.foldl_nil, List.filterMap_nil, List.append_nil]; rfl
  | append_singleton page record ih =>
    have hnext : next Record.id cursor (page ++ [record]) = some record.id := by
      rw [next, List.getLast?_concat]
      rfl
    rw [List.foldl_concat, ih, hnext, List.filterMap_append, List.filterMap_cons]
    cases alert record <;> simp

/-- What the monitor has of a reader of the log. -/
def ofPoller (p : Poller Record String) : Monitor := ⟨p.log, p.cursor, p.requests, p.seen.filterMap alert⟩

theorem step_ofPoller (p : Poller Record String) (c : Poll Record) :
    (ofPoller p).step c = ofPoller (p.step Record.id pageSize c) := by
  cases c with
  | arrive record => rfl
  | tick => rfl
  | fail k => rfl
  | serve k =>
    rw [Monitor.step, Poller.step, show (ofPoller p).requests = p.requests from rfl]
    cases p.requests[k]? with
    | none => rfl
    | some r => cases r <;> rfl
  | deliver k =>
    rw [Monitor.step, Poller.step, show (ofPoller p).requests = p.requests from rfl]
    cases p.requests[k]? with
    | none => rfl
    | some r =>
      cases r with
      | asked cursor => rfl
      | served page =>
        dsimp only [ofPoller]
        rw [handle_eq, List.filterMap_append]

theorem run_ofPoller (p : Poller Record String) (cs : List (Poll Record)) :
    run Monitor.step (ofPoller p) cs = ofPoller (run (Poller.step Record.id pageSize) p cs) := by
  induction cs generalizing p with
  | nil => rfl
  | cons c cs ih => rw [run_cons, run_cons, step_ofPoller, ih]

/-! ## The events of governance -/

/-- How Horizon answers a topic. -/
inductive Rendering
  | plain
  | decoded

def Rendering.topic : Rendering → String → Topic
  | .plain, s => .text s
  | .decoded, s => .object (some s)

/-- What Horizon adds to an event. -/
structure Envelope where
  id : String
  rendering : Rendering
  ledgerClosedAt : String

/-- The record of what has been published. -/
def record (v : Envelope) (p : Published) : Record where
  id := v.id
  topic := some (p.topics.map v.rendering.topic)
  ledgerClosedAt := v.ledgerClosedAt

/-- The records of a log. -/
def stream (vs : List Envelope) (log : List Governance.Event) : List Record :=
  List.zipWith record vs (log.filterMap Governance.Event.published)

/-- The name under which an event of governance raises an alert. -/
def alertName : Governance.Event → Option String
  | .proposalExecuted _ _ => some "exec"
  | .proposalCancelled _ _ _ => some "cancel"
  | .paused _ => some "paused"
  | .quorumUpdated _ _ _ => some "quorum"
  | _ => none

/-- Of the six names, governance uses four; it is `unpause` that it publishes, and other names for a transfer. -/
theorem adminEvent_record (v : Envelope) {e : Governance.Event} {p : Published} (h : e.published = some p) :
    adminEvent (record v p) = alertName e := by
  obtain ⟨id, rendering, closed⟩ := v
  cases rendering <;> cases e <;> cases h <;> rfl

theorem alertName_of_unpublished {e : Governance.Event} (h : e.published = none) : alertName e = none := by
  cases e <;> cases h <;> rfl

/-- The alerts that are due for a log. -/
theorem subtype_stream {vs : List Envelope} {log : List Governance.Event}
    (hlength : vs.length = (log.filterMap Governance.Event.published).length) :
    ((stream vs log).filterMap alert).map Alert.subtype = log.filterMap alertName := by
  induction log generalizing vs with
  | nil =>
    rw [stream, List.filterMap_nil, List.zipWith_nil_right, List.filterMap_nil, List.map_nil, List.filterMap_nil]
  | cons e log ih =>
    cases hp : e.published with
    | none =>
      rw [stream, List.filterMap_cons_none hp, List.filterMap_cons_none (alertName_of_unpublished hp)]
      exact ih (by rwa [List.filterMap_cons_none hp] at hlength)
    | some p =>
      rw [List.filterMap_cons_some hp] at hlength
      cases vs with
      | nil => cases hlength
      | cons v vs =>
        have hrest := ih (Nat.succ_inj.1 hlength)
        rw [stream] at hrest
        rw [stream, List.filterMap_cons_some hp, List.zipWith_cons_cons, List.filterMap_cons, List.filterMap_cons,
          alert, adminEvent_record v hp]
        cases alertName e with
        | none => exact hrest
        | some name => exact congrArg (name :: ·) hrest

theorem map_id_stream {vs : List Envelope} {log : List Governance.Event}
    (hlength : vs.length = (log.filterMap Governance.Event.published).length) :
    (stream vs log).map Record.id = vs.map Envelope.id := by
  rw [stream, ← List.map_uncurry_zip_eq_zipWith, List.map_map]
  calc ((vs.zip (log.filterMap Governance.Event.published)).map (Record.id ∘ Function.uncurry record))
      = ((vs.zip (log.filterMap Governance.Event.published)).map Prod.fst).map Envelope.id := by
        rw [List.map_map]
        rfl
    _ = vs.map Envelope.id := by rw [List.map_fst_zip hlength.le]

/-- An alert is due for what has been executed or cancelled, and for nothing else under these names. -/
theorem count_alertName (log : List Governance.Event) :
    (log.filterMap alertName).count "exec" =
      (log.filterMap Governance.Event.milestone).count .executed ∧
    (log.filterMap alertName).count "cancel" =
      (log.filterMap Governance.Event.milestone).count .cancelled := by
  simp only [List.count_filterMap]
  constructor
  · refine List.countP_congr fun e _ => ?_
    cases e <;> simp [alertName, Governance.Event.milestone]
  · refine List.countP_congr fun e _ => ?_
    cases e <;> simp [alertName, Governance.Event.milestone]

section

variable {ω : Type} (is : List (Governance.Input ω)) {vs : List Envelope} {cs : List (Poll Record)}

/-- Governance is run from its beginning, and what it publishes is answered by Horizon as records with different
    ids, the first of which arrive between the polls of the monitor, in any way. Whatever polls overlap, and
    whatever requests fail, an alert has been sent for every record up to the cursor for which one is due, and
    every alert is for something that governance has done. -/
theorem alerts_cover (hids : (vs.map Envelope.id).Nodup)
    (hlength : vs.length =
      ((run Governance.step .empty is).events.filterMap Governance.Event.published).length)
    (hcs : Poller.arrivals cs <+: stream vs (run Governance.step .empty is).events) :
    (∀ r ∈ upTo Record.id (Poller.arrivals cs) (run Monitor.step .init cs).cursor, ∀ a, alert r = some a →
      a ∈ (run Monitor.step .init cs).alerts) ∧
    ∀ a ∈ (run Monitor.step .init cs).alerts,
      a.subtype ∈ (run Governance.step .empty is).events.filterMap alertName := by
  have hdistinct : ((Poller.arrivals cs).map Record.id).Nodup := by
    rw [← map_id_stream hlength] at hids
    exact hids.sublist (hcs.map Record.id).sublist
  have hcovered : (run (Poller.step Record.id pageSize) (.init Record String) cs).Covered Record.id :=
    Poller.run_covered hdistinct
  have hlog : (run (Poller.step Record.id pageSize) (.init Record String) cs).log = Poller.arrivals cs :=
    Poller.log_run (.init Record String) cs
  rw [show Monitor.init = ofPoller (.init Record String) from rfl, run_ofPoller, ← hlog]
  refine ⟨fun r hr a ha => List.mem_filterMap.2 ⟨r, hcovered.cursor.2 r hr, ha⟩, fun a ha => ?_⟩
  obtain ⟨r, hr, ha⟩ := List.mem_filterMap.1 ha
  have harrived := hcovered.seen_mem r hr
  rw [hlog] at harrived
  rw [← subtype_stream hlength]
  exact List.mem_map_of_mem (List.mem_filterMap.2 ⟨r, hcs.subset harrived, ha⟩)

/-- The admin cancels the first proposal. -/
def cancelled : List (Governance.Input Unit) :=
  Governance.opening ++ [Governance.signed (.lit 1) (.cancel (.account 9) (.lit 0) none)]

/-- What Horizon adds to it. -/
def envelopes : List Envelope := [⟨"1", .plain, ""⟩, ⟨"2", .plain, ""⟩, ⟨"3", .decoded, ""⟩]

/-- Two polls overlap. -/
def overlapping : List (Poll Record) :=
  (stream envelopes (run Governance.step .empty cancelled).events).map .arrive ++
    [.tick, .tick, .serve 0, .serve 1, .deliver 0, .deliver 0]

theorem alerts_cover_overlapping :
    (run Monitor.step .init overlapping).alerts.length = 2 ∧
    ∀ a ∈ (run Monitor.step .init overlapping).alerts,
      a.subtype ∈ (run Governance.step .empty cancelled).events.filterMap alertName :=
  ⟨by decide, (alerts_cover cancelled (by decide) (by decide)
    (⟨[], rfl⟩ : Poller.arrivals overlapping <+: stream envelopes _)).2⟩

/-- If no poll begins before the one before has ended, and all that has been published has arrived, the monitor
    has, after sufficiently many polls that do not fail, sent one alert, in order, for each execution,
    cancellation, pause and change of a quorum, and none for anything else: as many for executions as proposals
    have been executed, and as many for cancellations as have been cancelled. -/
theorem alerts_exact (hids : (vs.map Envelope.id).Nodup)
    (hlength : vs.length =
      ((run Governance.step .empty is).events.filterMap Governance.Event.published).length)
    (hcs : Poller.arrivals cs = stream vs (run Governance.step .empty is).events)
    (halone : Along Monitor.step Monitor.Alone .init cs) (hnone : (run Monitor.step .init cs).requests = []) :
    ∃ n, ∀ m, n ≤ m →
      let alerts := (run Monitor.step .init (cs ++ Poller.polls Record m)).alerts
      alerts = (stream vs (run Governance.step .empty is).events).filterMap alert ∧
      alerts.map Alert.subtype = (run Governance.step .empty is).events.filterMap alertName ∧
      (alerts.map Alert.subtype).count "exec" =
        ((run Governance.step .empty is).proposals.keysWith fun p => p.state = .executed).card ∧
      (alerts.map Alert.subtype).count "cancel" =
        ((run Governance.step .empty is).proposals.keysWith fun p => p.state = .cancelled).card := by
  have hdistinct : ((Poller.arrivals cs).map Record.id).Nodup := by rwa [hcs, map_id_stream hlength]
  have hlog : (run (Poller.step Record.id pageSize) (.init Record String) cs).log = Poller.arrivals cs :=
    Poller.log_run (.init Record String) cs
  have halone' : Along (Poller.step Record.id pageSize) Poller.Alone (.init Record String) cs := by
    intro xs c ys e
    have hc := halone xs c ys e
    rwa [show Monitor.init = ofPoller (.init Record String) from rfl, run_ofPoller] at hc
  have hexact := Poller.run_exact hdistinct halone'
  rw [show Monitor.init = ofPoller (.init Record String) from rfl, run_ofPoller] at hnone
  obtain ⟨n, hn⟩ : ∃ n, ∀ m, n ≤ m → (run (Poller.step Record.id pageSize)
      (run (Poller.step Record.id pageSize) (.init Record String) cs) (Poller.polls Record m)).seen =
        (run (Poller.step Record.id pageSize) (.init Record String) cs).log :=
    ⟨_, fun m hm => Poller.seen_polls (by decide) (by rwa [hlog]) hexact hnone hm⟩
  refine ⟨n, fun m hm => ?_⟩
  have halerts : (run Monitor.step .init (cs ++ Poller.polls Record m)).alerts =
      (stream vs (run Governance.step .empty is).events).filterMap alert := by
    rw [show Monitor.init = ofPoller (.init Record String) from rfl, run_ofPoller, run_append, ← hcs, ← hlog,
      ← hn m hm]
    rfl
  have hnames := subtype_stream hlength
  have htold := Governance.run_told is
  dsimp only
  rw [halerts, hnames, (count_alertName _).1, (count_alertName _).2]
  refine ⟨rfl, rfl, htold.count_state (by decide) (by decide) fun y => ?_,
    htold.count_state (by decide) (by decide) fun y => ?_⟩ <;> cases y <;> rfl

/-- One poll, after what has happened. -/
def oneByOne : List (Poll Record) :=
  (stream envelopes (run Governance.step .empty cancelled).events).map .arrive ++ [.tick, .serve 0, .deliver 0]

theorem alerts_exact_oneByOne :
    ∃ n, ∀ m, n ≤ m →
      ((run Monitor.step .init (oneByOne ++ Poller.polls Record m)).alerts.map Alert.subtype) = ["cancel"] := by
  have halone : Along Monitor.step Monitor.Alone .init oneByOne := by
    refine .cons ?_ (.cons ?_ (.cons ?_ (.cons (fun _ => rfl) (.cons ?_ (.cons ?_ along_nil))))) <;> intro h <;> cases h
  obtain ⟨n, h⟩ := alerts_exact cancelled (by decide : (envelopes.map Envelope.id).Nodup) (by decide) rfl halone rfl
  exact ⟨n, fun m hm => (h m hm).2.1⟩

end

/-! ## Slack -/

/-- The hexadecimal digits of a control character. -/
def hexDigits (n : ℕ) : List Char := (if n < 16 then ['0'] else []) ++ Nat.toDigits 16 n

/-- A character of a string in JSON. -/
def escapeChar (c : Char) : List Char :=
  match c.toNat with
  | 8 => "\\b".toList
  | 9 => "\\t".toList
  | 10 => "\\n".toList
  | 12 => "\\f".toList
  | 13 => "\\r".toList
  | 34 => "\\\"".toList
  | 92 => "\\\\".toList
  | n => if n < 32 then "\\u00".toList ++ hexDigits n else [c]

/-- `JSON.stringify` of a string, between its quotes. -/
def escape (s : List Char) : List Char := s.flatMap escapeChar

theorem escape_append (s t : List Char) : escape (s ++ t) = escape s ++ escape t := List.flatMap_append

/-- The message of an alert. -/
def Alert.message (a : Alert) : List Char :=
  ("Admin event detected: *" ++ a.subtype ++ "*\nEvent ID: `" ++ a.eventId ++ "`\nLedger: " ++ a.ledger).toList

/-- What comes before the string, and what comes after it. -/
def opening : List Char := "\x7b\"text\":\"".toList

def closing : List Char := "\"\x7d".toList

/-- The text that every message begins with. -/
def greeting : List Char := "🚨 *Admin Action Alert* 🚨\n".toList

/-- The payload up to the closing quote. -/
def unclosed (message : List Char) : List Char := opening ++ escape (greeting ++ message)

def payload (message : List Char) : List Char := unclosed message ++ closing

/-- `payload.length` -/
def contentLength (message : List Char) : ℕ := unitLength (payload message)

theorem unitLength_closing : unitLength closing = 2 := by decide +kernel

/-- The two lights take two code units each, and four bytes. -/
theorem byteLength_greeting : byteLength (escape greeting) = unitLength (escape greeting) + 4 := by decide +kernel

theorem contentLength_lt (message : List Char) : contentLength message + 2 ≤ byteLength (unclosed message) := by
  have hopening := unitLength_le_byteLength opening
  have hmessage := unitLength_le_byteLength (escape message)
  calc contentLength message + 2
      = unitLength opening + (unitLength (escape greeting) + unitLength (escape message)) + 2 + 2 := by
        rw [contentLength, payload, unclosed, escape_append, unitLength_append, unitLength_append, unitLength_append,
          unitLength_closing]
    _ ≤ byteLength opening + (byteLength (escape greeting) + byteLength (escape message)) := by
        rw [byteLength_greeting]
        omega
    _ = byteLength (unclosed message) := by
        rw [unclosed, escape_append, byteLength_append, byteLength_append]

/-- Whatever an alert tells, its payload has more bytes than are declared, and what is read of it always ends
    within the string. -/
theorem slack_cut (a : Alert) :
    ∃ rest, rest ≠ [] ∧
      (encode (payload a.message)).take (contentLength a.message) ++ rest = encode (unclosed a.message) := by
  have hlt := contentLength_lt a.message
  rw [← length_encode] at hlt
  refine ⟨(encode (unclosed a.message)).drop (contentLength a.message), ?_, ?_⟩
  · rw [Ne, List.drop_eq_nil_iff]
    omega
  · rw [payload, encode_append, List.take_append_of_le_length (by omega), List.take_append_drop]

end CosmosVote.AdminMonitor
