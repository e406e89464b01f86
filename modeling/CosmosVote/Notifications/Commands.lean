import CosmosVote.JavaScript.Number
import CosmosVote.Notifications.Messages

/-!
# The command line

A subscriber is added by options, each a flag and the value after it. A flag is looked for among all arguments,
also among the values.

* `flag_eq_some_iff`: if no value reads like a flag, and no flag comes twice, each has its value;
* `parseEvents_joined`: names of events that are joined by commas are read as they were, if there are any;
* `parse_render`: so what is written for a subscriber, in any order, is read as that subscriber; and whatever is
  read, the store accepts it, and it can be written again.
-/

namespace CosmosVote.Notifications

open JavaScript

/-- `ALL_EVENTS` -/
def allEvents : List String := ["created", "voted", "final", "exec", "cancel"]

/-- The value after the flag, where it comes first. -/
def flag (args : List String) (name : String) : Option String :=
  if "--" ++ name ∈ args then args[args.idxOf ("--" ++ name) + 1]? else none

/-- The names of the events, which need not be known. -/
def parseEvents (raw : Option String) : List String :=
  if given raw then ((raw.getD "").toList.splitOn ',').map fun e => String.ofList (trim e) else allEvents

/-- What is asked for. `fail` is the end with an error. -/
inductive Command
  | start
  | add (sub : Subscriber)
  | remove (id : String)
  | list
  | fail
  deriving DecidableEq

/-- The subscriber that the arguments describe. -/
def described (args : List String) (uuid : String) : Subscriber where
  id := uuid
  proposalId := flag args "proposal-id"
  events := parseEvents (flag args "events")
  email := flag args "email"
  webhookUrl := flag args "webhook"
  slackWebhookUrl := flag args "slack"
  discordWebhookUrl := flag args "discord"

/-- `main`, up to what it then does; `uuid` is the id for a new subscriber. -/
def parse (argv : List String) (uuid : String) : Command :=
  match argv with
  | [] => .start
  | cmd :: args =>
    if cmd = "start" then .start
    else if cmd = "subscribe" then
      if (described args uuid).hasChannel then .add (described args uuid) else .fail
    else if cmd = "unsubscribe" then
      if given args.head? then .remove (args.head?.getD "") else .fail
    else if cmd = "list" then .list
    else .fail

/-! ## Settings -/

/-- What can be set for a subscriber. -/
inductive Setting
  | email
  | webhook
  | slack
  | discord
  | proposalId
  | events
  deriving DecidableEq

def Setting.name : Setting → String
  | .email => "email"
  | .webhook => "webhook"
  | .slack => "slack"
  | .discord => "discord"
  | .proposalId => "proposal-id"
  | .events => "events"

def Setting.flag (x : Setting) : String := "--" ++ x.name

def settings : List Setting := [.email, .webhook, .slack, .discord, .proposalId, .events]

theorem mem_settings (x : Setting) : x ∈ settings := by cases x <;> decide

theorem Setting.flag_inj {x y : Setting} (h : x.flag = y.flag) : x = y :=
  (by decide : ∀ x ∈ settings, ∀ y ∈ settings, x.flag = y.flag → x = y) x (mem_settings x) y (mem_settings y) h

/-- The arguments by which values are set. -/
def render (vs : List (Setting × String)) : List String := vs.flatMap fun p => [p.1.flag, p.2]

/-- No value reads like a flag. -/
def Plain (vs : List (Setting × String)) : Prop := ∀ p ∈ vs, ∀ x : Setting, p.2 ≠ x.flag

variable {vs : List (Setting × String)} {x : Setting} {v : String}

theorem flag_here (args : List String) (w name : String) : flag (("--" ++ name) :: w :: args) name = some w := by
  rw [flag, if_pos List.mem_cons_self, List.idxOf_cons_self]
  rfl

theorem flag_skip {a w name : String} (ha : a ≠ "--" ++ name) (hw : w ≠ "--" ++ name) (args : List String) :
    flag (a :: w :: args) name = flag args name := by
  rw [flag, List.idxOf_cons_ne _ ha, List.idxOf_cons_ne _ hw, List.getElem?_cons_succ, List.getElem?_cons_succ, flag]
  refine if_congr ?_ rfl rfl
  rw [List.mem_cons, List.mem_cons, or_iff_right ha.symm, or_iff_right hw.symm]

/-- Each flag has its value. -/
theorem flag_eq_some_iff (hplain : Plain vs) (hnodup : (vs.map Prod.fst).Nodup) :
    flag (render vs) x.name = some v ↔ (x, v) ∈ vs := by
  induction vs with
  | nil => exact iff_of_false (Option.not_mem_none v) List.not_mem_nil
  | cons p vs ih =>
    obtain ⟨y, w⟩ := p
    obtain ⟨hw, hrest⟩ := List.forall_mem_cons.1 hplain
    rw [List.map_cons, List.nodup_cons] at hnodup
    by_cases hx : x = y
    · subst hx
      have hhere : flag (render ((x, w) :: vs)) x.name = some w := flag_here (render vs) w x.name
      rw [hhere, List.mem_cons, Prod.mk.injEq, Option.some_inj]
      constructor
      · rintro rfl
        exact .inl ⟨rfl, rfl⟩
      · rintro (⟨_, rfl⟩ | h)
        · rfl
        · exact absurd (List.mem_map_of_mem h) hnodup.1
    · have hflag : y.flag ≠ x.flag := fun h => hx (Setting.flag_inj h).symm
      have hne : (x, v) ≠ (y, w) := fun h => hx (Prod.mk.inj h).1
      rw [List.mem_cons, or_iff_right hne, ← ih hrest hnodup.2]
      exact iff_of_eq (congrArg (· = some v) (flag_skip hflag (hw x) (render vs)))

/-! ## The events -/

/-- A name that is read as it is written: without a comma, and without white space around it. -/
structure Readable (name : String) : Prop where
  comma : ',' ∉ name.toList
  trim_eq : trim name.toList = name.toList

instance (name : String) : Decidable (Readable name) :=
  decidable_of_iff (',' ∉ name.toList ∧ trim name.toList = name.toList)
    ⟨fun h => ⟨h.1, h.2⟩, fun h => ⟨h.comma, h.trim_eq⟩⟩

/-- The names of events, as they are written. -/
def joined (names : List String) : String := String.ofList ([','].intercalate (names.map String.toList))

/-- The names that are read when these are written: if nothing is written, those of all events. -/
def readBack (names : List String) : List String := if names = [] ∨ names = [""] then allEvents else names

theorem notMem_of_mem_splitOn {s l : List Char} {c : Char} (h : l ∈ s.splitOn c) : c ∉ l := by
  induction s generalizing l with
  | nil =>
    rw [List.splitOn_nil, List.mem_singleton] at h
    rw [h]
    exact List.not_mem_nil
  | cons x s ih =>
    rw [List.splitOn_cons_eq_if_modifyHead] at h
    split at h
    · rcases List.mem_cons.1 h with rfl | h
      · exact List.not_mem_nil
      · exact ih h
    · rename_i hx
      obtain ⟨first, rest, hsplit⟩ := List.exists_cons_of_ne_nil (List.splitOn_ne_nil c s)
      rw [hsplit, List.modifyHead_cons] at h
      rw [hsplit] at ih
      -- The first piece goes on with the character, which is another one.
      rcases List.mem_cons.1 h with rfl | h
      · rw [List.mem_cons, not_or]
        exact ⟨fun hc => hx (beq_iff_eq.2 hc.symm), ih List.mem_cons_self⟩
      · exact ih (List.mem_cons_of_mem _ h)

/-- What is read can be written. -/
theorem readable_of_mem_parseEvents {raw : Option String} {name : String} (h : name ∈ parseEvents raw) :
    Readable name := by
  rw [parseEvents] at h
  split at h
  · obtain ⟨part, hpart, rfl⟩ := List.mem_map.1 h
    refine ⟨?_, ?_⟩
    · rw [String.toList_ofList]
      exact fun hcomma => notMem_of_mem_splitOn hpart (mem_of_mem_trim hcomma)
    · rw [String.toList_ofList, trim_trim]
  · exact (by decide : ∀ name ∈ allEvents, Readable name) name h

theorem parseEvents_joined {names : List String} (hnames : ∀ name ∈ names, Readable name) :
    parseEvents (some (joined names)) = readBack names := by
  by_cases hempty : names = [] ∨ names = [""]
  · rw [readBack, if_pos hempty]
    rcases hempty with rfl | rfl <;> rfl
  · have hcomma : ∀ l ∈ names.map String.toList, ',' ∉ l := by
      intro l hl
      obtain ⟨name, hname, rfl⟩ := List.mem_map.1 hl
      exact (hnames name hname).comma
    have hsplit : (joined names).toList.splitOn ',' = names.map String.toList := by
      rw [joined, String.toList_ofList, List.splitOn_intercalate _ hcomma]
      simpa using (not_or.1 hempty).1
    have hgiven : given (some (joined names)) = true := by
      refine decide_eq_true fun hjoined => hempty (.inr ?_)
      rw [hjoined, String.toList_empty, List.splitOn_nil] at hsplit
      obtain ⟨name, rfl, hname⟩ := List.map_eq_singleton_iff.1 hsplit.symm
      rw [String.toList_eq_nil_iff.1 hname]
    rw [parseEvents, if_pos hgiven, Option.getD_some, hsplit, List.map_map, readBack, if_neg hempty]
    calc names.map _ = names.map id := List.map_congr_left fun name hname => by
          rw [Function.comp_apply, (hnames name hname).trim_eq, String.ofList_toList, id]
      _ = names := List.map_id names

/-! ## One subscriber -/

/-- The value that is written for a setting. -/
def Subscriber.value (sub : Subscriber) : Setting → Option String
  | .email => sub.email
  | .webhook => sub.webhookUrl
  | .slack => sub.slackWebhookUrl
  | .discord => sub.discordWebhookUrl
  | .proposalId => sub.proposalId
  | .events => some (joined sub.events)

/-- The settings of a subscriber. -/
def Subscriber.values (sub : Subscriber) : List (Setting × String) :=
  settings.filterMap fun x => (sub.value x).map fun v => (x, v)

theorem Subscriber.mem_values {sub : Subscriber} : (x, v) ∈ sub.values ↔ sub.value x = some v := by
  rw [values, List.mem_filterMap]
  constructor
  · rintro ⟨y, _, hy⟩
    obtain ⟨w, hw, heq⟩ := Option.map_eq_some_iff.1 hy
    obtain ⟨rfl, rfl⟩ := Prod.mk.inj heq
    exact hw
  · exact fun h => ⟨x, mem_settings x, by rw [h]; rfl⟩

theorem Subscriber.nodup_values (sub : Subscriber) : (sub.values.map Prod.fst).Nodup := by
  rw [values, List.map_filterMap]
  refine List.Nodup.filterMap (fun x y z hx hy => ?_) (by decide)
  obtain ⟨p, hp, rfl⟩ := Option.map_eq_some_iff.1 hx
  obtain ⟨_, _, rfl⟩ := Option.map_eq_some_iff.1 hp
  obtain ⟨q, hq, heq⟩ := Option.map_eq_some_iff.1 hy
  obtain ⟨_, _, rfl⟩ := Option.map_eq_some_iff.1 hq
  exact heq.symm

/-- Written in any order, the settings of a subscriber describe them. -/
theorem described_render {sub : Subscriber} (hnames : ∀ name ∈ sub.events, Readable name)
    (hperm : vs.Perm sub.values) (hplain : Plain vs) :
    described (render vs) sub.id = { sub with events := readBack sub.events } := by
  have hnodup : (vs.map Prod.fst).Nodup := (hperm.map _).nodup_iff.2 sub.nodup_values
  have hflag (x : Setting) : flag (render vs) x.name = sub.value x := Option.ext fun v => by
    rw [flag_eq_some_iff hplain hnodup, hperm.mem_iff, Subscriber.mem_values]
  have hevents : parseEvents (flag (render vs) "events") = readBack sub.events := by
    rw [show flag (render vs) "events" = some (joined sub.events) from hflag .events]
    exact parseEvents_joined hnames
  rw [described, hevents]
  congr 1
  · exact hflag .proposalId
  · exact hflag .email
  · exact hflag .webhook
  · exact hflag .slack
  · exact hflag .discord

/-- What the command line reads it accepts, the store does too, and its names of events can be written. And however
    the settings of a subscriber with such names are ordered, if no value reads like a flag, they are read as that
    subscriber, with all events if there are none. -/
theorem parse_render (uuid : String) :
    (∀ argv sub, parse argv uuid = .add sub → sub.id = uuid ∧ (∀ s : SubscriptionStore, (s.addSubscriber sub).isSome) ∧
      ∀ name ∈ sub.events, Readable name) ∧
    ∀ (sub : Subscriber) (vs : List (Setting × String)), sub.id = uuid → (∀ name ∈ sub.events, Readable name) →
      vs.Perm sub.values → Plain vs → parse ("subscribe" :: render vs) uuid =
        if sub.hasChannel then .add { sub with events := readBack sub.events } else .fail := by
  refine ⟨fun argv sub h => ?_, ?_⟩
  · cases argv with
    | nil => cases h
    | cons cmd args =>
      rw [parse] at h
      split at h
      · cases h
      split at h
      · split at h
        · rename_i hchannel
          obtain rfl := Command.add.inj h
          refine ⟨rfl, fun s => ?_, fun name => readable_of_mem_parseEvents⟩
          rw [SubscriptionStore.addSubscriber, if_pos hchannel]
          rfl
        · cases h
      · split at h
        · split at h <;> cases h
        · split at h <;> cases h
  · rintro sub vs rfl hnames hperm hplain
    rw [parse, described_render hnames hperm hplain]
    rfl

/-- The options of the reader, and a name that stands for no event, with a space before it. -/
theorem parse_render_reader :
    parse ["subscribe", "--events", "created,final", "--email", "a@b.c"] "1" = .add reader ∧
      ∃ sub, parse ["subscribe", "--events", "created, other", "--email", "a@b.c"] "1" = .add sub ∧
        sub.events = ["created", "other"] ∧ ∀ name ∈ sub.events, Readable name := by
  have hplain : Plain [(.events, "created,final"), (.email, "a@b.c")] := fun p hp x =>
    (by decide : ∀ p ∈ [(Setting.events, "created,final"), (.email, "a@b.c")], ∀ x ∈ settings, p.2 ≠ x.flag) p hp x
      (mem_settings x)
  refine ⟨(parse_render "1").2 reader [(.events, "created,final"), (.email, "a@b.c")] rfl (by decide) (by decide)
    hplain, { reader with events := ["created", "other"] }, by decide, rfl, ?_⟩
  exact ((parse_render "1").1 ["subscribe", "--events", "created, other", "--email", "a@b.c"]
    { reader with events := ["created", "other"] } (by decide)).2.2

end CosmosVote.Notifications
