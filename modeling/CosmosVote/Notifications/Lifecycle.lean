import CosmosVote.Governance.Trail
import CosmosVote.Notifications.Completeness

/-!
# From governance to the subscribers

What governance does is published, answered by Horizon as records, and read by the watcher, which only knows the
names of the topics and the text of a value.

* `parseEvent_record`: of the events of governance, the watcher picks the milestones, each with its proposal;
* `lifecycle_handed`: unless it is clogged, it hands over the whole life of every proposal, in order.
-/

namespace CosmosVote.Notifications

open Soroban Governance

/-! ## Records -/

/-- `toString` of an item, if addresses and texts are spelt like this. -/
def itemString (strkey : Address → String) (utf8 : Text → String) : Item → String
  | .int n => toString n
  | .symbol s => s
  | .text t => utf8 t
  | .address a => strkey a

/-- The elements of a value: those of a tuple, and the characters of a single item, which is a string. -/
def elements (text : Item → String) : Value → List String
  | .single v => (text v).toList.map String.singleton
  | .tuple items => items.map text
  | .object _ => []

/-- The record of what has been published. -/
def record (text : Item → String) (id : RecordId) (p : Published) : Record where
  id := id
  topic := some (p.topics.map some)
  value := some ((elements text p.value).map some)
  ledgerClosedAt := true

/-- The records of a log, under the ids that Horizon gives them. -/
def stream (text : Item → String) (ids : List RecordId) (log : List Event) : List Record :=
  List.zipWith (record text) ids (log.filterMap Event.published)

/-- The type of the event that tells a milestone. -/
def milestoneType : Milestone → GovernanceEventType
  | .created => .created
  | .voted => .voted
  | .finalised => .final
  | .executed => .exec
  | .cancelled => .cancel

/-- What a subscriber reads of an event. -/
def GovernanceEvent.read (e : GovernanceEvent) : GovernanceEventType × Option String := (e.type, e.proposalId)

/-- What there is to be read of an event of governance. -/
def told (text : Item → String) (e : Event) : Option (GovernanceEventType × Option String) :=
  e.milestone.bind fun m => e.proposal.map fun id => (milestoneType m, some (text (.int id.val)))

/-- The watcher picks the milestones. -/
theorem parseEvent_record (text : Item → String) (rid : RecordId) {e : Event} {p : Published}
    (h : e.published = some p) : (parseEvent (record text rid p)).map GovernanceEvent.read = told text e := by
  cases e <;> cases h <;> rfl

/-- What is not published is no milestone. -/
theorem told_of_unpublished (text : Item → String) {e : Event} (h : e.published = none) : told text e = none := by
  cases e <;> cases h <;> rfl

/-- So it reads what there is to be read in the log. -/
theorem filterMap_stream (text : Item → String) {ids : List RecordId} {log : List Event}
    (hlength : ids.length = (log.filterMap Event.published).length) :
    ((stream text ids log).filterMap parseEvent).map GovernanceEvent.read = log.filterMap (told text) := by
  induction log generalizing ids with
  | nil =>
    rw [stream, List.filterMap_nil, List.zipWith_nil_right, List.filterMap_nil, List.map_nil, List.filterMap_nil]
  | cons e log ih =>
    cases hp : e.published with
    | none =>
      rw [stream, List.filterMap_cons_none hp, List.filterMap_cons_none (told_of_unpublished text hp)]
      exact ih (by rwa [List.filterMap_cons_none hp] at hlength)
    | some p =>
      rw [List.filterMap_cons_some hp] at hlength
      cases ids with
      | nil => cases hlength
      | cons rid ids =>
        have hrest := ih (Nat.succ_inj.1 hlength)
        have hread := parseEvent_record text rid hp
        rw [stream] at hrest
        rw [stream, List.filterMap_cons_some hp, List.zipWith_cons_cons, List.filterMap_cons, List.filterMap_cons,
          ← hread]
        cases parseEvent (record text rid p) with
        | none => exact hrest
        | some event => exact congrArg (event.read :: ·) hrest

/-- Two proposals do not read the same. -/
theorem toString_val_inj {a b : U64} (h : toString a.val = toString b.val) : a = b := by
  obtain ⟨m, hm⟩ := Int.eq_ofNat_of_zero_le a.lo_le
  obtain ⟨n, hn⟩ := Int.eq_ofNat_of_zero_le b.lo_le
  rw [hm, hn] at h
  have hdigits : Nat.toDigits 10 m = Nat.toDigits 10 n := by
    rw [← Nat.toList_repr, ← Nat.toList_repr]
    exact congrArg String.toList h
  have hmn : m = n := by
    rw [← Nat.ofDigitChars_ten_toDigits (n := m), hdigits, Nat.ofDigitChars_ten_toDigits]
  rw [← IntRange.val_inj, hm, hn, hmn]

/-- What can be read of a proposal are its milestones. -/
theorem filter_told {strkey : Address → String} {utf8 : Text → String} (log : List Event) (id : U64) :
    ((log.filterMap (told (itemString strkey utf8))).filter fun r => r.2 = some (toString id.val)).map Prod.fst =
      ((log.filter fun e => e.proposal = some id).filterMap Event.milestone).map milestoneType := by
  induction log with
  | nil => rfl
  | cons e log ih =>
    cases hm : e.milestone with
    | none =>
      rw [List.filterMap_cons_none (by rw [told, hm]; rfl), ih, List.filter_cons]
      split
      · rw [List.filterMap_cons_none hm]
      · rfl
    | some m =>
      cases hid : e.proposal with
      | none =>
        rw [List.filterMap_cons_none (by rw [told, hm, hid]; rfl), ih, List.filter_cons_of_neg]
        rw [hid, decide_eq_true_eq]
        exact (Option.some_ne_none id).symm
      | some id' =>
        have htold : told (itemString strkey utf8) e = some (milestoneType m, some (toString id'.val)) := by
          rw [told, hm, hid]
          rfl
        rw [List.filterMap_cons_some htold]
        by_cases hsame : id' = id
        · rw [List.filter_cons_of_pos (by rw [hsame, decide_eq_true_eq]),
            List.filter_cons_of_pos (by rw [hid, hsame, decide_eq_true_eq]), List.filterMap_cons_some hm,
            List.map_cons, List.map_cons, ih]
        · rw [List.filter_cons_of_neg, List.filter_cons_of_neg, ih]
          · rw [hid, decide_eq_true_eq]
            exact fun h => hsame (Option.some_inj.1 h)
          · rw [decide_eq_true_eq]
            exact fun h => hsame (toString_val_inj (Option.some_inj.1 h))

/-! ## The watcher -/

/-- A stream that does not clog the watcher is handed over. -/
theorem complete_of_not_clogged (env : Environment) {f : File} (hf : f.cursor = .now) {cs : List Round}
    (hids : ((arrivals cs).map Record.id).Nodup) (hclogged : ¬Clogged (arrivals cs)) :
    Watcher.Complete env f cs := by
  refine (Watcher.complete_iff_neverStalls hf hids).2 fun n xs c ys hcs _ hstalled => hclogged ?_
  have hall : arrivals xs ++ arrivals (c :: ys) = arrivals cs := by
    rw [← arrivals_append_polls cs n, hcs, arrivals, arrivals, arrivals, List.filterMap_append]
  have hids' : ((arrivals xs).map Record.id).Nodup := by
    rw [← hall, List.map_append] at hids
    exact hids.of_append_left
  rw [← hall, ← (Watcher.settled_rounds env hf hids').2]
  exact hstalled.clogged _

/-- A stream that is shorter than a page does not. -/
theorem not_clogged_of_short {records : List Record} (h : records.length < pageSize) : ¬Clogged records := by
  rintro ⟨xs, us, ys, rfl, hus, _, _⟩
  rw [List.length_append, List.length_append, hus] at h
  omega

/-- The ids of the records are those that Horizon gives them. -/
theorem map_id_stream (text : Item → String) {ids : List RecordId} {log : List Event}
    (hlength : ids.length = (log.filterMap Event.published).length) :
    (stream text ids log).map Record.id = ids := by
  rw [stream, ← List.map_uncurry_zip_eq_zipWith, List.map_map]
  exact List.map_fst_zip hlength.le

/-- What is read of a proposal in the records of a run of governance is its trail. -/
theorem read_trail {ω : Type} (is : List (Governance.Input ω)) (strkey : Address → String) (utf8 : Text → String)
    {ids : List RecordId}
    (hlength : ids.length = ((run Governance.step Store.empty is).events.filterMap Event.published).length) (id : U64) :
    (((stream (itemString strkey utf8) ids (run Governance.step Store.empty is).events).filterMap
        parseEvent).filter fun e => e.proposalId = some (toString id.val)).map GovernanceEvent.type =
      ((run Governance.step Store.empty is).proposals.lookup id).elim [] fun p => p.trail.map milestoneType := by
  have htrail := congrArg (List.map milestoneType) (run_told is id)
  rw [Store.trail, Store.eventsOf, ← filter_told, ← filterMap_stream (itemString strkey utf8) hlength,
    List.filter_map, List.map_map] at htrail
  refine htrail.trans ?_
  cases (run Governance.step Store.empty is).proposals.lookup id <;> rfl

/-- Governance is run from its beginning, and what it publishes is answered by Horizon as records with different
    ids, which arrive in any way between the polls of a watcher that has been started before, and for which
    nothing fails. If they do not clog it, it has, after sufficiently many polls, handed over of every proposal
    that it was created, as many votes as its count of voters, and how it has ended, in this order and once
    each; and nothing else. -/
theorem lifecycle_handed {ω : Type} (env : Environment) {f : File} (hf : f.cursor = .now)
    (is : List (Governance.Input ω)) (strkey : Address → String) (utf8 : Text → String) {ids : List RecordId}
    (hids : ids.Nodup)
    (hlength : ids.length = ((run Governance.step Store.empty is).events.filterMap Event.published).length)
    {cs : List Round}
    (hcs : arrivals cs = stream (itemString strkey utf8) ids (run Governance.step Store.empty is).events)
    (hclogged : ¬Clogged (arrivals cs)) :
    ∃ n, ∀ m, n ≤ m → ∀ id : U64,
      ((Watcher.rounds env f (cs ++ polls m)).handed.filter fun e => e.proposalId = some (toString id.val)).map
          GovernanceEvent.type =
        ((run Governance.step Store.empty is).proposals.lookup id).elim [] fun p => p.trail.map milestoneType := by
  have hnodup : ((arrivals cs).map Record.id).Nodup := by rwa [hcs, map_id_stream _ hlength]
  obtain ⟨n, hn⟩ := complete_of_not_clogged env hf hnodup hclogged
  refine ⟨n, fun m hm id => ?_⟩
  rw [hn m hm, hcs]
  exact read_trail is strkey utf8 hlength id

/-- The account `1` votes for the first proposal, which is finalised after the minute. -/
def decidedRun : List (Governance.Input Unit) :=
  opening ++ [signed (.lit 1) (.castVote (.account 1) (.lit 0) .yes), signed (.lit 61) (.finalise (.lit 0))]

theorem lifecycle_handed_decided :
    let records := stream (itemString (fun _ => "G") fun _ => "T") ((List.range 4).map (⟨5, ·⟩))
      (run Governance.step Store.empty decidedRun).events
    ∃ n, ∀ m, n ≤ m →
      ((Watcher.rounds ⟨none, none⟩ .missing (oneByOne records ++ polls m)).handed.filter fun e =>
          e.proposalId = some (toString (.lit 0 : U64).val)).map GovernanceEvent.type =
        [.created, .voted, .final] := by
  intro records
  have hids : ((List.range 4).map (⟨5, ·⟩ : ℕ → RecordId)).Nodup := by decide
  have hclogged : ¬Clogged (arrivals (oneByOne records)) := by
    rw [arrivals_oneByOne]
    exact not_clogged_of_short (by decide)
  obtain ⟨n, hn⟩ := lifecycle_handed ⟨none, none⟩ (f := .missing) rfl decidedRun (fun _ => "G") (fun _ => "T") hids rfl
    (arrivals_oneByOne records) hclogged
  exact ⟨n, fun m hm => hn m hm (.lit 0)⟩

end CosmosVote.Notifications
