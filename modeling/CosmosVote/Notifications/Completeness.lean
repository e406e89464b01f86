import CosmosVote.Notifications.Watcher

/-!
# What the watcher hands over

When nothing fails, a poll hands over the events of the next page, and the cursor is saved if there are
any. So a page without events is asked for again and again: if there are events after it, these are
never handed over.

* `Stalled`: there is no event in the next page, but there is one after it;
* `complete_iff`: everything is handed over, once and in order, exactly if no poll finds the watcher
  stalled. However the records arrive, it does not stall exactly if there are never as many records in
  a row as a page has, without an event among them, and an event after them.
-/

namespace CosmosVote.Notifications

open Soroban Concurrent

/-- What happens when nothing fails. -/
inductive Round
  | arrive (record : Record)
  | poll
  deriving DecidableEq

def Round.record : Round → Option Record
  | .arrive record => some record
  | .poll => none

/-- The records that arrive. -/
def arrivals (cs : List Round) : List Record := cs.filterMap Round.record

/-- As many polls more. -/
def polls (n : ℕ) : List Round := List.replicate n .poll

@[simp]
theorem arrivals_append_polls (cs : List Round) (n : ℕ) : arrivals (cs ++ polls n) = arrivals cs := by
  have hnone : (polls n).filterMap Round.record = [] :=
    List.filterMap_eq_nil_iff.2 fun c hc => List.eq_of_mem_replicate hc ▸ rfl
  rw [arrivals, List.filterMap_append, hnone, List.append_nil, arrivals]

/-- Each record arrives, and a poll is made. -/
def oneByOne (xs : List Record) : List Round := xs.flatMap fun record => [.arrive record, .poll]

/-- The records arrive. -/
def atOnce (xs : List Record) : List Round := xs.map .arrive

@[simp]
theorem arrivals_oneByOne (xs : List Record) : arrivals (oneByOne xs) = xs := by
  induction xs with
  | nil => rfl
  | cons record xs ih =>
    rw [arrivals] at ih
    rw [arrivals, oneByOne, List.flatMap_cons, List.filterMap_append, ← oneByOne, ih]
    rfl

@[simp]
theorem arrivals_atOnce (xs : List Record) : arrivals (atOnce xs) = xs := by
  rw [arrivals, atOnce, List.filterMap_map]
  exact List.filterMap_some

/-- There are as many records in a row as a page has, without an event among them, and an event after
    them. -/
def Clogged (l : List Record) : Prop :=
  ∃ xs us ys, l = xs ++ us ++ ys ∧ us.length = pageSize ∧ us.filterMap parseEvent = [] ∧
    ys.filterMap parseEvent ≠ []

namespace Watcher

variable (env : Environment) (f : File) (w : Watcher) (cs : List Round)

def round (w : Watcher) : Round → Watcher
  | .arrive record => w.step env (.arrive record)
  | .poll => run (step env) w (pollActions env w)

/-- The process after the rounds, which begin as it is started. -/
abbrev rounds : Watcher := run (round env) (init f) cs

/-- The events after the cursor. -/
def behind : List GovernanceEvent := (after Record.id w.records w.file.cursor.token).filterMap parseEvent

/-- There is no event in the next page, but there is one after it. -/
def Stalled : Prop :=
  (contractEvents w.records w.file.cursor.token pageSize).filterMap parseEvent = [] ∧ w.behind ≠ []

/-- After sufficiently many polls, the events of all records have been handed over, once each and in order. -/
def Complete : Prop :=
  ∃ n, ∀ m, n ≤ m → (rounds env f (cs ++ polls m)).handed = (arrivals cs).filterMap parseEvent

/-- Between two rounds, the events up to the cursor have been handed over. -/
structure Settled : Prop where
  phase : w.phase = .down ∨ w.phase = .waiting
  placed : Placed Record.id w.records w.file.cursor.token
  handed : w.handed = (upTo Record.id w.records w.file.cursor.token).filterMap parseEvent

variable {env f w cs}

theorem Settled.handed_append_behind (h : w.Settled) : w.handed ++ w.behind = w.records.filterMap parseEvent := by
  rw [h.handed, behind, ← List.filterMap_append, upTo_append_after]

/-- All events are in the next page, or after it. -/
theorem behind_eq : w.behind =
    (contractEvents w.records w.file.cursor.token pageSize).filterMap parseEvent ++
      ((after Record.id w.records w.file.cursor.token).drop pageSize).filterMap parseEvent := by
  rw [behind, contractEvents, ← List.filterMap_append, List.take_append_drop]

/-! ## One round -/

theorem records_arrive (record : Record) : (w.round env (.arrive record)).records = w.records ++ [record] := rfl

theorem file_arrive (record : Record) : (w.round env (.arrive record)).file = w.file := rfl

theorem Settled.arrive (h : w.Settled) (record : Record) : (w.round env (.arrive record)).Settled := by
  refine ⟨h.phase, h.placed.append [record], ?_⟩
  rw [records_arrive, file_arrive, upTo_append h.placed]
  exact h.handed

/-- There may be one event more. -/
theorem Settled.behind_arrive (h : w.Settled) (record : Record) :
    (w.round env (.arrive record)).behind = w.behind ++ (parseEvent record).toList := by
  rw [behind, records_arrive, file_arrive, after_append h.placed, List.filterMap_append, List.filterMap_cons]
  cases parseEvent record <;> rfl

theorem Stalled.arrive (h : w.Stalled) (hw : w.Settled) (record : Record) : (w.round env (.arrive record)).Stalled := by
  obtain ⟨hpage, hbehind⟩ := h
  have hlong : pageSize ≤ (after Record.id w.records w.file.cursor.token).length := by
    by_contra hshort
    rw [behind_eq, hpage, List.drop_of_length_le (not_le.1 hshort).le] at hbehind
    exact hbehind rfl
  refine ⟨?_, ?_⟩
  · rw [contractEvents, records_arrive, file_arrive, after_append hw.placed, List.take_append_of_le_length hlong]
    exact hpage
  · rw [hw.behind_arrive]
    exact List.append_ne_nil_of_left_ne_nil hbehind _

variable (env) in
/-- A poll hands over the events of the next page, if there are any, and nothing changes if there is none. -/
theorem Settled.poll (h : w.Settled) (hids : (w.records.map Record.id).Nodup) :
    let page := contractEvents w.records w.file.cursor.token pageSize
    let v := w.round env .poll
    v.Settled ∧ v.records = w.records ∧ w.behind = page.filterMap parseEvent ++ v.behind ∧
      (page.filterMap parseEvent = [] → v.file.cursor = w.file.cursor) := by
  intro page v
  have hafter : after Record.id w.records w.file.cursor.token =
      page ++ (after Record.id w.records w.file.cursor.token).drop pageSize := (List.take_append_drop ..).symm
  obtain ⟨hphase, hrecords, hhanded, hcursor⟩ := run_pollActions env h.phase
  change v.phase = _ at hphase
  change v.records = _ at hrecords
  change v.handed = _ at hhanded
  change v.file.cursor = _ at hcursor
  have htoken := token_fetchNewEvents page w.file.cursor
  rw [fetchNewEvents_eq] at hhanded hcursor htoken
  dsimp only at hhanded hcursor htoken
  by_cases hpage : page.filterMap parseEvent = []
  · rw [if_neg (by rw [hpage]; exact Nat.lt_irrefl 0)] at hcursor
    refine ⟨⟨.inr hphase, ?_, ?_⟩, hrecords, ?_, fun _ => hcursor⟩
    · rw [hrecords, hcursor]
      exact h.placed
    · rw [hhanded, hrecords, hcursor, hpage, List.append_nil]
      exact h.handed
    · rw [hpage, List.nil_append, behind, behind, hrecords, hcursor]
  · rw [if_pos (List.length_pos_iff.2 hpage)] at hcursor
    refine ⟨⟨.inr hphase, ?_, ?_⟩, hrecords, ?_, fun hnone => absurd hnone hpage⟩
    · rw [hrecords, hcursor, htoken]
      exact h.placed.next hafter
    · rw [hhanded, hrecords, hcursor, htoken, upTo_next hids hafter, List.filterMap_append, h.handed]
    · rw [behind, behind, hrecords, hcursor, htoken, after_next hids hafter, ← List.filterMap_append, ← hafter]

theorem Stalled.poll (hs : w.Stalled) (h : w.Settled) (hids : (w.records.map Record.id).Nodup) :
    (w.round env .poll).Stalled := by
  obtain ⟨_, hrecords, hbehind, hcursor⟩ := h.poll env hids
  refine ⟨?_, ?_⟩
  · rw [hrecords, hcursor hs.1]
    exact hs.1
  · rw [hs.1, List.nil_append] at hbehind
    exact hbehind ▸ hs.2

variable (env) in
/-- A poll that does not find the watcher stalled hands something over, if there is anything. -/
theorem Settled.length_poll (h : w.Settled) (hids : (w.records.map Record.id).Nodup) (hs : ¬w.Stalled) :
    (w.round env .poll).behind.length ≤ w.behind.length - 1 := by
  obtain ⟨_, _, hbehind, _⟩ := h.poll env hids
  by_cases hpage : (contractEvents w.records w.file.cursor.token pageSize).filterMap parseEvent = []
  · have hnone : w.behind = [] := not_not.1 fun hne => hs ⟨hpage, hne⟩
    rw [hpage, List.nil_append] at hbehind
    rw [← hbehind, hnone]
    exact Nat.zero_le _
  · have hpos := List.length_pos_iff.2 hpage
    have hlength := congrArg List.length hbehind
    rw [List.length_append] at hlength
    omega

/-! ## Runs of rounds -/

theorem nodup_of_append {ds : List Round} (h : ((arrivals (cs ++ ds)).map Record.id).Nodup) :
    ((arrivals cs).map Record.id).Nodup := by
  rw [arrivals, List.filterMap_append, List.map_append] at h
  exact h.of_append_left

variable (env) in
theorem settled_rounds (hf : f.cursor = .now) (hids : ((arrivals cs).map Record.id).Nodup) :
    (rounds env f cs).Settled ∧ (rounds env f cs).records = arrivals cs := by
  induction cs using List.reverseRecOn with
  | nil =>
    refine ⟨⟨.inl rfl, ?_, ?_⟩, rfl⟩
    · exact (show (rounds env f []).file.cursor = .now from hf) ▸ placed_none
    · rw [show (rounds env f []).file.cursor = .now from hf]
      rfl
  | append_singleton cs c ih =>
    obtain ⟨hsettled, hrecords⟩ := ih (nodup_of_append hids)
    rw [rounds, run_concat]
    cases c with
    | arrive record =>
      refine ⟨hsettled.arrive record, ?_⟩
      rw [records_arrive, hrecords, arrivals, arrivals, List.filterMap_append]
      rfl
    | poll =>
      obtain ⟨hsettled', hrecords', _⟩ := hsettled.poll env (hrecords ▸ nodup_of_append hids)
      refine ⟨hsettled', hrecords'.trans (hrecords.trans ?_)⟩
      exact (arrivals_append_polls cs 1).symm

theorem Stalled.rounds {ds : List Round} (hs : (rounds env f cs).Stalled) (hf : f.cursor = .now)
    (hids : ((arrivals (cs ++ ds)).map Record.id).Nodup) : (rounds env f (cs ++ ds)).Stalled := by
  induction ds using List.reverseRecOn with
  | nil => rwa [List.append_nil]
  | append_singleton ds d ih =>
    rw [← List.append_assoc] at hids ⊢
    have hstalled := ih (nodup_of_append hids)
    obtain ⟨hsettled, hrecords⟩ := settled_rounds env hf (nodup_of_append hids)
    rw [Watcher.rounds, run_concat]
    cases d with
    | arrive record => exact hstalled.arrive hsettled record
    | poll => exact hstalled.poll hsettled (hrecords ▸ nodup_of_append hids)

theorem handed_iff (hf : f.cursor = .now) (hids : ((arrivals cs).map Record.id).Nodup) :
    (rounds env f cs).handed = (arrivals cs).filterMap parseEvent ↔ (rounds env f cs).behind = [] := by
  obtain ⟨hsettled, hrecords⟩ := settled_rounds env hf hids
  rw [← hrecords, ← hsettled.handed_append_behind]
  exact List.self_eq_append_right

/-- No poll finds the watcher stalled. -/
def NeverStalls (env : Environment) (f : File) (cs : List Round) : Prop :=
  ∀ n, Along (round env) (fun w c => c = .poll → ¬w.Stalled) (init f) (cs ++ polls n)

/-- Each poll after the last arrival hands something over, until there is nothing left. -/
theorem NeverStalls.length_behind (h : NeverStalls env f cs) (hf : f.cursor = .now)
    (hids : ((arrivals cs).map Record.id).Nodup) (n : ℕ) :
    (rounds env f (cs ++ polls n)).behind.length ≤ (rounds env f cs).behind.length - n := by
  induction n with
  | zero =>
    rw [polls, List.replicate_zero, List.append_nil]
    exact le_rfl
  | succ n ih =>
    have hcs : cs ++ polls (n + 1) = cs ++ polls n ++ [.poll] := by
      rw [polls, List.replicate_succ', List.append_assoc]
      rfl
    have hids' : ((arrivals (cs ++ polls n)).map Record.id).Nodup := by rwa [arrivals_append_polls]
    obtain ⟨hsettled, hrecords⟩ := settled_rounds env hf hids'
    have hstalled := h (n + 1) (cs ++ polls n) .poll [] hcs rfl
    have hlength := hsettled.length_poll env (hrecords ▸ hids') hstalled
    rw [hcs, rounds, run_concat]
    exact hlength.trans (by omega)

theorem complete_iff_neverStalls (hf : f.cursor = .now) (hids : ((arrivals cs).map Record.id).Nodup) :
    Complete env f cs ↔ NeverStalls env f cs := by
  have hids' (n : ℕ) : ((arrivals (cs ++ polls n)).map Record.id).Nodup := by rwa [arrivals_append_polls]
  constructor
  · rintro ⟨n, hn⟩ m xs c ys hcs rfl hstalled
    -- Then it is still stalled after sufficiently many polls.
    have hall : cs ++ polls (m + n) = xs ++ (.poll :: ys ++ polls n) := by
      rw [polls, List.replicate_add, ← List.append_assoc, ← polls, ← polls, hcs, List.append_assoc]
    have hlater := hstalled.rounds hf (hall ▸ hids' (m + n))
    rw [← hall] at hlater
    have hhanded := hn (m + n) (Nat.le_add_left ..)
    rw [← arrivals_append_polls cs (m + n)] at hhanded
    exact hlater.2 ((handed_iff hf (hids' _)).1 hhanded)
  · intro h
    refine ⟨(rounds env f cs).behind.length, fun m hm => ?_⟩
    rw [← arrivals_append_polls cs m]
    refine (handed_iff hf (hids' m)).2 (List.length_eq_zero_iff.1 (Nat.eq_zero_of_le_zero ?_))
    exact (h.length_behind hf hids m).trans (Nat.sub_eq_zero_of_le hm).le

/-- A watcher that is stalled has only seen a part of what clogs it. -/
theorem Stalled.clogged (hs : w.Stalled) (zs : List Record) : Clogged (w.records ++ zs) := by
  obtain ⟨hpage, hbehind⟩ := hs
  rw [behind_eq, hpage, List.nil_append] at hbehind
  refine ⟨upTo Record.id w.records w.file.cursor.token, contractEvents w.records w.file.cursor.token pageSize,
    (after Record.id w.records w.file.cursor.token).drop pageSize ++ zs, ?_, ?_, hpage, ?_⟩
  · rw [List.append_assoc, ← List.append_assoc (contractEvents ..), contractEvents, List.take_append_drop,
      ← List.append_assoc, upTo_append_after]
  · rw [contractEvents, List.length_take, Nat.min_eq_left]
    by_contra hshort
    rw [List.drop_of_length_le (not_le.1 hshort).le] at hbehind
    exact hbehind rfl
  · rw [List.filterMap_append]
    exact List.append_ne_nil_of_left_ne_nil hbehind _

variable (env f cs) in
theorem rounds_atOnce (xs : List Record) :
    (rounds env f (cs ++ atOnce xs)).records = (rounds env f cs).records ++ xs ∧
      (rounds env f (cs ++ atOnce xs)).file = (rounds env f cs).file := by
  induction xs using List.reverseRecOn with
  | nil =>
    rw [atOnce, List.map_nil, List.append_nil, List.append_nil]
    exact ⟨rfl, rfl⟩
  | append_singleton xs record ih =>
    rw [atOnce, List.map_append, List.map_singleton, ← atOnce, ← List.append_assoc, rounds, run_concat,
      records_arrive, file_arrive, ih.1, ih.2, List.append_assoc]
    exact ⟨rfl, rfl⟩

/-- If records arrive one by one, nothing is left of their events, unless the watcher stalls. -/
theorem behind_oneByOne (hf : f.cursor = .now) {xs : List Record} (hids : (xs.map Record.id).Nodup)
    (h : Along (round env) (fun w c => c = .poll → ¬w.Stalled) (init f) (oneByOne xs)) :
    (rounds env f (oneByOne xs)).behind = [] := by
  induction xs using List.reverseRecOn with
  | nil =>
    rw [behind, after, show (rounds env f (oneByOne [])).records = [] from rfl, List.drop_nil, List.filterMap_nil]
  | append_singleton xs record ih =>
    have hsplit : oneByOne (xs ++ [record]) = oneByOne xs ++ [.arrive record] ++ [.poll] := by
      rw [oneByOne, List.flatMap_append, List.append_assoc]
      rfl
    rw [hsplit] at h ⊢
    have hids' : ((arrivals (oneByOne xs ++ [.arrive record])).map Record.id).Nodup := by
      rw [arrivals, List.filterMap_append, ← arrivals, arrivals_oneByOne]
      exact hids
    obtain ⟨hsettled, hrecords⟩ := settled_rounds env hf hids'
    have hbehind := ih (hids.sublist ((List.sublist_append_left ..).map _)) h.left.left
    have hone : (rounds env f (oneByOne xs ++ [.arrive record])).behind.length ≤ 1 := by
      rw [rounds, run_concat, (settled_rounds env hf (nodup_of_append hids')).1.behind_arrive, hbehind,
        List.nil_append]
      cases parseEvent record with
      | none => exact Nat.zero_le 1
      | some event => exact le_rfl
    have hlength := hsettled.length_poll env (hrecords ▸ hids') (h.right.head rfl)
    rw [rounds, run_concat]
    exact List.length_eq_zero_iff.1 (Nat.eq_zero_of_le_zero (hlength.trans (Nat.sub_eq_zero_of_le hone).le))

/-- What clogs the watcher does so if all records before it have been handed over when it arrives. -/
theorem stalled_of_clogged (hf : f.cursor = .now) {xs us ys : List Record}
    (hids : ((xs ++ us ++ ys).map Record.id).Nodup) (hus : us.length = pageSize)
    (hnone : us.filterMap parseEvent = []) (hsome : ys.filterMap parseEvent ≠ [])
    (hbehind : (rounds env f (oneByOne xs)).behind = []) :
    (rounds env f (oneByOne xs ++ atOnce (us ++ ys))).Stalled := by
  have hids' : ((arrivals (oneByOne xs)).map Record.id).Nodup := by
    rw [arrivals_oneByOne]
    rw [List.append_assoc, List.map_append] at hids
    exact hids.of_append_left
  obtain ⟨hrecords, hfile⟩ := rounds_atOnce env f (oneByOne xs) (us ++ ys)
  have hplaced := (settled_rounds env hf hids').1.placed
  rw [behind] at hbehind
  have hafter : after Record.id (rounds env f (oneByOne xs ++ atOnce (us ++ ys))).records
      (rounds env f (oneByOne xs ++ atOnce (us ++ ys))).file.cursor.token =
      (after Record.id (rounds env f (oneByOne xs)).records (rounds env f (oneByOne xs)).file.cursor.token ++ us) ++
        ys := by
    rw [hrecords, hfile, after_append hplaced, List.append_assoc]
  generalize after Record.id (rounds env f (oneByOne xs)).records (rounds env f (oneByOne xs)).file.cursor.token = zs
    at hbehind hafter
  refine ⟨?_, ?_⟩
  · have hlong : pageSize ≤ (zs ++ us).length := by
      rw [List.length_append, hus]
      exact Nat.le_add_left ..
    rw [contractEvents, hafter, List.take_append_of_le_length hlong, List.filterMap_eq_nil_iff]
    intro record hrecord
    rcases List.mem_append.1 (List.mem_of_mem_take hrecord) with hmem | hmem
    · exact List.filterMap_eq_nil_iff.1 hbehind record hmem
    · exact List.filterMap_eq_nil_iff.1 hnone record hmem
  · rw [behind, hafter, List.filterMap_append]
    exact List.append_ne_nil_of_right_ne_nil _ hsome

end Watcher

/-- For every stream of records:

    * for every way in which they arrive between polls, everything is handed over, once and in order, exactly
      if no poll finds the watcher stalled;
    * it is so for every way in which they arrive exactly if the stream does not clog the watcher. -/
theorem complete_iff {env : Environment} {f : File} (hf : f.cursor = .now) {records : List Record}
    (hids : (records.map Record.id).Nodup) :
    (∀ cs, arrivals cs = records → (Watcher.Complete env f cs ↔ Watcher.NeverStalls env f cs)) ∧
      ((∀ cs, arrivals cs = records → Watcher.Complete env f cs) ↔ ¬Clogged records) := by
  have hiff (cs : List Round) (hcs : arrivals cs = records) :
      Watcher.Complete env f cs ↔ Watcher.NeverStalls env f cs :=
    Watcher.complete_iff_neverStalls hf (hcs ▸ hids)
  refine ⟨hiff, ?_, ?_⟩
  · rintro hall ⟨xs, us, ys, rfl, hus, hnone, hsome⟩
    have hcs : arrivals (oneByOne xs ++ atOnce (us ++ ys)) = xs ++ us ++ ys := by
      rw [arrivals, List.filterMap_append, ← arrivals, ← arrivals, arrivals_oneByOne, arrivals_atOnce,
        List.append_assoc]
    have hnever := (hiff _ hcs).1 (hall _ hcs) 1
    have hbehind := Watcher.behind_oneByOne hf (hids.sublist ?_) hnever.left.left
    · exact hnever.right.head rfl (Watcher.stalled_of_clogged hf hids hus hnone hsome hbehind)
    · rw [List.append_assoc]
      exact (List.sublist_append_left ..).map _
  · rintro hclogged cs rfl
    refine (hiff cs rfl).2 fun n xs c ys hcs _ hstalled => hclogged ?_
    have hall : arrivals xs ++ arrivals (c :: ys) = arrivals cs := by
      rw [← arrivals_append_polls cs n, hcs, arrivals, arrivals, arrivals, List.filterMap_append]
    have hids' : ((arrivals xs).map Record.id).Nodup := by
      rw [← hall, List.map_append] at hids
      exact hids.of_append_left
    have hrecords := (Watcher.settled_rounds env hf hids').2
    rw [← hall, ← hrecords]
    exact hstalled.clogged _

/-- A short stream is handed over in any case. -/
theorem complete_iff_short :
    Watcher.Complete ⟨none, none⟩ .missing
      [.arrive (sampleRecord "retract" 0), .poll, .arrive (sampleRecord "created" 1)] := by
  have hids : ([sampleRecord "retract" 0, sampleRecord "created" 1].map Record.id).Nodup := by decide
  refine (complete_iff rfl hids).2.2 ?_ _ rfl
  rintro ⟨xs, us, ys, hl, hus, _, _⟩
  have hlength := congrArg List.length hl
  rw [List.length_append, List.length_append, hus, pageSize] at hlength
  exact absurd hlength (by simp only [List.length_cons, List.length_nil]; omega)

/-- A page of retracted votes, and a proposal created after that: it is never handed over. -/
theorem created_never_handed :
    let retracted := (List.range pageSize).map (sampleRecord "retract")
    let records := retracted ++ [sampleRecord "created" pageSize]
    (records.map Record.id).Nodup ∧ ¬Watcher.Complete ⟨none, none⟩ .missing (atOnce records) := by
  intro retracted records
  have hids : (records.map Record.id).Nodup := by
    have hmap : records.map Record.id = (List.range (pageSize + 1)).map fun index => ⟨5, index⟩ := by
      rw [List.range_succ, List.map_append, List.map_append, List.map_map]
      rfl
    rw [hmap]
    exact List.nodup_range.map fun _ _ h => (RecordId.mk.inj h).2
  refine ⟨hids, fun hcomplete => ?_⟩
  have hcreated : [sampleRecord "created" pageSize].filterMap parseEvent ≠ [] := List.cons_ne_nil _ _
  have hretracted : retracted.filterMap parseEvent = [] := by
    refine List.filterMap_eq_nil_iff.2 fun record hrecord => ?_
    obtain ⟨index, _, rfl⟩ := List.mem_map.1 hrecord
    rfl
  have hlength : retracted.length = pageSize := by rw [List.length_map, List.length_range]
  have hnever := (Watcher.complete_iff_neverStalls rfl (by rwa [arrivals_atOnce])).1 hcomplete 1
  have hbehind : (Watcher.rounds ⟨none, none⟩ .missing (oneByOne [])).behind = [] := rfl
  have hstalled := Watcher.stalled_of_clogged rfl hids hlength hretracted hcreated hbehind
  exact hnever.right.head rfl hstalled

end CosmosVote.Notifications
