import CosmosVote.Wire

/-!
# The anomaly monitor

The monitor fetches the events of both contracts, batch by batch, and raises alerts
(`detectAnomalies`). It looks for names, in the topics and in the value, that the contracts
do not use.

* `detectAnomalies_batch`: the events of the contracts raise no alert, but for those that say that tokens
  were minted;
* `monitor_iff`: so the alerts on transfers, cancellations, pauses and votes are right exactly for the
  batches that call for none.
-/

namespace CosmosVote.Monitor

open Soroban

/-- The thresholds. `RAPID_VOTE_BURST` and `ADMIN_CHANGE_COUNT` are read with `parseInt`. -/
structure Thresholds where
  largeTransferAmount : ℤ
  rapidVoteBurst : ℤ
  adminChangeCount : ℤ

/-- A topic as the RPC endpoint answers it. -/
inductive Topic
  | sym (s : String)
  | text (s : String)

/-- An event as the RPC endpoint answers it. -/
structure RpcEvent where
  contractId : String
  topic : Option (List Topic)
  value : Value

/-- An event as `detectAnomalies` reads it. -/
structure Event where
  contractId : String
  topics : List String
  value : Value

/-- `t?.sym ?? t` -/
def Topic.name : Topic → String
  | .sym s => s
  | .text s => s

/-- How `fetchEvents` normalises an event. -/
def normalise (e : RpcEvent) : Event := ⟨e.contractId, (e.topic.map (List.map Topic.name)).getD [], e.value⟩

inductive Alert
  | suspiciousAdminChanges (contractId : String) (count : ℕ) (topics : List String)
  | largeTokenTransfer (contractId : String) (from_ to_ : Option Item) (amount threshold : ℤ)
  | rapidVoteBurst (count : ℕ) (threshold : ℤ)
  | proposalCancelled (contractId : String) (proposalId cancelledBy : Option Item)
  | contractPaused (contractId : String) (pausedBy : Option Item)
  | tokenMinted (contractId : String) (to_ amount : Option Item)
  deriving DecidableEq

/-- `BigInt(v)`, which throws if `v` is no numeral. -/
def bigInt : Item → Option ℤ
  | .int n => some n
  | .symbol s => s.toInt?
  | .text _ => none
  | .address _ => none

section Rules

variable (c : Thresholds) (e : Event)

/-- The event changes the admin or the configuration. -/
def Event.changesAdmin : Bool := e.topics.contains "set_admin" || e.topics.contains "update_config"

/-- The rule for large token transfers. It fails if `BigInt` throws. -/
def largeTransfers : Option (List Alert) :=
  if e.topics.contains "transfer" then
    match e.value.field "amount" with
    | some v => (bigInt v).map fun amount =>
      if c.largeTransferAmount ≤ amount then
        [.largeTokenTransfer e.contractId (e.value.field "from") (e.value.field "to") amount
          c.largeTransferAmount]
      else []
    | none => some []
  else some []

/-- The rule for cancellations. -/
def cancellations : List Alert :=
  if e.topics.contains "proposal_cancelled" then
    [.proposalCancelled e.contractId (e.value.field "proposal_id") (e.value.field "admin")]
  else []

/-- The rule for pauses. -/
def pauses : List Alert :=
  if e.topics.contains "contract_paused" then [.contractPaused e.contractId (e.value.field "admin")] else []

/-- The rule for mint events. -/
def mints : List Alert :=
  if e.topics.contains "mint" then
    [.tokenMinted e.contractId (e.value.field "to") (e.value.field "amount")]
  else []

/-- The rule for vote bursts, at the end of the batch. -/
def voteBurst (voteCount : ℕ) : List Alert :=
  if c.rapidVoteBurst ≤ voteCount then [.rapidVoteBurst voteCount c.rapidVoteBurst] else []

end Rules

/-- The loop of `detectAnomalies`, with its two counters. -/
def detectFrom (c : Thresholds) (adminChanges voteCount : ℕ) : List Event → List Alert
  | [] => voteBurst c voteCount
  | e :: es =>
    let adminChanges := if e.changesAdmin then adminChanges + 1 else adminChanges
    let suspicious := if e.changesAdmin ∧ c.adminChangeCount ≤ adminChanges then
      [.suspiciousAdminChanges e.contractId adminChanges e.topics] else []
    let voteCount := if e.topics.contains "vote_cast" then voteCount + 1 else voteCount
    match largeTransfers c e with
    | some large =>
      suspicious ++ large ++ cancellations e ++ pauses e ++ mints e ++
        detectFrom c adminChanges voteCount es
    | none => suspicious

/-- The alerts for a batch of events. -/
def detectAnomalies (c : Thresholds) (events : List Event) : List Alert := detectFrom c 0 0 events

/-! ## The events of the contracts -/

/-- Where the two contracts are. -/
structure Contracts where
  token : String
  governance : String

/-- The contract that an event is of. -/
def Contracts.source (k : Contracts) : ChainEvent → String
  | .token _ => k.token
  | .governance _ => k.governance

/-- An event of the contracts, as the RPC endpoint answers it. -/
def Contracts.rpcEvent (k : Contracts) (e : ChainEvent) : Option RpcEvent :=
  e.published.map fun p => ⟨k.source e, some (p.topics.map .sym), p.value⟩

/-- The batch that `fetchEvents` makes of the events of the contracts. -/
def Contracts.batch (k : Contracts) (es : List ChainEvent) : List Event := (es.filterMap k.rpcEvent).map normalise

@[simp]
theorem topics_normalise (contractId : String) (topics : List String) (value : Value) :
    (normalise ⟨contractId, some (topics.map .sym), value⟩).topics = topics := by
  rw [normalise, Option.map_some, Option.getD_some, List.map_map]
  exact List.map_id topics

/-- The names that the monitor looks for, but for `mint`. -/
def watched : List String :=
  ["set_admin", "update_config", "transfer", "vote_cast", "proposal_cancelled", "contract_paused"]

/-- No contract uses these names. -/
theorem not_mem_of_watched {name : String} (h : name ∈ watched) {topics : List String}
    (htopics : topics ∈ publishedTopics) : topics.contains name = false :=
  (show ∀ name ∈ watched, ∀ topics ∈ publishedTopics, topics.contains name = false by decide) name h topics
    htopics

/-- An event with none of the names raises no alert, unless it is a mint event. -/
theorem detectFrom_cons {c : Thresholds} {e : Event} (h : ∀ name ∈ watched, e.topics.contains name = false)
    (adminChanges voteCount : ℕ) (es : List Event) :
    detectFrom c adminChanges voteCount (e :: es) = mints e ++ detectFrom c adminChanges voteCount es := by
  have hadmin : e.changesAdmin = false := by
    rw [Event.changesAdmin, h "set_admin" (by decide), h "update_config" (by decide)]
    rfl
  have hlarge : largeTransfers c e = some [] :=
    if_neg (by rw [h "transfer" (by decide)]; exact Bool.false_ne_true)
  have hcancel : cancellations e = [] :=
    if_neg (by rw [h "proposal_cancelled" (by decide)]; exact Bool.false_ne_true)
  have hpause : pauses e = [] :=
    if_neg (by rw [h "contract_paused" (by decide)]; exact Bool.false_ne_true)
  have hvote := h "vote_cast" (by decide)
  simp only [detectFrom, hadmin, hlarge, hcancel, hpause, hvote, Bool.false_eq_true, false_and, if_false,
    List.nil_append]

/-- What a batch of the contracts raises alerts for: its mint events, and a burst of no votes at all. -/
theorem detectAnomalies_batch (c : Thresholds) (k : Contracts) (es : List ChainEvent) :
    detectAnomalies c (k.batch es) = (k.batch es).flatMap mints ++ voteBurst c 0 := by
  rw [detectAnomalies]
  induction es with
  | nil => rfl
  | cons e es ih =>
    cases h : e.published with
    | none =>
      have hbatch : k.batch (e :: es) = k.batch es := by
        rw [Contracts.batch, List.filterMap_cons_none (by rw [Contracts.rpcEvent, h]; rfl), Contracts.batch]
      rw [hbatch]
      exact ih
    | some p =>
      have hbatch : k.batch (e :: es) =
          normalise ⟨k.source e, some (p.topics.map .sym), p.value⟩ :: k.batch es := by
        rw [Contracts.batch, List.filterMap_cons_some (by rw [Contracts.rpcEvent, h]; rfl), List.map_cons,
          Contracts.batch]
      rw [hbatch, detectFrom_cons, ih, List.flatMap_cons, List.append_assoc]
      intro name hname
      rw [topics_normalise]
      exact not_mem_of_watched hname (ChainEvent.published_spec h).1

/-! ## The alerts that are called for -/

def Alert.isLargeTransfer : Alert → Bool
  | .largeTokenTransfer .. => true
  | _ => false

def Alert.isCancellation : Alert → Bool
  | .proposalCancelled .. => true
  | _ => false

def Alert.isPause : Alert → Bool
  | .contractPaused .. => true
  | _ => false

def Alert.isVoteBurst : Alert → Bool
  | .rapidVoteBurst .. => true
  | _ => false

/-- A transfer of at least the threshold. -/
def isLargeTransfer (c : Thresholds) : ChainEvent → Bool
  | .token (.transfer _ _ amount) => c.largeTransferAmount ≤ amount.val
  | _ => false

def isCancellation : ChainEvent → Bool
  | .governance (.proposalCancelled ..) => true
  | _ => false

def isPause : ChainEvent → Bool
  | .token (.paused _) => true
  | .governance (.paused _) => true
  | _ => false

def isVote : ChainEvent → Bool
  | .governance (.voteCast ..) => true
  | _ => false

/-- The alerts for a batch are those that its events call for: one for each large transfer, each
    cancellation and each pause, and one for the votes if these reach the threshold. -/
structure Understood (c : Thresholds) (k : Contracts) (es : List ChainEvent) : Prop where
  largeTransfer : (detectAnomalies c (k.batch es)).countP Alert.isLargeTransfer = es.countP (isLargeTransfer c)
  cancellation : (detectAnomalies c (k.batch es)).countP Alert.isCancellation = es.countP isCancellation
  pause : (detectAnomalies c (k.batch es)).countP Alert.isPause = es.countP isPause
  voteBurst : (∃ a ∈ detectAnomalies c (k.batch es), a.isVoteBurst) ↔ c.rapidVoteBurst ≤ es.countP isVote

/-- An alert for a batch is for a mint event, or for a burst of no votes at all. -/
theorem mem_detectAnomalies {c : Thresholds} {k : Contracts} {es : List ChainEvent} {a : Alert}
    (h : a ∈ detectAnomalies c (k.batch es)) :
    (∃ contractId to_ amount, a = .tokenMinted contractId to_ amount) ∨
      c.rapidVoteBurst ≤ 0 ∧ a = .rapidVoteBurst 0 c.rapidVoteBurst := by
  rw [detectAnomalies_batch, List.mem_append, List.mem_flatMap] at h
  rcases h with ⟨e, _, h⟩ | h
  · rw [mints] at h
    split at h
    · exact .inl ⟨_, _, _, List.mem_singleton.1 h⟩
    · exact absurd h List.not_mem_nil
  · rw [voteBurst] at h
    split at h
    · rename_i hle
      exact .inr ⟨hle, List.mem_singleton.1 h⟩
    · exact absurd h List.not_mem_nil

/-- For every batch of the contracts, the alerts on transfers, cancellations, pauses and votes are those
    that are called for exactly if there is no large transfer, no cancellation and no pause in it, and
    fewer votes than the threshold, or no votes are needed to reach it. -/
theorem monitor_iff (c : Thresholds) (k : Contracts) (es : List ChainEvent) :
    Understood c k es ↔
      (∀ e ∈ es, ¬isLargeTransfer c e ∧ ¬isCancellation e ∧ ¬isPause e) ∧
        (es.countP isVote < c.rapidVoteBurst ∨ c.rapidVoteBurst ≤ 0) := by
  have hnone {p : Alert → Bool} (hmint : ∀ contractId to_ amount, ¬p (.tokenMinted contractId to_ amount))
      (hburst : ∀ count threshold, ¬p (.rapidVoteBurst count threshold)) {q : ChainEvent → Bool} :
      (detectAnomalies c (k.batch es)).countP p = es.countP q ↔ ∀ e ∈ es, ¬q e := by
    have hzero : (detectAnomalies c (k.batch es)).countP p = 0 := by
      rw [List.countP_eq_zero]
      intro a ha
      rcases mem_detectAnomalies ha with ⟨_, _, _, rfl⟩ | ⟨_, rfl⟩
      · exact hmint _ _ _
      · exact hburst _ _
    rw [hzero, eq_comm, List.countP_eq_zero]
  have hburst : (∃ a ∈ detectAnomalies c (k.batch es), a.isVoteBurst) ↔ c.rapidVoteBurst ≤ 0 := by
    constructor
    · rintro ⟨a, ha, hvote⟩
      rcases mem_detectAnomalies ha with ⟨_, _, _, rfl⟩ | ⟨hle, _⟩
      · cases hvote
      · exact hle
    · intro hle
      refine ⟨.rapidVoteBurst 0 c.rapidVoteBurst, ?_, rfl⟩
      have hreached : c.rapidVoteBurst ≤ (0 : ℕ) := hle
      rw [detectAnomalies_batch, voteBurst, if_pos hreached]
      exact List.mem_append_right _ (List.mem_singleton_self _)
  have hlarge : _ ↔ ∀ e ∈ es, ¬isLargeTransfer c e := hnone (p := Alert.isLargeTransfer) nofun nofun
  have hcancel : _ ↔ ∀ e ∈ es, ¬isCancellation e := hnone (p := Alert.isCancellation) nofun nofun
  have hpause : _ ↔ ∀ e ∈ es, ¬isPause e := hnone (p := Alert.isPause) nofun nofun
  simp only [forall_and]
  constructor
  · rintro ⟨h₁, h₂, h₃, h₄⟩
    refine ⟨⟨hlarge.1 h₁, hcancel.1 h₂, hpause.1 h₃⟩, ?_⟩
    by_cases hle : c.rapidVoteBurst ≤ 0
    · exact .inr hle
    · exact .inl (not_le.1 fun hreached => hle (hburst.1 (h₄.2 hreached)))
  · rintro ⟨⟨h₁, h₂, h₃⟩, h₄⟩
    refine ⟨hlarge.2 h₁, hcancel.2 h₂, hpause.2 h₃, hburst.trans ⟨?_, fun hreached => ?_⟩⟩
    · exact fun hle => hle.trans (Int.natCast_nonneg _)
    · exact h₄.elim (fun hlt => absurd hreached (not_le.2 hlt)) id

/-- The default thresholds. -/
def defaults : Thresholds := ⟨1000000000000, 50, 2⟩

/-- A large transfer, and the cancellation of a proposal: neither raises an alert. -/
theorem monitor_silent :
    let transfer : ChainEvent := .token (.transfer (.account 1) (.account 2) (.lit 5000000000000))
    let cancel : ChainEvent := .governance (.proposalCancelled (.lit 0) (.account 9) (.lit 3))
    let k : Contracts := ⟨"CTOKEN", "CGOV"⟩
    detectAnomalies defaults (k.batch [transfer, cancel]) = [] ∧ ¬Understood defaults k [transfer, cancel] := by
  refine ⟨by decide, fun h => ?_⟩
  exact absurd h.largeTransfer (by decide)

end CosmosVote.Monitor
