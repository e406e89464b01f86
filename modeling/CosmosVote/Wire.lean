import CosmosVote.Governance.Basic
import CosmosVote.Token.Basic

/-!
# Events on the wire

What the two contracts publish: for each event its topics, the name of the contract and one of at
most nine characters, and its value, which is a tuple or a single item. Those who read the events
only see these.

Some events are published by a function that neither `events.rs` has: these have no form on the wire.
-/

namespace CosmosVote

open Soroban

/-- An item of the value of an event. -/
inductive Item
  | int (n : ℤ)
  | symbol (s : String)
  | text (t : Text)
  | address (a : Address)
  deriving DecidableEq

/-- The value of an event, as a reader gets it. The contracts publish no objects. -/
inductive Value
  | single (v : Item)
  | tuple (items : List Item)
  | object (fields : List (String × Item))
  deriving DecidableEq

/-- `value?.name`: only an object has named fields. -/
def Value.field (v : Value) (name : String) : Option Item :=
  match v with
  | .single _ => none
  | .tuple _ => none
  | .object fields => fields.lookup name

/-- An event on the wire. -/
structure Published where
  topics : List String
  value : Value
  deriving DecidableEq

/-- `TokenEvents` -/
def Token.Event.published : Token.Event → Option Published
  | .initialized admin supply => some ⟨["token", "init"], .tuple [.address admin, .int supply.val]⟩
  | .transfer from_ to_ amount =>
    some ⟨["token", "xfer"], .tuple [.address from_, .address to_, .int amount.val]⟩
  | .approval owner spender amount =>
    some ⟨["token", "approve"], .tuple [.address owner, .address spender, .int amount.val]⟩
  | .minted admin to_ amount =>
    some ⟨["token", "mint"], .tuple [.address admin, .address to_, .int amount.val]⟩
  | .burned admin from_ amount =>
    some ⟨["token", "burn"], .tuple [.address admin, .address from_, .int amount.val]⟩
  | .adminTransferProposed current pending =>
    some ⟨["token", "propose"], .tuple [.address current, .address pending]⟩
  | .adminTransferAccepted previous new =>
    some ⟨["token", "accept"], .tuple [.address previous, .address new]⟩
  | .delegated owner delegate => some ⟨["token", "delegate"], .tuple [.address owner, .address delegate]⟩
  | .undelegated owner => some ⟨["token", "undelegt"], .single (.address owner)⟩
  | .paused admin => some ⟨["token", "paused"], .single (.address admin)⟩
  | .unpaused admin => some ⟨["token", "unpause"], .single (.address admin)⟩
  | .upgraded _ => none

namespace Governance

/-- The name of a vote. -/
def Vote.item : Vote → Item
  | .yes => .symbol "Yes"
  | .no => .symbol "No"
  | .abstain => .symbol "Abstain"

/-- The name of a state. -/
def ProposalState.item : ProposalState → Item
  | .active => .symbol "Active"
  | .passed => .symbol "Passed"
  | .rejected => .symbol "Rejected"
  | .executed => .symbol "Executed"
  | .cancelled => .symbol "Cancelled"

/-- `GovernanceEvents` -/
def Event.published : Event → Option Published
  | .initialized admin token => some ⟨["gov", "init"], .tuple [.address admin, .address token]⟩
  | .proposalCreated id proposer title quorum endTime =>
    some ⟨["gov", "created"],
      .tuple [.int id.val, .address proposer, .text title, .int quorum.val, .int endTime.val]⟩
  | .proposalAmended id proposer oldTitle newTitle oldDescription newDescription =>
    some ⟨["gov", "amended"],
      .tuple [.int id.val, .address proposer, .text oldTitle, .text newTitle, .text oldDescription,
        .text newDescription]⟩
  | .voteCast id voter vote weight =>
    some ⟨["gov", "voted"], .tuple [.int id.val, .address voter, vote.item, .int weight.val]⟩
  | .voteRetracted id voter weight =>
    some ⟨["gov", "retract"], .tuple [.int id.val, .address voter, .int weight.val]⟩
  | .voteChanged id voter oldVote newVote weight =>
    some ⟨["gov", "chgvote"],
      .tuple [.int id.val, .address voter, oldVote.item, newVote.item, .int weight.val]⟩
  | .proposalFinalized id state => some ⟨["gov", "final"], .tuple [.int id.val, state.item]⟩
  | .proposalExecuted id admin => some ⟨["gov", "exec"], .tuple [.int id.val, .address admin]⟩
  | .proposalCancelled id admin voterCount =>
    some ⟨["gov", "cancel"], .tuple [.int id.val, .address admin, .int voterCount.val]⟩
  | .upgraded newWasmHash => some ⟨["gov", "upgraded"], .tuple [.int newWasmHash]⟩
  | .quorumUpdated id oldQuorum newQuorum =>
    some ⟨["gov", "quorum"], .tuple [.int id.val, .int oldQuorum.val, .int newQuorum.val]⟩
  | .adminTransferProposed current pending =>
    some ⟨["gov", "propose"], .tuple [.address current, .address pending]⟩
  | .votingTokenUpdated oldToken newToken =>
    some ⟨["gov", "token"], .tuple [.address oldToken, .address newToken]⟩
  | .adminTransferAccepted previous new =>
    some ⟨["gov", "accept"], .tuple [.address previous, .address new]⟩
  | .adminTransferCancelled admin cancelled =>
    some ⟨["gov", "adm_cncl"], .tuple [.address admin, .address cancelled]⟩
  | .paused admin => some ⟨["gov", "paused"], .single (.address admin)⟩
  | .unpaused admin => some ⟨["gov", "unpause"], .single (.address admin)⟩
  | .minBalanceUpdated _ _ _ => none
  | .cooldownUpdated _ _ _ => none
  | .restrictAdminVoteUpdated _ _ _ => none

end Governance

/-- An event of either contract. -/
inductive ChainEvent
  | token (e : Token.Event)
  | governance (e : Governance.Event)
  deriving DecidableEq

/-- What is published of an event. -/
def ChainEvent.published : ChainEvent → Option Published
  | .token e => e.published
  | .governance e => e.published

/-- The topics of the events that are published. -/
def publishedTopics : List (List String) :=
  (["init", "xfer", "approve", "mint", "burn", "propose", "accept", "delegate", "undelegt", "paused",
    "unpause"].map fun name => ["token", name]) ++
  ["init", "created", "amended", "voted", "retract", "chgvote", "final", "exec", "cancel", "upgraded",
    "quorum", "propose", "token", "accept", "adm_cncl", "paused", "unpause"].map fun name => ["gov", name]

/-- What is published has the topics that are listed, and is not an object. -/
theorem ChainEvent.published_spec {e : ChainEvent} {p : Published} (h : e.published = some p) :
    p.topics ∈ publishedTopics ∧ ∀ name, p.value.field name = none := by
  rcases e with e | e
  · cases e with
    | upgraded => cases h
    | _ =>
      obtain rfl := Option.some_inj.1 h
      exact ⟨by dsimp only; decide, fun _ => rfl⟩
  · cases e with
    | minBalanceUpdated => cases h
    | cooldownUpdated => cases h
    | restrictAdminVoteUpdated => cases h
    | _ =>
      obtain rfl := Option.some_inj.1 h
      exact ⟨by dsimp only; decide, fun _ => rfl⟩

end CosmosVote
