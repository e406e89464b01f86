import CosmosVote.Soroban.Int
import CosmosVote.Soroban.Entries
import CosmosVote.Soroban.Call
import CosmosVote.Soroban.Env
import CosmosVote.Soroban.Nested
import CosmosVote.Soroban.Run
import CosmosVote.Soroban.Replay
import CosmosVote.Soroban.Handover
import CosmosVote.Soroban.Interleaving
import CosmosVote.Soroban.Observer
import CosmosVote.Soroban.Batch
import CosmosVote.Concurrent.Shared
import CosmosVote.Concurrent.Pages
import CosmosVote.Concurrent.Polls
import CosmosVote.Concurrent.Echo
import CosmosVote.Unicode.Length
import CosmosVote.Unicode.Redaction
import CosmosVote.Unicode.Numeral
import CosmosVote.JavaScript.Number
import CosmosVote.Selection
import CosmosVote.Election
import CosmosVote.Token.Basic
import CosmosVote.Token.Contract
import CosmosVote.Token.Effect
import CosmosVote.Token.Conservation
import CosmosVote.Token.Opening
import CosmosVote.Token.Authority
import CosmosVote.Token.Allowance
import CosmosVote.Token.Delegation
import CosmosVote.Token.Weight
import CosmosVote.Token.Pause
import CosmosVote.Token.Replica
import CosmosVote.Treasury
import CosmosVote.Governance.Basic
import CosmosVote.Governance.Contract
import CosmosVote.Governance.Effect
import CosmosVote.Governance.Lifecycle
import CosmosVote.Governance.Authority
import CosmosVote.Governance.Limit
import CosmosVote.Governance.Quorum
import CosmosVote.Governance.Cooldown
import CosmosVote.Governance.Disbursement
import CosmosVote.Governance.Tally
import CosmosVote.Governance.Voters
import CosmosVote.Governance.Order
import CosmosVote.Governance.Outcome
import CosmosVote.Governance.MultiChoice
import CosmosVote.Governance.History
import CosmosVote.Governance.Texts
import CosmosVote.Governance.Recast
import CosmosVote.Governance.Queries
import CosmosVote.Governance.Pagination
import CosmosVote.Governance.Reading
import CosmosVote.Governance.Overflow
import CosmosVote.Governance.Pause
import CosmosVote.Governance.Replica
import CosmosVote.Governance.Election
import CosmosVote.Governance.Independence
import CosmosVote.Governance.Batch
import CosmosVote.Governance.Trail
import CosmosVote.Governance.Strategy
import CosmosVote.Governance.Electorate
import CosmosVote.Succession
import CosmosVote.System.World
import CosmosVote.System.Snapshot
import CosmosVote.System.Choice
import CosmosVote.System.Eligibility
import CosmosVote.System.Disbursement
import CosmosVote.System.Execution
import CosmosVote.Wire
import CosmosVote.Monitor
import CosmosVote.AdminMonitor
import CosmosVote.Inspector
import CosmosVote.SecureLog.Masking
import CosmosVote.SecureLog.Webhook
import CosmosVote.Notifications.Subscriptions
import CosmosVote.Notifications.Recovery
import CosmosVote.Notifications.Watcher
import CosmosVote.Notifications.Delivery
import CosmosVote.Notifications.Completeness
import CosmosVote.Notifications.Lifecycle
import CosmosVote.Notifications.Messages
import CosmosVote.Notifications.Resending
import CosmosVote.Notifications.Commands
import CosmosVote.Backend.NotificationService
import CosmosVote.Frontend.Stores
import CosmosVote.Frontend.Polling
import CosmosVote.Frontend.Proposals
import CosmosVote.Frontend.Votes
import CosmosVote.Frontend.Card
import CosmosVote.Frontend.Analytics
import CosmosVote.Frontend.Amounts
import CosmosVote.Frontend.Forms
import CosmosVote.Frontend.Theme
