import PeerX.Audit.Chain
import PeerX.Audit.Concurrency
import PeerX.Audit.CsvExport
import PeerX.Bridges.Breaker
import PeerX.Bridges.Executions
import PeerX.Bridges.Payments
import PeerX.Bridges.Quorum
import PeerX.Bridges.Refunds
import PeerX.Common.CacheInvalidation
import PeerX.Common.DeadLetters
import PeerX.Common.DependencyGraph
import PeerX.Common.RedisPool
import PeerX.Common.ReplayGuard
import PeerX.Common.Resilience
import PeerX.Common.Saga
import PeerX.Database.Invalidations
import PeerX.Database.Lifetimes
import PeerX.Database.MultiLevelCache
import PeerX.Did.Challenges
import PeerX.Foundations.Allocation
import PeerX.Foundations.Alone
import PeerX.Foundations.Batches
import PeerX.Foundations.Chronicle
import PeerX.Foundations.Commits
import PeerX.Foundations.Csv
import PeerX.Foundations.Distribution
import PeerX.Foundations.Fallible
import PeerX.Foundations.FateStreams
import PeerX.Foundations.FifoLots
import PeerX.Foundations.Grouping
import PeerX.Foundations.Guards
import PeerX.Foundations.HashChain
import PeerX.Foundations.Indexed
import PeerX.Foundations.Interleaving
import PeerX.Foundations.JsBigInt
import PeerX.Foundations.JsMap
import PeerX.Foundations.JsonText
import PeerX.Foundations.JsonTree
import PeerX.Foundations.Metering
import PeerX.Foundations.Observed
import PeerX.Foundations.Program
import PeerX.Foundations.ReadCommitted
import PeerX.Foundations.RecentGroups
import PeerX.Foundations.RowHistories
import PeerX.Foundations.RowInvariants
import PeerX.Foundations.Runs
import PeerX.Foundations.SortedRing
import PeerX.Foundations.StableQueue
import PeerX.Foundations.Table
import PeerX.Foundations.Transactions
import PeerX.Foundations.Uuid
import PeerX.Foundations.Watched
import PeerX.Foundations.Wildcards
import PeerX.Foundations.Worklist
import PeerX.Governance.Database
import PeerX.Governance.Effects
import PeerX.Governance.Lifecycle
import PeerX.Governance.Quorum
import PeerX.Governance.Services
import PeerX.Governance.Tallies
import PeerX.Governance.VotingPower
import PeerX.Identity.Alarms
import PeerX.Identity.Database
import PeerX.Identity.Digest
import PeerX.Identity.Effects
import PeerX.Identity.Events
import PeerX.Identity.Issued
import PeerX.Identity.Lockout
import PeerX.Identity.Outcomes
import PeerX.Identity.Revocations
import PeerX.Identity.Rotation
import PeerX.Identity.Service
import PeerX.Identity.SingleUse
import PeerX.Identity.TwoFactor
import PeerX.Institutional.BulkAtomicity
import PeerX.Institutional.BulkHistory
import PeerX.Institutional.BulkPlacement
import PeerX.Institutional.BulkTrade
import PeerX.Institutional.DailyReports
import PeerX.Institutional.SupportTickets
import PeerX.Kyc.KycService
import PeerX.Kyc.Reviews
import PeerX.Margin.Accruals
import PeerX.Margin.Admission
import PeerX.Margin.Calculator
import PeerX.Margin.Collateral
import PeerX.Margin.Database
import PeerX.Margin.Engine
import PeerX.Margin.LossSplit
import PeerX.Margin.Runs
import PeerX.Margin.Settlements
import PeerX.Messages.Attempts
import PeerX.Messages.Calls
import PeerX.Messages.Finality
import PeerX.Messages.Index
import PeerX.Messages.Leases
import PeerX.Messages.Loss
import PeerX.Messages.Ownership
import PeerX.Messages.Recovery
import PeerX.Messages.Redis
import PeerX.Messages.Sweeps
import PeerX.Messages.ZeroLoss
import PeerX.Orders.Accounting
import PeerX.Orders.Book
import PeerX.Orders.Changes
import PeerX.Orders.Database
import PeerX.Orders.Exchange
import PeerX.Orders.Executors
import PeerX.Orders.GreedyMatching
import PeerX.Orders.Invariants
import PeerX.Orders.Locking
import PeerX.Orders.OrderBook
import PeerX.Orders.Placement
import PeerX.Orders.Sessions
import PeerX.Orders.Sweep
import PeerX.Orders.TrailingStop
import PeerX.Pools.Amm
import PeerX.Pools.Changes
import PeerX.Pools.Concurrency
import PeerX.Pools.CostBasis
import PeerX.Pools.Database
import PeerX.Pools.LiquidityPool
import PeerX.Pools.PartialSaves
import PeerX.Pools.Reserves
import PeerX.Pools.Shares
import PeerX.Privacy.EncryptedOrders
import PeerX.Privacy.ZkProofs
import PeerX.Protection.AloneCoverage
import PeerX.Protection.Coverage
import PeerX.Protection.Database
import PeerX.Protection.FundHealth
import PeerX.Protection.InsuranceFund
import PeerX.Protection.Ledger
import PeerX.Protection.LiquidationProtection
import PeerX.Protection.LockOrder
import PeerX.Protection.Maximality
import PeerX.Protection.Sessions
import PeerX.Queue.DeadLetter
import PeerX.Queue.Deduplication
import PeerX.Queue.EmailDelivery
import PeerX.Queue.EmailProcessor
import PeerX.Queue.FaultTolerance
import PeerX.Queue.Fingerprint
import PeerX.Queue.MessageOrdering
import PeerX.Queue.PartitionQueues
import PeerX.Queue.Recoveries
import PeerX.Queue.Requeue
import PeerX.Queue.SwapDiscipline
import PeerX.Queue.SwapExecutions
import PeerX.Queue.SwapProcessor
import PeerX.Queue.WorkerManager
import PeerX.RateLimit.Check
import PeerX.RateLimit.Deterministic
import PeerX.RateLimit.TokenBucket
import PeerX.Roles.Guard
import PeerX.Roles.Hierarchy
import PeerX.Roles.Management
import PeerX.Sharding.Arrivals
import PeerX.Sharding.Completed
import PeerX.Sharding.Conservation
import PeerX.Sharding.Endless
import PeerX.Sharding.Entities
import PeerX.Sharding.HashRing
import PeerX.Sharding.Placement
import PeerX.Sharding.Rebalance
import PeerX.Sharding.Service
import PeerX.Sharding.Settling
import PeerX.Sharding.Transactions
import PeerX.SocialTrading.Cascade
import PeerX.SocialTrading.CopySizes
import PeerX.SocialTrading.Effects
import PeerX.SocialTrading.Entities
import PeerX.SocialTrading.Feed
import PeerX.SocialTrading.Listener
import PeerX.SocialTrading.RiskControl
import PeerX.SocialTrading.RoundTrips
import PeerX.SocialTrading.Services
import PeerX.SocialTrading.Subscriptions
import PeerX.Users.Balances
import PeerX.Users.Totals
import PeerX.Websocket.ConnectionPool
import PeerX.Websocket.MessageQueue
import PeerX.Websocket.Routing
import PeerX.Websocket.Service
