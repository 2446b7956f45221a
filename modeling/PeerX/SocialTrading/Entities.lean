import PeerX.Foundations.Table
import PeerX.Orders.Entities

/-!
# Social trading: entities and requests

The rows of `trader_profiles` and `copy_subscriptions`, the request bodies, and the exceptions.
Amounts and percentages are exact rationals. A profile is found by the user who owns it, which is a
unique index; a subscription by its identifier.
-/

namespace SocialTrading

open Relational

inductive StrategyVisibility : Type
  | «public»
  | «private»
  | anonymous
deriving DecidableEq

inductive SubscriptionStatus : Type
  | active
  | paused
  | pausedDailyLoss
  | unsubscribed
deriving DecidableEq

inductive CopyOrderTypeFilter : Type
  | market
  | limit
deriving DecidableEq

/-- The text of a filter value. -/
def CopyOrderTypeFilter.text : CopyOrderTypeFilter → String
  | .market => "MARKET"
  | .limit => "LIMIT"

def orderTypeText : Orders.OrderType → String
  | .market => "MARKET"
  | .limit => "LIMIT"
  | .stopLoss => "STOP_LOSS"
  | .takeProfit => "TAKE_PROFIT"
  | .trailingStop => "TRAILING_STOP"

/-- A row of `trader_profiles`. -/
structure TraderProfile where
  id : String
  userId : String
  displayName : String
  bio : Option String
  visibility : StrategyVisibility
  performanceFeePct : ℚ
  isAcceptingCopiers : Bool
  totalSubscribers : ℤ
  totalCopiedVolume : ℚ
  realizedFollowerPnL : ℚ
deriving DecidableEq

/-- A row of `copy_subscriptions`. -/
structure CopySubscription where
  id : String
  followerUserId : String
  masterUserId : String
  status : SubscriptionStatus
  copyMultiplier : ℚ
  maxDailyLoss : ℚ
  maxOrderSizePct : ℚ
  orderTypeFilter : String
  pendingFees : ℚ
  realizedPnL : ℚ
  intradayPnLBaseline : ℚ
deriving DecidableEq

/-- The pair of a follower and a master. -/
def CopySubscription.pair (sub : CopySubscription) : String × String := (sub.followerUserId, sub.masterUserId)

/-- `getOrderTypeFilterSet`, as a list. -/
def CopySubscription.getOrderTypeFilterSet (sub : CopySubscription) : List String :=
  if sub.orderTypeFilter = "" then []
  else ((sub.orderTypeFilter.splitOn ",").map fun s => s.trimAscii.toString).filter (· ≠ "")

structure CreateTraderProfileDto where
  displayName : String
  bio : Option String := none
  visibility : StrategyVisibility
  performanceFeePct : ℚ
deriving DecidableEq

/-- `UpdateTraderProfileDto`: the fields that are present. -/
structure UpdateTraderProfileDto where
  displayName : Option String := none
  bio : Option String := none
  visibility : Option StrategyVisibility := none
  performanceFeePct : Option ℚ := none
  isAcceptingCopiers : Option Bool := none
deriving DecidableEq

structure CreateCopySubscriptionDto where
  masterUserId : String
  copyMultiplier : Option ℚ := none
  maxDailyLoss : Option ℚ := none
  maxOrderSizePct : Option ℚ := none
  orderTypeFilter : Option (List CopyOrderTypeFilter) := none
deriving DecidableEq

/-- `UpdateCopySubscriptionDto`: the fields that are present. -/
structure UpdateCopySubscriptionDto where
  copyMultiplier : Option ℚ := none
  maxDailyLoss : Option ℚ := none
  maxOrderSizePct : Option ℚ := none
  orderTypeFilter : Option (List CopyOrderTypeFilter) := none
  isActive : Option Bool := none
deriving DecidableEq

/-- `TradeExecutedEvent`: what the listener and the risk control read of it. -/
structure TradeExecutedEvent where
  masterUserId : String
  amount : ℚ
  price : ℚ
  totalValue : ℚ
  orderType : Orders.OrderType
deriving DecidableEq

/-- What the services throw. -/
inductive SocialError : Type
  | badRequest (message : String)
  | notFound (message : String)
  | conflict (message : String)
  | duplicateKey
deriving DecidableEq

/-- The tables. -/
structure SocialDb where
  profiles : Table TraderProfile.userId
  subscriptions : Table CopySubscription.id

end SocialTrading
