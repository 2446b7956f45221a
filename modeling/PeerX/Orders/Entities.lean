import PeerX.Foundations.JsNumber
import PeerX.Foundations.Table

/-!
# Orders: entities and requests

The rows of `orders`, `user_balances`, `trades` and `virtual_assets` that the order services read
and write, the request bodies, and the exceptions. Amounts and prices are exact rationals; a time
is a number of milliseconds. A generated identifier (a UUID) is a natural number.
-/

namespace Orders

open Arithmetic Relational

inductive OrderSide : Type
  | buy
  | sell
deriving DecidableEq

inductive OrderType : Type
  | market
  | limit
  | stopLoss
  | takeProfit
  | trailingStop
deriving DecidableEq

/-- `OrderStatus`; `PARTIAL` is `partiallyFilled`, as the order broadcast spells it. -/
inductive OrderStatus : Type
  | pending
  | partiallyFilled
  | filled
  | cancelled
  | triggered
  | rejected
deriving DecidableEq

/-- The stored text of a status. -/
def OrderStatus.text : OrderStatus → String
  | .pending => "PENDING"
  | .partiallyFilled => "PARTIAL"
  | .filled => "FILLED"
  | .cancelled => "CANCELLED"
  | .triggered => "TRIGGERED"
  | .rejected => "REJECTED"

/-- The side a taker is matched against. -/
def OrderSide.opposite : OrderSide → OrderSide
  | .buy => .sell
  | .sell => .buy

theorem OrderSide.buy_or_sell (s : OrderSide) : s = .buy ∨ s = .sell := by
  cases s <;> simp

/-- A row of `orders`. -/
structure Order where
  id : ℕ
  userId : ℕ
  assetId : ℕ
  side : OrderSide
  type : OrderType
  status : OrderStatus
  amount : ℚ
  filledAmount : ℚ
  averageFillPrice : Option JsNumber
  price : Option ℚ
  stopPrice : Option ℚ
  trailingDelta : Option ℚ
  trailingReferencePrice : Option ℚ
  triggeredAt : Option ℤ
  filledAt : Option ℤ
  cancelledAt : Option ℤ
  expiresAt : Option ℤ
  createdAt : ℤ
deriving DecidableEq

namespace Order

def remainingAmount (o : Order) : ℚ := o.amount - o.filledAmount

/-- Status `PENDING` or `PARTIAL`. -/
def Open (o : Order) : Prop := o.status = .pending ∨ o.status = .partiallyFilled

instance (o : Order) : Decidable o.Open := inferInstanceAs (Decidable (_ ∨ _))

/-- One of the types that stay dormant until the stop monitor triggers them. -/
def IsStop (o : Order) : Prop :=
  o.type = .stopLoss ∨ o.type = .takeProfit ∨ o.type = .trailingStop

instance (o : Order) : Decidable o.IsStop := inferInstanceAs (Decidable (_ ∨ _ ∨ _))

end Order

/-- A row of `user_balances`. -/
structure UserBalance where
  userId : ℕ
  assetId : ℕ
  balance : ℚ
  lockedBalance : ℚ
  totalTrades : ℕ := 0
  cumulativePnL : ℚ := 0
  totalTradeVolume : ℚ := 0
deriving DecidableEq

namespace UserBalance

/-- The unique key `(userId, assetId)`. -/
def key (b : UserBalance) : ℕ × ℕ := (b.userId, b.assetId)

def availableBalance (b : UserBalance) : ℚ := b.balance - b.lockedBalance

end UserBalance

/-- A row of `trades`. -/
structure Trade where
  userId : ℕ
  asset : String
  type : OrderSide
  amount : ℚ
  price : ℚ
  totalValue : ℚ
  status : String
deriving DecidableEq

/-- A row of `virtual_assets`. -/
structure VirtualAsset where
  id : ℕ
  price : ℚ
deriving DecidableEq

/-- One entry of the list `matchTakerOrder` returns: both orders as the fill left them. -/
structure FillResult where
  takerOrder : Order
  makerOrder : Order
  fillAmount : ℚ
  fillPrice : ℚ
deriving DecidableEq

structure CreateOrderDto where
  assetId : ℕ
  side : OrderSide
  type : OrderType
  amount : ℚ
  price : Option ℚ
  stopPrice : Option ℚ
  trailingDelta : Option ℚ
  expiresInSeconds : Option ℚ
deriving DecidableEq

/-- What the request validation admits: the decorators of `CreateOrderDto`. -/
structure CreateOrderDto.Valid (dto : CreateOrderDto) : Prop where
  amount_pos : 0 < dto.amount
  price_pos : dto.type = .limit → ∃ p, dto.price = some p ∧ 0 < p
  stopPrice_pos : dto.type = .stopLoss ∨ dto.type = .takeProfit →
    ∃ p, dto.stopPrice = some p ∧ 0 < p
  trailingDelta_min : dto.type = .trailingStop → ∃ d, dto.trailingDelta = some d ∧ 1 / 100 ≤ d

/-- `ModifyOrderDto`. The `PATCH` handler takes it as an untyped body, so its values reach the
service without validation. -/
structure ModifyOrderDto where
  orderId : ℕ
  price : Option ℚ
  amount : Option ℚ
  stopPrice : Option ℚ
  trailingDelta : Option ℚ
deriving DecidableEq

/-- The exceptions of the order services, with their messages. -/
inductive OrderError : Type
  | notFound (message : String)
  | forbidden (message : String)
  | badRequest (message : String)
  /-- The primary key of an inserted order is already in use. -/
  | duplicateKey
  /-- The matching loop did not end within the given number of iterations. -/
  | unfinished
deriving DecidableEq

end Orders
