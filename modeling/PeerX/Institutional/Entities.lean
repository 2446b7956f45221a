import PeerX.Orders.Entities

/-!
# Institutional clients: entities and requests

The profiles of institutional clients, the items of a bulk trade request, and what the bulk trade
service answers. The orders and balances are those of the order services.
-/

namespace Institutional

open Orders

/-- A row of `institutional_clients`. -/
structure InstitutionalClient where
  id : ℕ
  userId : ℕ
  maxTradesPerSecond : ℤ := 1000
  isActive : Bool := true
deriving DecidableEq

/-- The types of a bulk item. -/
inductive BulkTradeType : Type
  | market
  | limit
  | stopLoss
  | takeProfit
deriving DecidableEq

/-- `dto.type as OrderType`. -/
def BulkTradeType.toOrderType : BulkTradeType → Orders.OrderType
  | .market => .market
  | .limit => .limit
  | .stopLoss => .stopLoss
  | .takeProfit => .takeProfit

structure BulkTradeItemDto where
  assetId : ℕ
  side : OrderSide
  type : BulkTradeType
  amount : ℚ
  price : Option ℚ := none
  stopPrice : Option ℚ := none
  clientOrderId : Option ℤ := none
deriving DecidableEq

/-- The same instruction as a request to `OrdersService.placeOrder`. -/
def BulkTradeItemDto.toCreateOrderDto (dto : BulkTradeItemDto) : CreateOrderDto where
  assetId := dto.assetId
  side := dto.side
  type := dto.type.toOrderType
  amount := dto.amount
  price := dto.price
  stopPrice := dto.stopPrice
  trailingDelta := none
  expiresInSeconds := none

structure BulkTradeResult where
  index : ℕ
  success : Bool
  orderId : Option ℕ := none
  status : Option OrderStatus := none
  error : Option String := none
  clientOrderId : Option ℤ
deriving DecidableEq

structure BulkTradeResponse where
  batchId : String
  totalRequested : ℕ
  successCount : ℕ
  failureCount : ℕ
  results : List BulkTradeResult
deriving DecidableEq

/-- The exceptions of the bulk trade service. -/
inductive BulkError : Type
  | notFound (message : String)
  | badRequest (message : String)
  /-- A plain `Error`. -/
  | plain (message : String)
  /-- The primary key of an inserted order is already in use. -/
  | duplicateKey
deriving DecidableEq

/-- `(err as Error).message`. -/
def BulkError.message : BulkError → String
  | .notFound message => message
  | .badRequest message => message
  | .plain message => message
  | .duplicateKey => "duplicate key value violates unique constraint"

/-- What the service does not choose in a call: the name of the batch, the identifiers of the
orders, and the times at which the transactions begin. -/
structure Generated where
  batchId : String
  id : ℕ → ℕ
  time : ℕ → ℤ

theorem toOrderType_eq_market {t : BulkTradeType} : t.toOrderType = .market ↔ t = .market := by
  cases t <;> simp [BulkTradeType.toOrderType]

theorem toOrderType_eq_limit {t : BulkTradeType} : t.toOrderType = .limit ↔ t = .limit := by
  cases t <;> simp [BulkTradeType.toOrderType]

theorem toOrderType_eq_stopLoss {t : BulkTradeType} : t.toOrderType = .stopLoss ↔ t = .stopLoss := by
  cases t <;> simp [BulkTradeType.toOrderType]

theorem toOrderType_eq_takeProfit {t : BulkTradeType} : t.toOrderType = .takeProfit ↔ t = .takeProfit := by
  cases t <;> simp [BulkTradeType.toOrderType]

theorem toOrderType_ne_trailingStop (t : BulkTradeType) : t.toOrderType ≠ .trailingStop := by
  cases t <;> simp [BulkTradeType.toOrderType]

end Institutional
