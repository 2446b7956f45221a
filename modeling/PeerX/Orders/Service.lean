import PeerX.Orders.OrderBook

/-!
# Orders: the order service and the stop monitor

`placeOrder`, `cancelOrder` and `modifyOrder`, each as the body of its transaction. The part before
the matching loop is a program of its own (`enterOrder`, `amendOrder`): it checks the request,
reserves the balance of a SELL order, and stores the order that is then matched. Only SELL orders
reserve; a BUY order reads the balance row and ignores it.

The stop monitor decides for one dormant order at the current price, and triggers it in a
transaction. A triggered order is matched like a MARKET order; it is stored as TRIGGERED first, and
handed to the matching loop as PENDING.
-/

namespace Orders

open Relational Concurrency

/-- `new Date(ms)`: a fraction of a millisecond is dropped. -/
def dateOf (ms : ℚ) : ℤ := ms.num.tdiv ms.den

def validateOrderShape (dto : CreateOrderDto) : Tx Unit := do
  if dto.type = .limit ∧ dto.price = none then
    throw (.badRequest "price is required for LIMIT orders")
  if (dto.type = .stopLoss ∨ dto.type = .takeProfit) ∧ dto.stopPrice = none then
    throw (.badRequest "stopPrice is required for STOP_LOSS / TAKE_PROFIT orders")
  if dto.type = .trailingStop ∧ dto.trailingDelta = none then
    throw (.badRequest "trailingDelta is required for TRAILING_STOP orders")

/-- The shape is accepted or refused without a statement. -/
theorem validateOrderShape_cases (dto : CreateOrderDto) :
    validateOrderShape dto = pure () ∨ ∃ e, validateOrderShape dto = throw e := by
  unfold validateOrderShape
  by_cases hlimit : dto.type = .limit ∧ dto.price = none
  · exact .inr ⟨_, by simp only [if_pos hlimit]; rfl⟩
  by_cases hstop : (dto.type = .stopLoss ∨ dto.type = .takeProfit) ∧ dto.stopPrice = none
  · exact .inr ⟨_, by simp only [if_neg hlimit, if_pos hstop]; rfl⟩
  by_cases htrailing : dto.type = .trailingStop ∧ dto.trailingDelta = none
  · exact .inr ⟨_, by simp only [if_neg hlimit, if_neg hstop, if_pos htrailing]; rfl⟩
  · exact .inl (by simp only [if_neg hlimit, if_neg hstop, if_neg htrailing])

/-- The entity `placeOrder` creates. Its identifier is the generated one. -/
def newOrder (id : ℕ) (now : ℤ) (userId : ℕ) (dto : CreateOrderDto) : Order where
  id := id
  userId := userId
  assetId := dto.assetId
  side := dto.side
  type := dto.type
  status := .pending
  amount := dto.amount
  filledAmount := 0
  averageFillPrice := none
  price := if dto.type = .limit then dto.price else none
  stopPrice := if dto.type = .stopLoss ∨ dto.type = .takeProfit then dto.stopPrice else none
  trailingDelta := if dto.type = .trailingStop then dto.trailingDelta else none
  trailingReferencePrice := none
  triggeredAt := none
  filledAt := none
  cancelledAt := none
  expiresAt := dto.expiresInSeconds.bind fun s =>
    if s = 0 then none else some (dateOf (now + s * 1000))
  createdAt := now

/-- `balance.lockedBalance += amount`. -/
def UserBalance.lock (balance : UserBalance) (amount : ℚ) : UserBalance :=
  { balance with lockedBalance := balance.lockedBalance + amount }

/-- `placeOrder` up to the insert: the balance check, the lock of a SELL order, and the row. -/
def enterOrder (id : ℕ) (now : ℤ) (userId : ℕ) (dto : CreateOrderDto) : Tx Order := do
  let balance ← query (.lockBalance userId dto.assetId)
  if dto.side = .sell then
    match balance with
    | none => throw (.badRequest "Insufficient available balance to place sell order")
    | some balance =>
      if balance.availableBalance < dto.amount then
        throw (.badRequest "Insufficient available balance to place sell order")
      query (.saveBalance (balance.lock dto.amount))
  let order := newOrder id now userId dto
  if ← query (.insertOrder order) then
    return order
  else
    throw .duplicateKey

/-- `OrdersService.placeOrder`. MARKET and LIMIT orders are matched at once. -/
def placeOrder (fuel id : ℕ) (now : ℤ) (userId : ℕ) (dto : CreateOrderDto) : Tx Order := do
  validateOrderShape dto
  let order ← enterOrder id now userId dto
  if dto.type = .market ∨ dto.type = .limit then
    let (order, _) ← matchTakerOrder fuel now order
    return order
  else
    return order

/-- The order in status CANCELLED. -/
def Order.asCancelled (existing : Order) (now : ℤ) : Order :=
  { existing with status := .cancelled, cancelledAt := some now }

/-- `OrdersService.cancelOrder`. The release is clamped at zero. -/
def cancelOrder (now : ℤ) (userId orderId : ℕ) : Tx Order := do
  match ← query (.lockOrder orderId) with
  | none => throw (.notFound "Order not found")
  | some existing =>
    if existing.userId ≠ userId then
      throw (.forbidden "Cannot cancel another user's order")
    if existing.status = .filled ∨ existing.status = .cancelled then
      throw (.badRequest ("Cannot cancel order in status " ++ existing.status.text))
    if existing.side = .sell then
      match ← query (.lockBalance userId existing.assetId) with
      | none => pure ()
      | some balance =>
        query (.saveBalance { balance with
          lockedBalance := max 0 (balance.lockedBalance - existing.remainingAmount) })
    let existing := existing.asCancelled now
    query (.saveOrder existing)
    return existing

/-- The `amount` branch of `modifyOrder`: a SELL order moves its lock by the change of its
remainder. -/
def amendAmount (userId : ℕ) (existing : Order) : Option ℚ → Tx Order
  | none => return existing
  | some amount => do
    if amount < existing.filledAmount then
      throw (.badRequest "New amount cannot be less than already-filled amount")
    if existing.side = .sell then
      match ← query (.lockBalance userId existing.assetId) with
      | none => throw (.badRequest "No balance found for asset")
      | some balance =>
        let oldRemaining := existing.remainingAmount
        let newRemaining := amount - existing.filledAmount
        let delta := newRemaining - oldRemaining
        if 0 < delta ∧ balance.availableBalance < delta then
          throw (.badRequest "Insufficient available balance to increase order amount")
        query (.saveBalance (balance.lock delta))
    return { existing with amount }

/-- The `price` branch of `modifyOrder`. -/
def amendPrice (existing : Order) : Option ℚ → Tx Order
  | none => return existing
  | some price => do
    if existing.type ≠ .limit then
      throw (.badRequest "Price can only be modified on LIMIT orders")
    return { existing with price := some price }

/-- The `stopPrice` branch of `modifyOrder`. -/
def amendStopPrice (existing : Order) : Option ℚ → Tx Order
  | none => return existing
  | some stopPrice => do
    if existing.type ≠ .stopLoss ∧ existing.type ≠ .takeProfit then
      throw (.badRequest "stopPrice can only be modified on STOP_LOSS / TAKE_PROFIT orders")
    return { existing with stopPrice := some stopPrice }

/-- The `trailingDelta` branch of `modifyOrder`. -/
def amendTrailingDelta (existing : Order) : Option ℚ → Tx Order
  | none => return existing
  | some trailingDelta => do
    if existing.type ≠ .trailingStop then
      throw (.badRequest "trailingDelta can only be modified on TRAILING_STOP orders")
    return { existing with trailingDelta := some trailingDelta }

/-- `modifyOrder` up to the save. The status is not recomputed. -/
def amendOrder (userId : ℕ) (dto : ModifyOrderDto) : Tx Order := do
  match ← query (.lockOrder dto.orderId) with
  | none => throw (.notFound "Order not found")
  | some existing =>
    if existing.userId ≠ userId then
      throw (.forbidden "Cannot modify another user's order")
    if existing.status ≠ .pending ∧ existing.status ≠ .partiallyFilled then
      throw (.badRequest ("Cannot modify order in status " ++ existing.status.text))
    let existing ← amendAmount userId existing dto.amount
    let existing ← amendPrice existing dto.price
    let existing ← amendStopPrice existing dto.stopPrice
    let existing ← amendTrailingDelta existing dto.trailingDelta
    query (.saveOrder existing)
    return existing

/-- `OrdersService.modifyOrder`. A LIMIT order is matched again. -/
def modifyOrder (fuel : ℕ) (now : ℤ) (userId : ℕ) (dto : ModifyOrderDto) : Tx Order := do
  let existing ← amendOrder userId dto
  if existing.type = .limit then
    let (existing, _) ← matchTakerOrder fuel now existing
    return existing
  else
    return existing

/-- What the sweep does with one dormant order: trigger it, save a moved reference price, or
nothing. -/
inductive StopAction : Type
  | trigger
  | ratchet (reference : ℚ)
  | idle
deriving DecidableEq

def isFixedStopTriggered (order : Order) (currentPrice stopPrice : ℚ) : Bool :=
  if order.type = .stopLoss then
    match order.side with
    | .sell => currentPrice ≤ stopPrice
    | .buy => stopPrice ≤ currentPrice
  else
    match order.side with
    | .sell => stopPrice ≤ currentPrice
    | .buy => currentPrice ≤ stopPrice

def processFixedStop (order : Order) (currentPrice : ℚ) : StopAction :=
  if isFixedStopTriggered order currentPrice (order.stopPrice.getD 0) then .trigger else .idle

/-- `StopOrderMonitorService.processTrailingStop`. A missing reference starts at the current price,
which is not a move. -/
def processTrailingStop (order : Order) (currentPrice : ℚ) : StopAction :=
  let delta := order.trailingDelta.getD 0
  let reference := order.trailingReferencePrice.getD currentPrice
  match order.side with
  | .sell =>
    let referenceMoved := reference < currentPrice
    let reference := if referenceMoved then currentPrice else reference
    let effectiveStop := reference * (1 - delta / 100)
    if currentPrice ≤ effectiveStop then .trigger
    else if referenceMoved then .ratchet reference
    else .idle
  | .buy =>
    let referenceMoved := currentPrice < reference
    let reference := if referenceMoved then currentPrice else reference
    let effectiveStop := reference * (1 + delta / 100)
    if effectiveStop ≤ currentPrice then .trigger
    else if referenceMoved then .ratchet reference
    else .idle

/-- The body of the sweep's loop for one order. -/
def stopAction (order : Order) (currentPrice : ℚ) : StopAction :=
  if order.type = .trailingStop then processTrailingStop order currentPrice
  else processFixedStop order currentPrice

/-- `trigger` up to the matching loop: the order, read again under its lock, becomes an active
taker unless it has left PENDING. -/
def armStopOrder (now : ℤ) (orderId : ℕ) : Tx (Option Order) := do
  match ← query (.lockOrder orderId) with
  | none => return none
  | some fresh =>
    if fresh.status ≠ .pending then
      return none
    else
      let fresh := { fresh with status := .triggered, triggeredAt := some now }
      query (.saveOrder fresh)
      return some { fresh with status := .pending }

/-- The transaction of `StopOrderMonitorService.trigger`. -/
def trigger (fuel : ℕ) (now : ℤ) (orderId : ℕ) : Tx (Option Order) := do
  match ← armStopOrder now orderId with
  | none => return none
  | some fresh =>
    let (fresh, _) ← matchTakerOrder fuel now fresh
    return some fresh

end Orders
