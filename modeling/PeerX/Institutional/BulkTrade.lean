import PeerX.Foundations.Batches
import PeerX.Orders.Exchange
import PeerX.Institutional.Entities

/-!
# Institutional clients: the bulk trade service

`executeBulkTrades` admits a batch by the profile of its client, and then creates the orders of the
items in turn: all in one transaction, which the first refused item rolls back, or each in a
transaction of its own. An item is checked, its amount is locked when it is a SELL, and its order is
stored as PENDING.
-/

namespace Institutional

open Relational Concurrency Orders

/-- Programs of statements that end with an exception of the bulk trade service. -/
abbrev BulkTx (α : Type) := Prog Stmt Stmt.Reply BulkError α

/-- A statement. -/
abbrev perform (c : Stmt) : BulkTx c.Reply := Prog.perform c

def validateBulkTradeItem (dto : BulkTradeItemDto) : BulkTx Unit := do
  if dto.type = .limit ∧ dto.price = none then
    throw (.plain "price is required for LIMIT orders")
  if (dto.type = .stopLoss ∨ dto.type = .takeProfit) ∧ dto.stopPrice = none then
    throw (.plain "stopPrice is required for STOP_LOSS / TAKE_PROFIT orders")
  if dto.amount ≤ 0 then
    throw (.plain "amount must be positive")

/-- The entity that `createOrderFromBulk` creates. -/
def bulkOrder (id : ℕ) (now : ℤ) (userId : ℕ) (dto : BulkTradeItemDto) : Order where
  id := id
  userId := userId
  assetId := dto.assetId
  side := dto.side
  type := dto.type.toOrderType
  status := .pending
  amount := dto.amount
  filledAmount := 0
  averageFillPrice := none
  price := if dto.type = .limit then dto.price else none
  stopPrice := if dto.type = .stopLoss ∨ dto.type = .takeProfit then dto.stopPrice else none
  trailingDelta := none
  trailingReferencePrice := none
  triggeredAt := none
  filledAt := none
  cancelledAt := none
  expiresAt := none
  createdAt := now

/-- `BulkTradeService.createOrderFromBulk`. The order is not matched. -/
def createOrderFromBulk (id : ℕ) (now : ℤ) (userId : ℕ) (dto : BulkTradeItemDto) : BulkTx Order := do
  validateBulkTradeItem dto
  if dto.side = .sell then
    match ← perform (.lockBalance userId dto.assetId) with
    | none => throw (.plain "Insufficient available balance")
    | some balance =>
      if balance.availableBalance < dto.amount then
        throw (.plain "Insufficient available balance")
      perform (.saveBalance (balance.lock dto.amount))
  let order := bulkOrder id now userId dto
  if ← perform (.insertOrder order) then
    return order
  else
    throw .duplicateKey

/-- The result of an item whose order was created. -/
def placedResult (index : ℕ) (trade : BulkTradeItemDto) (order : Order) : BulkTradeResult :=
  { index, success := true, orderId := some order.id, status := some order.status,
    clientOrderId := trade.clientOrderId }

/-- The result of an item that was not placed. -/
def failedResult (index : ℕ) (trade : BulkTradeItemDto) (error : String) : BulkTradeResult :=
  { index, success := false, error := some error, clientOrderId := trade.clientOrderId }

/-- The response with the given results. -/
def respond (batchId : String) (trades : List BulkTradeItemDto) (results : List BulkTradeResult) :
    BulkTradeResponse where
  batchId := batchId
  totalRequested := trades.length
  successCount := (results.filter fun r => r.success).length
  failureCount := (results.filter fun r => !r.success).length
  results := results

section Execution

variable (g : Generated) (userId : ℕ)

/-- An item of an atomic batch. The rows of a transaction carry the time at which it began. -/
def atomicItem (i : ℕ) (trade : BulkTradeItemDto) : BulkTx BulkTradeResult :=
  tryCatch (do
      let order ← createOrderFromBulk (g.id i) (g.time 0) userId trade
      return placedResult i trade order)
    fun err => throw (.badRequest ("Trade at index " ++ toString i ++ " failed: " ++ err.message))

def executeAtomic (trades : List BulkTradeItemDto) (d : OrdersDb) : BulkTradeResponse × OrdersDb :=
  match (Prog.inTurn (atomicItem g userId) 0 trades).atomically sql.handler d with
  | (.ok results, d) => (respond g.batchId trades results, d)
  | (.error err, d) =>
    ({ batchId := g.batchId, totalRequested := trades.length, successCount := 0, failureCount := trades.length,
       results := trades.zipIdx.map fun t => failedResult t.2 t.1 err.message }, d)

/-- The transaction of an item of a batch that is not atomic. -/
def ownItem (i : ℕ) (trade : BulkTradeItemDto) : BulkTx Order :=
  createOrderFromBulk (g.id i) (g.time i) userId trade

/-- What is pushed for an item of a batch that is not atomic. -/
def resultOf (index : ℕ) (trade : BulkTradeItemDto) : Except BulkError Order → BulkTradeResult
  | .ok order => placedResult index trade order
  | .error err => failedResult index trade err.message

def executeNonAtomic (trades : List BulkTradeItemDto) (d : OrdersDb) : BulkTradeResponse × OrdersDb :=
  let (outcomes, d) := Prog.eachAlone sql.handler (ownItem g userId) 0 trades d
  (respond g.batchId trades (List.zipWith (fun t outcome => resultOf t.2 t.1 outcome) trades.zipIdx outcomes), d)

end Execution

def findByUserId (clients : Table InstitutionalClient.userId) (userId : ℕ) :
    Except BulkError InstitutionalClient :=
  match clients.find userId with
  | none => .error (.notFound ("No institutional client profile found for user " ++ toString userId))
  | some client => .ok client

/-- The checks of `executeBulkTrades`. -/
def validateAccess (clients : Table InstitutionalClient.userId) (userId : ℕ) (trades : List BulkTradeItemDto) :
    Except BulkError Unit := do
  let client ← findByUserId clients userId
  if ¬ client.isActive then
    throw (.badRequest "Institutional client account is not active")
  if client.maxTradesPerSecond < trades.length then
    throw (.badRequest ("Batch size " ++ toString trades.length ++ " exceeds maximum " ++
      toString client.maxTradesPerSecond ++ " trades per request"))

def executeBulkTrades (clients : Table InstitutionalClient.userId) (g : Generated) (userId : ℕ)
    (trades : List BulkTradeItemDto) (atomic : Bool) (d : OrdersDb) :
    Except BulkError BulkTradeResponse × OrdersDb :=
  match validateAccess clients userId trades with
  | .error e => (.error e, d)
  | .ok () =>
    let executed := if atomic then executeAtomic g userId trades d else executeNonAtomic g userId trades d
    (.ok executed.1, executed.2)

/-- The available balance covers a SELL item. -/
def Covered (d : OrdersDb) (userId : ℕ) (dto : BulkTradeItemDto) : Prop :=
  dto.side = .sell → ∃ b ∈ d.balances.find (userId, dto.assetId), dto.amount ≤ b.availableBalance

instance (d : OrdersDb) (userId : ℕ) (dto : BulkTradeItemDto) : Decidable (Covered d userId dto) :=
  inferInstanceAs (Decidable (_ → _))

/-- `validateBulkTradeItem` accepts the item. -/
structure Accepted (dto : BulkTradeItemDto) : Prop where
  price : dto.type = .limit → dto.price ≠ none
  stopPrice : dto.type = .stopLoss ∨ dto.type = .takeProfit → dto.stopPrice ≠ none
  amount_pos : 0 < dto.amount

/-- The item goes through: it is accepted, its balance covers it, and the identifier of its
order is new. -/
structure GoesThrough (d : OrdersDb) (id userId : ℕ) (dto : BulkTradeItemDto) : Prop where
  accepted : Accepted dto
  covered : Covered d userId dto
  unused : d.orders.find id = none

instance (dto : BulkTradeItemDto) : Decidable (Accepted dto) :=
  decidable_of_iff ((dto.type = .limit → dto.price ≠ none) ∧
      (dto.type = .stopLoss ∨ dto.type = .takeProfit → dto.stopPrice ≠ none) ∧ 0 < dto.amount)
    ⟨fun ⟨hp, hs, ha⟩ => ⟨hp, hs, ha⟩, fun h => ⟨h.price, h.stopPrice, h.amount_pos⟩⟩

instance (d : OrdersDb) (id userId : ℕ) (dto : BulkTradeItemDto) : Decidable (GoesThrough d id userId dto) :=
  decidable_of_iff (Accepted dto ∧ Covered d userId dto ∧ (d.orders.find id).isNone)
    ⟨fun ⟨ha, hc, hu⟩ => ⟨ha, hc, Option.isNone_iff_eq_none.mp hu⟩,
      fun h => ⟨h.accepted, h.covered, Option.isNone_iff_eq_none.mpr h.unused⟩⟩

/-- The balances after the amount of a SELL item is locked. -/
def reserve (balances : Table UserBalance.key) (userId : ℕ) (dto : BulkTradeItemDto) :
    Table UserBalance.key :=
  match dto.side, balances.find (userId, dto.assetId) with
  | .sell, some b => balances.save (b.lock dto.amount)
  | _, _ => balances

/-- The tables after the item has gone through. -/
def placed (d : OrdersDb) (id : ℕ) (now : ℤ) (userId : ℕ) (dto : BulkTradeItemDto) : OrdersDb :=
  { d with
    orders := d.orders.save (bulkOrder id now userId dto)
    balances := reserve d.balances userId dto }

section Item

variable {d : OrdersDb} {id userId : ℕ} {now : ℤ} {dto : BulkTradeItemDto}

@[simp] theorem placed_orders :
    (placed d id now userId dto).orders = d.orders.save (bulkOrder id now userId dto) := rfl

@[simp] theorem placed_balances : (placed d id now userId dto).balances = reserve d.balances userId dto := rfl

@[simp] theorem placed_fills : (placed d id now userId dto).fills = d.fills := rfl

theorem validateBulkTradeItem_accepted (h : Accepted dto) : validateBulkTradeItem dto = pure () := by
  have hprice : ¬ (dto.type = .limit ∧ dto.price = none) := fun ⟨ht, hp⟩ => h.price ht hp
  have hstop : ¬ ((dto.type = .stopLoss ∨ dto.type = .takeProfit) ∧ dto.stopPrice = none) :=
    fun ⟨ht, hp⟩ => h.stopPrice ht hp
  have hamount : ¬ dto.amount ≤ 0 := not_le.mpr h.amount_pos
  simp only [validateBulkTradeItem, if_neg hprice, if_neg hstop, if_neg hamount]

theorem validateBulkTradeItem_refused (h : ¬ Accepted dto) : ∃ e, validateBulkTradeItem dto = throw e := by
  unfold validateBulkTradeItem
  by_cases hprice : dto.type = .limit ∧ dto.price = none
  · exact ⟨_, by simp only [if_pos hprice]; rfl⟩
  by_cases hstop : (dto.type = .stopLoss ∨ dto.type = .takeProfit) ∧ dto.stopPrice = none
  · exact ⟨_, by simp only [if_neg hprice, if_pos hstop]; rfl⟩
  by_cases hamount : dto.amount ≤ 0
  · exact ⟨_, by simp only [if_neg hprice, if_neg hstop, if_pos hamount]; rfl⟩
  · exact absurd ⟨fun ht hp => hprice ⟨ht, hp⟩, fun ht hp => hstop ⟨ht, hp⟩, not_le.mp hamount⟩ h

/-- An item that goes through locks its amount and stores its order. -/
theorem createOrderFromBulk_placed (h : GoesThrough d id userId dto) :
    (createOrderFromBulk id now userId dto).eval sql.handler d =
      (.ok (bulkOrder id now userId dto), placed d id now userId dto) := by
  have hnew : d.orders.find (bulkOrder id now userId dto).id = none := h.unused
  simp only [createOrderFromBulk, validateBulkTradeItem_accepted h.accepted, pure_bind]
  cases hside : dto.side with
  | buy =>
    simp only [reduceCtorEq, if_false, Prog.perform_bind, Prog.eval_call, handler_insertOrder, hnew]
    simp [placed, reserve, hside]
  | sell =>
    obtain ⟨b, hb, hle⟩ := h.covered hside
    have hb' : d.balances.find (userId, dto.assetId) = some b := hb
    simp only [if_true, Prog.perform_bind, Prog.eval_call, handler_lockBalance, hb', if_neg (not_lt.mpr hle),
      handler_saveBalance, handler_insertOrder, hnew]
    simp [placed, reserve, hside, hb']

/-- An item that does not go through is refused. -/
theorem createOrderFromBulk_refused (now : ℤ) (h : ¬ GoesThrough d id userId dto) :
    ∃ e, ((createOrderFromBulk id now userId dto).eval sql.handler d).1 = .error e := by
  by_cases haccepted : Accepted dto
  swap
  · obtain ⟨e, he⟩ := validateBulkTradeItem_refused haccepted
    exact ⟨e, by simp [createOrderFromBulk, he]⟩
  simp only [createOrderFromBulk, validateBulkTradeItem_accepted haccepted, pure_bind]
  cases hside : dto.side with
  | buy =>
    have hcovered : Covered d userId dto := fun hsell => by simp [hside] at hsell
    have hused : d.orders.find (bulkOrder id now userId dto).id ≠ none :=
      fun hnew => h ⟨haccepted, hcovered, hnew⟩
    simp [handler_insertOrder, hused]
  | sell =>
    cases hb : d.balances.find (userId, dto.assetId) with
    | none => simp [hb]
    | some b =>
      by_cases hlt : b.availableBalance < dto.amount
      · simp [hb, hlt]
      · have hused : d.orders.find (bulkOrder id now userId dto).id ≠ none :=
          fun hnew => h ⟨haccepted, fun _ => ⟨b, hb, not_lt.mp hlt⟩, hnew⟩
        simp [hb, hlt, handler_insertOrder, hused]

theorem atomically_createOrderFromBulk (d : OrdersDb) (id : ℕ) (now : ℤ) (userId : ℕ) (dto : BulkTradeItemDto) :
    (GoesThrough d id userId dto ∧ (createOrderFromBulk id now userId dto).atomically sql.handler d =
        (.ok (bulkOrder id now userId dto), placed d id now userId dto)) ∨
      ¬ GoesThrough d id userId dto ∧
        ∃ e, (createOrderFromBulk id now userId dto).atomically sql.handler d = (.error e, d) := by
  by_cases h : GoesThrough d id userId dto
  · exact .inl ⟨h, by simp [Prog.atomically, createOrderFromBulk_placed h]⟩
  · obtain ⟨e, he⟩ := createOrderFromBulk_refused now h
    rcases Prog.atomically_cases sql.handler (createOrderFromBulk id now userId dto) d with
      ⟨o, d', hok, -⟩ | ⟨e', -, hatom⟩
    · simp [hok] at he
    · exact .inr ⟨h, e', hatom⟩

end Item

/-- The identifiers from `first` on. -/
def numberedFrom (first : ℕ) : Generated := ⟨"BULK", fun i => first + i, fun i => i⟩

/-- User 1 as an institutional client. -/
def oneClient : Table InstitutionalClient.userId := Table.empty.save { id := 1, userId := 1 }

/-- A SELL order of asset 1 at 100. -/
def sellItem (amount : ℕ) (clientOrderId : Option ℤ) : BulkTradeItemDto :=
  { assetId := 1, side := .sell, type := .limit, amount := amount, price := some 100, clientOrderId }

end Institutional
