import PeerX.Foundations.ReadCommitted
import PeerX.Orders.Entities
import Mathlib.Data.List.Sort

/-!
# Orders: the database

The tables of the order services and the statements they issue: lookups with and without
`pessimistic_write`, saves and inserts, the maker query of the matching loop and the two queries of
the stop sweep. A save writes the whole entity; a `pessimistic_write` read locks the rows it
returns.
-/

namespace Orders

open Relational Concurrency

/-- The tables. `fills` collects what the calls of `matchTakerOrder` returned. -/
structure OrdersDb where
  orders : Table Order.id
  balances : Table UserBalance.key
  trades : List Trade
  assets : List VirtualAsset
  fills : List FillResult

/-- The price clause of the maker query: a LIMIT taker with a price bounds the maker's price, and a
comparison with a missing price is not satisfied. The other takers have no bound. -/
def acceptsPrice (taker maker : Order) : Bool :=
  match taker.type, taker.price with
  | .limit, some limit =>
    match taker.side, maker.price with
    | .buy, some p => p ≤ limit
    | .sell, some p => limit ≤ p
    | _, none => false
  | _, _ => true

/-- The `WHERE` clause of the maker query: a resting LIMIT order of the same asset on the other
side, at a price the taker accepts. -/
def Crossable (taker maker : Order) : Prop :=
  maker.assetId = taker.assetId ∧ maker.side = taker.side.opposite ∧ maker.type = .limit ∧
    maker.Open ∧ acceptsPrice taker maker

instance (taker maker : Order) : Decidable (Crossable taker maker) :=
  inferInstanceAs (Decidable (_ ∧ _ ∧ _ ∧ _ ∧ _))

/-- The order of prices; a missing price comes last. -/
def priceLT : Option ℚ → Option ℚ → Bool
  | some p, some q => p < q
  | some _, none => true
  | none, _ => false

/-- The price clause of the `ORDER BY` of the maker query: `price ASC` for a BUY taker and
`price DESC` for a SELL taker. -/
def betterPrice : OrderSide → Order → Order → Bool
  | .buy, a, b => priceLT a.price b.price
  | .sell, a, b => priceLT b.price a.price

/-- The `ORDER BY` clause of the maker query: the better price, then `createdAt ASC`. -/
def Precedes (takerSide : OrderSide) (a b : Order) : Prop :=
  betterPrice takerSide a b ∨ a.price = b.price ∧ a.createdAt ≤ b.createdAt

instance (takerSide : OrderSide) : DecidableRel (Precedes takerSide) := fun _ _ =>
  inferInstanceAs (Decidable (_ ∨ _ ∧ _))

/-- The rows the maker query selects. -/
def crossableMakers (orders : Table Order.id) (taker : Order) : List Order :=
  orders.rows.filter (Crossable taker ·)

/-- The first row of the maker query. Rows that tie on price and time come in table order. -/
def bestMaker (orders : Table Order.id) (taker : Order) : Option Order :=
  ((crossableMakers orders taker).insertionSort (Precedes taker.side)).head?

theorem mem_crossableMakers {orders : Table Order.id} {taker maker : Order} :
    maker ∈ crossableMakers orders taker ↔ maker ∈ orders.rows ∧ Crossable taker maker := by
  simp [crossableMakers]

theorem bestMaker_mem {orders : Table Order.id} {taker maker : Order}
    (h : bestMaker orders taker = some maker) : maker ∈ orders.rows ∧ Crossable taker maker := by
  rw [← mem_crossableMakers, ← List.mem_insertionSort (Precedes taker.side)]
  exact List.mem_of_mem_head? h

theorem bestMaker_eq_none {orders : Table Order.id} {taker : Order} :
    bestMaker orders taker = none ↔ ∀ maker ∈ orders.rows, ¬ Crossable taker maker := by
  have hsort : bestMaker orders taker = none ↔ crossableMakers orders taker = [] := by
    unfold bestMaker
    rw [List.head?_eq_none_iff, ← List.length_eq_zero_iff, List.length_insertionSort,
      List.length_eq_zero_iff]
  rw [hsort]
  simp [crossableMakers]

/-- The rows a statement can lock. -/
inductive RowKey : Type
  | order (id : ℕ)
  | balance (key : ℕ × ℕ)
deriving DecidableEq

/-- A row write. -/
inductive Write : Type
  | order (o : Order)
  | balance (b : UserBalance)
  | trade (t : Trade)
  | fill (f : FillResult)

/-- The statements of the order services. -/
inductive Stmt : Type
  /-- `findOne({ where: { id } })`. -/
  | findOrder (id : ℕ)
  /-- `findOne({ where: { id }, lock: pessimistic_write })`. -/
  | lockOrder (id : ℕ)
  /-- `findOne({ where: { userId, assetId }, lock: pessimistic_write })`. -/
  | lockBalance (userId assetId : ℕ)
  /-- `save(UserBalance, balance)`. -/
  | saveBalance (balance : UserBalance)
  /-- `save(Order, newOrder)` of an entity without a row: an insert. -/
  | insertOrder (order : Order)
  /-- `save(Order, order)` of an entity with a row. -/
  | saveOrder (order : Order)
  /-- The maker query, `setLock('pessimistic_write')`. -/
  | lockMaker (taker : Order)
  /-- `save(Trade, trade)`. -/
  | insertTrade (trade : Trade)
  /-- `fills.push(fill)`. -/
  | pushFill (fill : FillResult)
  /-- The sweep's query for dormant orders. -/
  | findDormant
  /-- The sweep's query for the current prices. -/
  | findAssets (ids : List ℕ)

/-- The replies. An insert replies whether the key was new. -/
abbrev Stmt.Reply : Stmt → Type
  | .findOrder _ => Option Order
  | .lockOrder _ => Option Order
  | .lockBalance _ _ => Option UserBalance
  | .saveBalance _ => Unit
  | .insertOrder _ => Bool
  | .saveOrder _ => Unit
  | .lockMaker _ => Option Order
  | .insertTrade _ => Unit
  | .pushFill _ => Unit
  | .findDormant => List Order
  | .findAssets _ => List VirtualAsset

/-- The effect of a row write. -/
def Write.apply : Write → OrdersDb → OrdersDb
  | .order o, d => { d with orders := d.orders.save o }
  | .balance b, d => { d with balances := d.balances.save b }
  | .trade t, d => { d with trades := d.trades ++ [t] }
  | .fill f, d => { d with fills := d.fills ++ [f] }

/-- The row of a write. -/
def Write.target : Write → Option RowKey
  | .order o => some (.order o.id)
  | .balance b => some (.balance b.key)
  | .trade _ => none
  | .fill _ => none

/-- The dormant orders: stop orders in status PENDING. -/
def dormantOrders (orders : Table Order.id) : List Order :=
  orders.rows.filter fun o => o.IsStop ∧ o.status = .pending

/-- The rows a statement locks. -/
def Stmt.locks : Stmt → OrdersDb → List RowKey
  | .lockOrder id, d => if (d.orders.find id).isSome then [.order id] else []
  | .lockBalance u a, d => if (d.balances.find (u, a)).isSome then [.balance (u, a)] else []
  | .saveBalance b, _ => [.balance b.key]
  | .insertOrder o, _ => [.order o.id]
  | .saveOrder o, _ => [.order o.id]
  | .lockMaker taker, d => (crossableMakers d.orders taker).map fun o => .order o.id
  | _, _ => []

/-- The reply of a statement. -/
def Stmt.reply : (c : Stmt) → OrdersDb → c.Reply
  | .findOrder id, d => d.orders.find id
  | .lockOrder id, d => d.orders.find id
  | .lockBalance u a, d => d.balances.find (u, a)
  | .saveBalance _, _ => ()
  | .insertOrder o, d => (d.orders.find o.id).isNone
  | .saveOrder _, _ => ()
  | .lockMaker taker, d => bestMaker d.orders taker
  | .insertTrade _, _ => ()
  | .pushFill _, _ => ()
  | .findDormant, d => dormantOrders d.orders
  | .findAssets ids, d => d.assets.filter fun a => a.id ∈ ids

/-- The writes of a statement. -/
def Stmt.writes : Stmt → OrdersDb → List Write
  | .saveBalance b, _ => [.balance b]
  | .insertOrder o, d => if (d.orders.find o.id).isNone then [.order o] else []
  | .saveOrder o, _ => [.order o]
  | .insertTrade t, _ => [.trade t]
  | .pushFill f, _ => [.fill f]
  | _, _ => []

theorem Stmt.locks_of_writes (c : Stmt) (d : OrdersDb) (w : Write) (k : RowKey)
    (hw : w ∈ c.writes d) (hk : w.target = some k) : k ∈ c.locks d := by
  cases c with
  | saveBalance b =>
    obtain rfl : w = .balance b := by simpa [Stmt.writes] using hw
    obtain rfl : .balance b.key = k := by simpa [Write.target] using hk
    simp [Stmt.locks]
  | insertOrder o =>
    obtain ⟨-, rfl⟩ : _ ∧ w = .order o := by simpa [Stmt.writes] using hw
    obtain rfl : .order o.id = k := by simpa [Write.target] using hk
    simp [Stmt.locks]
  | saveOrder o =>
    obtain rfl : w = .order o := by simpa [Stmt.writes] using hw
    obtain rfl : .order o.id = k := by simpa [Write.target] using hk
    simp [Stmt.locks]
  | insertTrade t =>
    obtain rfl : w = .trade t := by simpa [Stmt.writes] using hw
    simp [Write.target] at hk
  | pushFill f =>
    obtain rfl : w = .fill f := by simpa [Stmt.writes] using hw
    simp [Write.target] at hk
  | findOrder | lockOrder | lockBalance | lockMaker | findDormant | findAssets =>
    simp [Stmt.writes] at hw

/-- The SQL of the order services. -/
def sql : Dialect Stmt Stmt.Reply OrdersDb Write RowKey where
  apply := Write.apply
  locks := Stmt.locks
  reply := Stmt.reply
  writes := Stmt.writes
  target := Write.target
  locks_of_writes := Stmt.locks_of_writes

/-- Programs of statements: the body of a transaction. -/
abbrev Tx (α : Type) := Prog Stmt Stmt.Reply OrderError α

/-- A statement. -/
abbrev query (c : Stmt) : Tx c.Reply := Prog.perform c

section Handler

variable (d : OrdersDb)

@[simp] theorem handler_findOrder (id : ℕ) :
    sql.handler (.findOrder id) d = (d.orders.find id, d) := rfl

@[simp] theorem handler_lockOrder (id : ℕ) :
    sql.handler (.lockOrder id) d = (d.orders.find id, d) := rfl

@[simp] theorem handler_lockBalance (u a : ℕ) :
    sql.handler (.lockBalance u a) d = (d.balances.find (u, a), d) := rfl

@[simp] theorem handler_saveBalance (b : UserBalance) :
    sql.handler (.saveBalance b) d = ((), { d with balances := d.balances.save b }) := rfl

theorem handler_insertOrder (o : Order) :
    sql.handler (.insertOrder o) d = ((d.orders.find o.id).isNone,
      if (d.orders.find o.id).isNone then { d with orders := d.orders.save o } else d) := by
  show (_, sql.applyAll (Stmt.writes (.insertOrder o) d) d) = _
  simp only [Stmt.writes]
  split <;> rfl

@[simp] theorem handler_saveOrder (o : Order) :
    sql.handler (.saveOrder o) d = ((), { d with orders := d.orders.save o }) := rfl

@[simp] theorem handler_lockMaker (taker : Order) :
    sql.handler (.lockMaker taker) d = (bestMaker d.orders taker, d) := rfl

@[simp] theorem handler_insertTrade (t : Trade) :
    sql.handler (.insertTrade t) d = ((), { d with trades := d.trades ++ [t] }) := rfl

@[simp] theorem handler_pushFill (f : FillResult) :
    sql.handler (.pushFill f) d = ((), { d with fills := d.fills ++ [f] }) := rfl

@[simp] theorem handler_findDormant : sql.handler .findDormant d = (dormantOrders d.orders, d) := rfl

end Handler

end Orders
