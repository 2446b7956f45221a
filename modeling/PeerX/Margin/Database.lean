import PeerX.Foundations.ReadCommitted
import PeerX.Margin.Entities
import PeerX.Orders.Database

/-!
# Margin: the database

The tables of the margin services, beside those of the order services with which they share the
balance rows, and the statements they issue. A save writes the whole entity. The interest rows have
no unique index, so that inserting one never fails.
-/

namespace Margin

open Relational Concurrency

/-- The tables. `shortfalls` collects what the engine asked `coverShortfall` to cover. -/
structure MarginDb where
  exchange : Orders.OrdersDb
  pairs : Table MarginPairConfig.id
  positions : Table MarginPosition.id
  accruals : List MarginInterestAccrual
  shortfalls : List ShortfallRequest

/-- The rows a statement can lock. -/
inductive RowKey : Type
  | exchange (k : Orders.RowKey)
  | pair (id : ℕ)
  | position (id : ℕ)
deriving DecidableEq

/-- A row write. -/
inductive Write : Type
  | exchange (w : Orders.Write)
  | pair (c : MarginPairConfig)
  | position (p : MarginPosition)
  | accrual (a : MarginInterestAccrual)
  | shortfall (r : ShortfallRequest)

/-- The statements of the margin services. -/
inductive Stmt : Type
  /-- A statement of the order services. -/
  | exchange (c : Orders.Stmt)
  /-- `findOne({ where: { userId, assetId } })`, without a lock. -/
  | findBalance (userId assetId : ℕ)
  /-- `save(userBalance)` of an entity without a row: an insert. -/
  | insertBalance (balance : Orders.UserBalance)
  /-- `configRepo.findOne({ where: { id } })`. -/
  | findPair (id : ℕ)
  /-- `pairConfigRepo.findBy({ id: In(ids) })`. -/
  | findPairs (ids : List ℕ)
  /-- `configRepo.save(config)`. -/
  | savePair (config : MarginPairConfig)
  /-- `findOne({ where: { id } })` of a virtual asset. -/
  | findAsset (id : ℕ)
  /-- `findOne(MarginPosition, { where: { id }, lock: pessimistic_write })`. -/
  | lockPosition (id : ℕ)
  /-- `save(MarginPosition, position)` of an entity without a row: an insert. -/
  | insertPosition (position : MarginPosition)
  /-- `save(position)` of an entity with a row. -/
  | savePosition (position : MarginPosition)
  /-- The query for the positions in status OPEN or MARGIN_CALL. -/
  | findOpen
  /-- `accrualRepo.findOne({ where: { positionId, accrualDate } })`. -/
  | findAccrual (positionId accrualDate : ℕ)
  /-- `accrualRepo.save(record)`. -/
  | insertAccrual (record : MarginInterestAccrual)
  /-- `coverShortfall(userId, shortfall, positionId)`. -/
  | coverShortfall (request : ShortfallRequest)

/-- The replies. An insert replies whether the key was new; the saves reply whether they went
through. -/
abbrev Stmt.Reply : Stmt → Type
  | .exchange c => c.Reply
  | .findBalance _ _ => Option Orders.UserBalance
  | .insertBalance _ => Bool
  | .findPair _ => Option MarginPairConfig
  | .findPairs _ => List MarginPairConfig
  | .savePair _ => Bool
  | .findAsset _ => Option Orders.VirtualAsset
  | .lockPosition _ => Option MarginPosition
  | .insertPosition _ => Bool
  | .savePosition _ => Bool
  | .findOpen => List MarginPosition
  | .findAccrual _ _ => Option MarginInterestAccrual
  | .insertAccrual _ => Bool
  | .coverShortfall _ => Unit

/-- The effect of a row write. -/
def Write.apply : Write → MarginDb → MarginDb
  | .exchange w, d => { d with exchange := w.apply d.exchange }
  | .pair c, d => { d with pairs := d.pairs.save c }
  | .position p, d => { d with positions := d.positions.save p }
  | .accrual a, d => { d with accruals := d.accruals ++ [a] }
  | .shortfall r, d => { d with shortfalls := d.shortfalls ++ [r] }

/-- The row of a write. -/
def Write.target : Write → Option RowKey
  | .exchange w => w.target.map .exchange
  | .pair c => some (.pair c.id)
  | .position p => some (.position p.id)
  | .accrual _ => none
  | .shortfall _ => none

/-- The positions in status OPEN or MARGIN_CALL. -/
def openPositions (positions : Table MarginPosition.id) : List MarginPosition :=
  positions.rows.filter (·.Open)

/-- No other row has the assets of the configuration: `@Index(['baseAssetId', 'quoteAssetId'],
{ unique: true })`. -/
def pairFree (pairs : Table MarginPairConfig.id) (config : MarginPairConfig) : Bool :=
  pairs.rows.all fun c => c.id = config.id ∨
    (c.baseAssetId, c.quoteAssetId) ≠ (config.baseAssetId, config.quoteAssetId)

/-- The rows a statement locks. -/
def Stmt.locks : Stmt → MarginDb → List RowKey
  | .exchange c, d => (c.locks d.exchange).map .exchange
  | .insertBalance b, _ => [.exchange (.balance b.key)]
  | .savePair c, _ => [.pair c.id]
  | .lockPosition id, d => if (d.positions.find id).isSome then [.position id] else []
  | .insertPosition p, _ => [.position p.id]
  | .savePosition p, _ => [.position p.id]
  | _, _ => []

/-- The reply of a statement. -/
def Stmt.reply : (c : Stmt) → MarginDb → c.Reply
  | .exchange c, d => c.reply d.exchange
  | .findBalance u a, d => d.exchange.balances.find (u, a)
  | .insertBalance b, d => (d.exchange.balances.find b.key).isNone
  | .findPair id, d => d.pairs.find id
  | .findPairs ids, d => d.pairs.rows.filter fun c => c.id ∈ ids
  | .savePair c, d => pairFree d.pairs c
  | .findAsset id, d => d.exchange.assets.find? (·.id = id)
  | .lockPosition id, d => d.positions.find id
  | .insertPosition p, d => (d.positions.find p.id).isNone
  | .savePosition _, _ => true
  | .findOpen, d => openPositions d.positions
  | .findAccrual id date, d => d.accruals.find? fun a => a.positionId = id ∧ a.accrualDate = date
  | .insertAccrual _, _ => true
  | .coverShortfall _, _ => ()

/-- The writes of a statement. -/
def Stmt.writes : Stmt → MarginDb → List Write
  | .exchange c, d => (c.writes d.exchange).map .exchange
  | .insertBalance b, d =>
    if (d.exchange.balances.find b.key).isNone then [.exchange (.balance b)] else []
  | .savePair c, d => if pairFree d.pairs c then [.pair c] else []
  | .insertPosition p, d => if (d.positions.find p.id).isNone then [.position p] else []
  | .savePosition p, _ => [.position p]
  | .insertAccrual a, _ => [.accrual a]
  | .coverShortfall r, _ => [.shortfall r]
  | _, _ => []

theorem Stmt.locks_of_writes (c : Stmt) (d : MarginDb) (w : Write) (k : RowKey)
    (hw : w ∈ c.writes d) (hk : w.target = some k) : k ∈ c.locks d := by
  cases c with
  | exchange c =>
    obtain ⟨w', hw', rfl⟩ := List.mem_map.mp hw
    obtain ⟨k', hk', rfl⟩ := Option.map_eq_some_iff.mp hk
    exact List.mem_map_of_mem (c.locks_of_writes d.exchange w' k' hw' hk')
  | insertBalance b =>
    obtain ⟨-, rfl⟩ : _ ∧ w = .exchange (.balance b) := by simpa [Stmt.writes] using hw
    obtain rfl : .exchange (.balance b.key) = k := by
      simpa [Write.target, Orders.Write.target] using hk
    simp [Stmt.locks]
  | savePair c =>
    obtain ⟨-, rfl⟩ : _ ∧ w = .pair c := by simpa [Stmt.writes] using hw
    obtain rfl : .pair c.id = k := by simpa [Write.target] using hk
    simp [Stmt.locks]
  | insertPosition p =>
    obtain ⟨-, rfl⟩ : _ ∧ w = .position p := by simpa [Stmt.writes] using hw
    obtain rfl : .position p.id = k := by simpa [Write.target] using hk
    simp [Stmt.locks]
  | savePosition p =>
    obtain rfl : w = .position p := by simpa [Stmt.writes] using hw
    obtain rfl : .position p.id = k := by simpa [Write.target] using hk
    simp [Stmt.locks]
  | insertAccrual a =>
    obtain rfl : w = .accrual a := by simpa [Stmt.writes] using hw
    simp [Write.target] at hk
  | coverShortfall r =>
    obtain rfl : w = .shortfall r := by simpa [Stmt.writes] using hw
    simp [Write.target] at hk
  | findBalance | findPair | findPairs | findAsset | lockPosition | findOpen | findAccrual =>
    simp [Stmt.writes] at hw

/-- The SQL of the margin services. -/
def sql : Dialect Stmt Stmt.Reply MarginDb Write RowKey where
  apply := Write.apply
  locks := Stmt.locks
  reply := Stmt.reply
  writes := Stmt.writes
  target := Write.target
  locks_of_writes := Stmt.locks_of_writes

/-- Programs of statements. -/
abbrev Tx (α : Type) := Prog Stmt Stmt.Reply MarginError α

/-- A statement. -/
abbrev query (c : Stmt) : Tx c.Reply := Prog.perform c

/-- A transaction of the order services, on these tables. -/
def exchangeTx {α : Type} (p : Orders.Tx α) : Tx α := p.embed .exchange (fun _ r => r) .order

section Handler

variable (d : MarginDb)

@[simp] theorem handler_lockBalance (u a : ℕ) :
    sql.handler (.exchange (.lockBalance u a)) d = (d.exchange.balances.find (u, a), d) := rfl

@[simp] theorem handler_saveBalance (b : Orders.UserBalance) :
    sql.handler (.exchange (.saveBalance b)) d =
      ((), { d with exchange := { d.exchange with balances := d.exchange.balances.save b } }) := rfl

@[simp] theorem handler_findPair (id : ℕ) : sql.handler (.findPair id) d = (d.pairs.find id, d) := rfl

@[simp] theorem handler_findAsset (id : ℕ) :
    sql.handler (.findAsset id) d = (d.exchange.assets.find? (·.id = id), d) := rfl

@[simp] theorem handler_lockPosition (id : ℕ) :
    sql.handler (.lockPosition id) d = (d.positions.find id, d) := rfl

theorem handler_insertPosition (p : MarginPosition) :
    sql.handler (.insertPosition p) d = ((d.positions.find p.id).isNone,
      if (d.positions.find p.id).isNone then { d with positions := d.positions.save p } else d) := by
  show (_, sql.applyAll (Stmt.writes (.insertPosition p) d) d) = _
  simp only [Stmt.writes]
  split <;> rfl

@[simp] theorem handler_savePosition (p : MarginPosition) :
    sql.handler (.savePosition p) d = (true, { d with positions := d.positions.save p }) := rfl

@[simp] theorem handler_findOpen : sql.handler .findOpen d = (openPositions d.positions, d) := rfl

@[simp] theorem handler_findAccrual (id date : ℕ) :
    sql.handler (.findAccrual id date) d =
      (d.accruals.find? fun a => a.positionId = id ∧ a.accrualDate = date, d) := rfl

@[simp] theorem handler_insertAccrual (a : MarginInterestAccrual) :
    sql.handler (.insertAccrual a) d = (true, { d with accruals := d.accruals ++ [a] }) := rfl

end Handler

end Margin
