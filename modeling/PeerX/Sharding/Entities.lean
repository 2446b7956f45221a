import PeerX.Foundations.Indexed
import Mathlib.Data.Rat.Defs

/-!
# Sharding: the entities

The rows of `trades`, `user_balances` and `virtual_assets`, and the objects that are saved: an
object that is saved holds some of the columns. A shard is a data source with the three tables. A
save updates the row with the primary key of the object when there is one, and inserts a row
otherwise.
-/

namespace Sharding

open Relational

/-! ## Rows -/

/-- A row of `trades`. Times are in milliseconds. -/
structure Trade where
  id : String
  userId : ℤ
  asset : String
  type : String
  amount : ℚ
  price : ℚ
  totalValue : ℚ
  status : String
  timestamp : ℤ
  createdAt : ℤ
deriving DecidableEq

/-- A row of `user_balances`. -/
structure UserBalance where
  id : ℕ
  userId : ℤ
  assetId : ℕ
  balance : ℚ
  lockedBalance : ℚ
  totalTrades : ℕ
  cumulativePnL : ℚ
  totalTradeVolume : ℚ
  lastTradeDate : Option ℤ
  totalInvested : ℚ
  averageBuyPrice : ℚ
  createdAt : ℤ
  updatedAt : ℤ
deriving DecidableEq

/-- A row of `virtual_assets`. -/
structure VirtualAsset where
  id : ℕ
  symbol : String
  name : String
  price : ℚ
  createdAt : ℤ
  updatedAt : ℤ
deriving DecidableEq

/-- The entity classes. -/
inductive Entity : Type
  | trade
  | userBalance
  | virtualAsset
deriving DecidableEq

namespace Entity

/-- The rows of an entity class. -/
abbrev Row : Entity → Type
  | trade => Trade
  | userBalance => UserBalance
  | virtualAsset => VirtualAsset

/-- The primary keys: generated by the service, or by the table of the shard. -/
abbrev Key : Entity → Type
  | trade => String
  | userBalance => ℕ
  | virtualAsset => ℕ

/-- The entries of the unique indexes. -/
abbrev Entry : Entity → Type
  | trade => Unit
  | userBalance => ℤ × ℕ
  | virtualAsset => String

instance (entity : Entity) : DecidableEq entity.Row :=
  match entity with
  | trade => inferInstanceAs (DecidableEq Trade)
  | userBalance => inferInstanceAs (DecidableEq UserBalance)
  | virtualAsset => inferInstanceAs (DecidableEq VirtualAsset)

instance (entity : Entity) : DecidableEq entity.Key :=
  match entity with
  | trade => inferInstanceAs (DecidableEq String)
  | userBalance => inferInstanceAs (DecidableEq ℕ)
  | virtualAsset => inferInstanceAs (DecidableEq ℕ)

instance (entity : Entity) : DecidableEq entity.Entry :=
  match entity with
  | trade => inferInstanceAs (DecidableEq Unit)
  | userBalance => inferInstanceAs (DecidableEq (ℤ × ℕ))
  | virtualAsset => inferInstanceAs (DecidableEq String)

/-- The primary key of a row. -/
def key : (entity : Entity) → entity.Row → entity.Key
  | trade, row => row.id
  | userBalance, row => row.id
  | virtualAsset, row => row.id

/-- The entry of a row in the unique index of its table: `(userId, assetId)` of a balance, and the
symbol of an asset. -/
def index : (entity : Entity) → entity.Row → Option entity.Entry
  | trade, _ => none
  | userBalance, row => some (row.userId, row.assetId)
  | virtualAsset, row => some row.symbol

/-- The columns of the index, in the message of a violation. -/
def indexColumns : Entity → String
  | trade => "trades.id"
  | userBalance => "user_balances.userId, user_balances.assetId"
  | virtualAsset => "virtual_assets.symbol"

end Entity

/-! ## Objects -/

/-- An object that is saved as a trade: the columns that it holds. -/
structure TradeDraft where
  id : Option String := none
  userId : Option ℤ := none
  asset : Option String := none
  type : Option String := none
  amount : Option ℚ := none
  price : Option ℚ := none
  totalValue : Option ℚ := none
  status : Option String := none
  timestamp : Option ℤ := none
  createdAt : Option ℤ := none
deriving DecidableEq

/-- An object that is saved as a balance. -/
structure UserBalanceDraft where
  id : Option ℕ := none
  userId : Option ℤ := none
  assetId : Option ℕ := none
  balance : Option ℚ := none
  lockedBalance : Option ℚ := none
  totalTrades : Option ℕ := none
  cumulativePnL : Option ℚ := none
  totalTradeVolume : Option ℚ := none
  lastTradeDate : Option (Option ℤ) := none
  totalInvested : Option ℚ := none
  averageBuyPrice : Option ℚ := none
  createdAt : Option ℤ := none
  updatedAt : Option ℤ := none
deriving DecidableEq

/-- An object that is saved as an asset. -/
structure VirtualAssetDraft where
  id : Option ℕ := none
  symbol : Option String := none
  name : Option String := none
  price : Option ℚ := none
  createdAt : Option ℤ := none
  updatedAt : Option ℤ := none
deriving DecidableEq

namespace Entity

/-- The objects that are saved. -/
abbrev Draft : Entity → Type
  | trade => TradeDraft
  | userBalance => UserBalanceDraft
  | virtualAsset => VirtualAssetDraft

instance (entity : Entity) : DecidableEq entity.Draft :=
  match entity with
  | trade => inferInstanceAs (DecidableEq TradeDraft)
  | userBalance => inferInstanceAs (DecidableEq UserBalanceDraft)
  | virtualAsset => inferInstanceAs (DecidableEq VirtualAssetDraft)

/-- The primary key of an object. -/
def draftKey : (entity : Entity) → entity.Draft → Option entity.Key
  | trade, draft => draft.id
  | userBalance, draft => draft.id
  | virtualAsset, draft => draft.id

/-- The row as an object: all its columns. -/
def draft : (entity : Entity) → entity.Row → entity.Draft
  | trade, row =>
    { id := row.id, userId := row.userId, asset := row.asset, type := row.type, amount := row.amount,
      price := row.price, totalValue := row.totalValue, status := row.status, timestamp := row.timestamp,
      createdAt := row.createdAt }
  | userBalance, row =>
    { id := row.id, userId := row.userId, assetId := row.assetId, balance := row.balance,
      lockedBalance := row.lockedBalance, totalTrades := row.totalTrades, cumulativePnL := row.cumulativePnL,
      totalTradeVolume := row.totalTradeVolume, lastTradeDate := some row.lastTradeDate,
      totalInvested := row.totalInvested, averageBuyPrice := row.averageBuyPrice, createdAt := row.createdAt,
      updatedAt := row.updatedAt }
  | virtualAsset, row =>
    { id := row.id, symbol := row.symbol, name := row.name, price := row.price, createdAt := row.createdAt,
      updatedAt := row.updatedAt }

/-- An update: the columns that the object holds. -/
def update : (entity : Entity) → entity.Draft → entity.Row → entity.Row
  | trade, draft, row =>
    { id := row.id
      userId := draft.userId.getD row.userId
      asset := draft.asset.getD row.asset
      type := draft.type.getD row.type
      amount := draft.amount.getD row.amount
      price := draft.price.getD row.price
      totalValue := draft.totalValue.getD row.totalValue
      status := draft.status.getD row.status
      timestamp := draft.timestamp.getD row.timestamp
      createdAt := draft.createdAt.getD row.createdAt }
  | userBalance, draft, row =>
    { id := row.id
      userId := draft.userId.getD row.userId
      assetId := draft.assetId.getD row.assetId
      balance := draft.balance.getD row.balance
      lockedBalance := draft.lockedBalance.getD row.lockedBalance
      totalTrades := draft.totalTrades.getD row.totalTrades
      cumulativePnL := draft.cumulativePnL.getD row.cumulativePnL
      totalTradeVolume := draft.totalTradeVolume.getD row.totalTradeVolume
      lastTradeDate := draft.lastTradeDate.getD row.lastTradeDate
      totalInvested := draft.totalInvested.getD row.totalInvested
      averageBuyPrice := draft.averageBuyPrice.getD row.averageBuyPrice
      createdAt := draft.createdAt.getD row.createdAt
      updatedAt := draft.updatedAt.getD row.updatedAt }
  | virtualAsset, draft, row =>
    { id := row.id
      symbol := draft.symbol.getD row.symbol
      name := draft.name.getD row.name
      price := draft.price.getD row.price
      createdAt := draft.createdAt.getD row.createdAt
      updatedAt := draft.updatedAt.getD row.updatedAt }

/-- An insert at a time: the columns that the object holds, and the defaults; `none` when a
column is missing that has no default. -/
def create : (entity : Entity) → entity.Draft → entity.Key → ℤ → Option entity.Row
  | trade, draft, id, now => do
    return {
      id
      userId := ← draft.userId
      asset := ← draft.asset
      type := ← draft.type
      amount := ← draft.amount
      price := ← draft.price
      totalValue := draft.totalValue.getD 0
      status := draft.status.getD "PENDING"
      timestamp := draft.timestamp.getD now
      createdAt := draft.createdAt.getD now }
  | userBalance, draft, id, now => do
    return {
      id
      userId := ← draft.userId
      assetId := ← draft.assetId
      balance := draft.balance.getD 0
      lockedBalance := draft.lockedBalance.getD 0
      totalTrades := draft.totalTrades.getD 0
      cumulativePnL := draft.cumulativePnL.getD 0
      totalTradeVolume := draft.totalTradeVolume.getD 0
      lastTradeDate := draft.lastTradeDate.getD none
      totalInvested := draft.totalInvested.getD 0
      averageBuyPrice := draft.averageBuyPrice.getD 0
      createdAt := draft.createdAt.getD now
      updatedAt := draft.updatedAt.getD now }
  | virtualAsset, draft, id, now => do
    return {
      id
      symbol := ← draft.symbol
      name := ← draft.name
      price := draft.price.getD 0
      createdAt := draft.createdAt.getD now
      updatedAt := draft.updatedAt.getD now }

end Entity

/-! ## Shards -/

/-- A stored row, with the strategy of the insert that has stored it, which no code reads. -/
structure Stored (entity : Entity) where
  row : entity.Row
  strategy : String
deriving DecidableEq

namespace Stored

variable {entity : Entity}

/-- The primary key of a stored row. -/
def key (stored : Stored entity) : entity.Key := entity.key stored.row

/-- The entry of a stored row in the unique index. -/
def index (stored : Stored entity) : Option entity.Entry := entity.index stored.row

end Stored

/-- A table of a shard. -/
abbrev Store (entity : Entity) := Indexed (@Stored.key entity) (@Stored.index entity)

/-- A data source: the tables of a shard. -/
abbrev DataSource := (entity : Entity) → Store entity

/-- The message of a violated unique index. -/
def uniqueFailed (entity : Entity) : String := s!"SQLITE_CONSTRAINT: UNIQUE constraint failed: {entity.indexColumns}"

/-- The message of a violated foreign key. -/
def foreignKeyFailed : String := "SQLITE_CONSTRAINT: FOREIGN KEY constraint failed"

/-- The message of a column that is missing. -/
def notNullFailed : String := "SQLITE_CONSTRAINT: NOT NULL constraint failed"

/-- The message of a removal of an object without a primary key. -/
def subjectWithoutIdentifier : String := "Subject must have an identifier to perform operation."

namespace DataSource

/-- The tables without rows. -/
def empty : DataSource := fun _ => .empty

variable (source : DataSource)

/-- The asset of a balance is stored on the shard. -/
def References : {entity : Entity} → entity.Row → Prop
  | .userBalance, row => ∃ asset ∈ (source .virtualAsset).rows, asset.row.id = row.assetId
  | _, _ => True

instance {entity : Entity} (row : entity.Row) : Decidable (source.References row) :=
  match entity with
  | .trade => inferInstanceAs (Decidable True)
  | .userBalance => inferInstanceAs (Decidable (∃ asset ∈ (source .virtualAsset).rows, asset.row.id = row.assetId))
  | .virtualAsset => inferInstanceAs (Decidable True)

/-- The row is an asset that a balance of the shard refers to. -/
def Referenced : {entity : Entity} → entity.Key → Prop
  | .virtualAsset, id => ∃ balance ∈ (source .userBalance).rows, balance.row.assetId = id
  | _, _ => False

instance {entity : Entity} (id : entity.Key) : Decidable (source.Referenced id) :=
  match entity with
  | .trade => inferInstanceAs (Decidable False)
  | .userBalance => inferInstanceAs (Decidable False)
  | .virtualAsset => inferInstanceAs (Decidable (∃ balance ∈ (source .userBalance).rows, balance.row.assetId = id))

variable (foreignKeys : Bool)

/-- The save of a row that holds all columns. -/
def saveRow {entity : Entity} (row : Stored entity) : Except String DataSource :=
  if h : (source entity).Conflicts row then .error (uniqueFailed entity)
  else if foreignKeys ∧ ¬ source.References row.row then .error foreignKeyFailed
  else .ok (Function.update source entity ((source entity).save row h))

/-- The removal of the row with a primary key. -/
def removeRow (entity : Entity) (id : entity.Key) : Except String DataSource :=
  if foreignKeys ∧ source.Referenced id then .error foreignKeyFailed
  else .ok (Function.update source entity ((source entity).erase id))

variable {source foreignKeys} in
theorem saveRow_eq_ok {entity : Entity} {row : Stored entity} {source' : DataSource}
    (h : source.saveRow foreignKeys row = .ok source') :
    ∃ hindex : ¬ (source entity).Conflicts row, (foreignKeys → source.References row.row) ∧
      source' = Function.update source entity ((source entity).save row hindex) := by
  unfold saveRow at h
  by_cases hindex : (source entity).Conflicts row
  · rw [dif_pos hindex] at h
    cases h
  rw [dif_neg hindex] at h
  split at h
  · cases h
  next hrefers =>
    refine ⟨hindex, fun hkeys => ?_, (Except.ok.inj h).symm⟩
    by_contra hnot
    exact hrefers ⟨hkeys, hnot⟩

variable {source foreignKeys} in
theorem removeRow_eq_ok {entity : Entity} {id : entity.Key} {source' : DataSource}
    (h : source.removeRow foreignKeys entity id = .ok source') :
    source' = Function.update source entity ((source entity).erase id) := by
  unfold removeRow at h
  split at h
  · cases h
  · exact (Except.ok.inj h).symm

/-- The save of an object at a time, with the key that an insert generates. -/
def save {entity : Entity} (draft : entity.Draft) (generated : entity.Key) (now : ℤ) (strategy : String) :
    Except String DataSource :=
  let id := (entity.draftKey draft).getD generated
  match (source entity).table.find id with
  | some stored =>
    if (entity.draftKey draft).isSome then
      source.saveRow foreignKeys ⟨entity.update draft stored.row, strategy⟩
    else .error (uniqueFailed entity)
  | none =>
    match entity.create draft id now with
    | none => .error notNullFailed
    | some row => source.saveRow foreignKeys ⟨row, strategy⟩

/-- The removal of an object, which holds its primary key. -/
def remove {entity : Entity} (draft : entity.Draft) : Except String DataSource :=
  match entity.draftKey draft with
  | none => .error subjectWithoutIdentifier
  | some id => source.removeRow foreignKeys entity id

end DataSource

end Sharding
