import PeerX.Margin.Calculator
import PeerX.Margin.Database
import PeerX.Orders.Service

/-!
# Margin: the position and the pair configuration services

`openPosition` locks the collateral of a position in the quote balance of its user; `closePosition`
and `liquidatePosition` release it and settle the equity. A closed position settles the equity as it
is, a liquidated one settles at least zero and reports the rest as a shortfall.
-/

namespace Margin

open Relational Concurrency

def getById (id : ℕ) : Tx MarginPairConfig := do
  match ← query (.findPair id) with
  | none => throw (.notFound s!"Margin pair config {id} not found")
  | some config => return config

/-- The entity `MarginPairConfigService.create` saves, with its defaults. Its identifier is the
generated one. -/
def newPairConfig (id : ℕ) (dto : CreateMarginPairConfigDto) : MarginPairConfig where
  id := id
  baseAssetId := dto.baseAssetId
  quoteAssetId := dto.quoteAssetId
  maxLeverage := dto.maxLeverage.getD 10
  initialMarginRate := dto.initialMarginRate.getD (1 / 10)
  maintenanceMarginRate := dto.maintenanceMarginRate.getD (1 / 20)
  dailyInterestRateBps := dto.dailyInterestRateBps.getD 10
  volatilityPct := dto.volatilityPct.getD 50
  volatilityLeverageFactor := dto.volatilityLeverageFactor.getD 2
  marginCallThresholdRatio := dto.marginCallThresholdRatio.getD (23 / 20)
  isEnabled := dto.isEnabled.getD true

def create (id : ℕ) (dto : CreateMarginPairConfigDto) : Tx MarginPairConfig := do
  if ← query (.savePair (newPairConfig id dto)) then
    return newPairConfig id dto
  else
    throw .duplicateKey

/-- The entity `openPosition` creates. Its identifier is the generated one. -/
def newPosition (id : ℕ) (dto : OpenMarginPositionDto) (pairConfig : MarginPairConfig)
    (entryPrice : ℚ) : MarginPosition :=
  let notional := dto.collateral * dto.leverage
  let size := calculatePositionSize notional entryPrice
  { id
    userId := dto.userId
    pairConfigId := pairConfig.id
    side := dto.side
    size
    entryPrice
    leverage := dto.leverage
    collateral := dto.collateral
    borrowedAmount := calculateBorrowedAmount notional dto.collateral
    liquidationPrice := calculateLiquidationPrice dto.side size entryPrice dto.collateral
      pairConfig.maintenanceMarginRate 0
    unrealizedPnl := 0
    accruedInterest := 0
    status := .isOpen
    marginCallNotifiedAt := none
    lastInterestAccrualAt := none
    closedAt := none
    liquidatedAt := none }

/-- `openPosition` before its transaction: the pair, and the entry price. -/
def checkOpen (dto : OpenMarginPositionDto) : Tx (MarginPairConfig × ℚ) := do
  let pairConfig ← getById dto.pairConfigId
  if ¬ pairConfig.isEnabled then
    throw (.badRequest "Margin trading is disabled for this pair")
  if calculateEffectiveMaxLeverage pairConfig < dto.leverage then
    throw (.leverageAbove dto.leverage (calculateEffectiveMaxLeverage pairConfig))
  if 1 / dto.leverage + 1 / 100000000 < pairConfig.initialMarginRate then
    throw (.initialMargin dto.leverage pairConfig.initialMarginRate)
  match ← query (.findAsset pairConfig.baseAssetId) with
  | none => throw (.notFound "Base asset not found")
  | some baseAsset =>
    let entryPrice := dto.entryPrice.getD baseAsset.price
    if entryPrice ≤ 0 then
      throw (.badRequest "Invalid entry price")
    return (pairConfig, entryPrice)

/-- The transaction of `openPosition`: the collateral is locked, and the position is stored. -/
def lockCollateral (quoteAssetId : ℕ) (position : MarginPosition) : Tx MarginPosition := do
  match ← query (.exchange (.lockBalance position.userId quoteAssetId)) with
  | none => throw (.badRequest "Insufficient margin: no quote asset balance found")
  | some balance =>
    if balance.availableBalance < position.collateral then
      throw (.insufficientMargin position.collateral balance.availableBalance)
    query (.exchange (.saveBalance (balance.lock position.collateral)))
    if ← query (.insertPosition position) then
      return position
    else
      throw .duplicateKey

def openPosition (id : ℕ) (dto : OpenMarginPositionDto) : Tx MarginPosition := do
  let (pairConfig, entryPrice) ← checkOpen dto
  lockCollateral pairConfig.quoteAssetId (newPosition id dto pairConfig entryPrice)

/-- The profit of the position at a price. -/
def MarginPosition.pnlAt (position : MarginPosition) (currentPrice : ℚ) : ℚ :=
  calculateUnrealizedPnl position.side position.size position.entryPrice currentPrice

/-- The equity of the position at a price. -/
def MarginPosition.equityAt (position : MarginPosition) (currentPrice : ℚ) : ℚ :=
  calculateEquity position.collateral (position.pnlAt currentPrice) position.accruedInterest

/-- The balance row after a settlement: the collateral is released, clamped at zero, and the equity
takes its place. -/
def settledBalance (balance : Orders.UserBalance) (collateral equity : ℚ) : Orders.UserBalance :=
  { balance with
    lockedBalance := max 0 (balance.lockedBalance - collateral)
    balance := balance.balance + (equity - collateral) }

def settlePositionBalance (position : MarginPosition) (quoteAssetId : ℕ) (equity : ℚ) : Tx Unit := do
  match ← query (.exchange (.lockBalance position.userId quoteAssetId)) with
  | none => return ()
  | some balance =>
    query (.exchange (.saveBalance (settledBalance balance position.collateral equity)))

/-- `save(position)`. -/
def savePosition (position : MarginPosition) : Tx MarginPosition := do
  if ← query (.savePosition position) then
    return position
  else
    throw .saveFailed

/-- The position in status CLOSED. -/
def MarginPosition.asClosed (position : MarginPosition) (now : ℤ) (currentPrice : ℚ) :
    MarginPosition :=
  { position with
    unrealizedPnl := position.pnlAt currentPrice
    status := .closed
    closedAt := some now }

/-- The position in status LIQUIDATED. -/
def MarginPosition.asLiquidated (position : MarginPosition) (now : ℤ) (currentPrice : ℚ) :
    MarginPosition :=
  { position with
    unrealizedPnl := position.pnlAt currentPrice
    status := .liquidated
    liquidatedAt := some now }

namespace MarginPosition

variable (p : MarginPosition) (now : ℤ) (currentPrice : ℚ)

@[simp] theorem asClosed_id : (p.asClosed now currentPrice).id = p.id := rfl

@[simp] theorem asLiquidated_id : (p.asLiquidated now currentPrice).id = p.id := rfl

@[simp] theorem asClosed_not_open : ¬ (p.asClosed now currentPrice).Open := by
  simp [asClosed, Open]

@[simp] theorem asLiquidated_not_open : ¬ (p.asLiquidated now currentPrice).Open := by
  simp [asLiquidated, Open]

end MarginPosition

def closePosition (now : ℤ) (positionId : ℕ) (currentPrice : ℚ) : Tx MarginPosition := do
  match ← query (.lockPosition positionId) with
  | none => throw (.notFound s!"Position {positionId} not found")
  | some position =>
    if ¬ position.Open then
      let status := position.status.text
      throw (.badRequest s!"Position {positionId} is not open (status={status})")
    match ← query (.findPair position.pairConfigId) with
    | none => throw (.notFound "Pair config not found")
    | some pairConfig =>
      settlePositionBalance position pairConfig.quoteAssetId (position.equityAt currentPrice)
      savePosition (position.asClosed now currentPrice)

/-- `MarginPositionService.liquidatePosition`: the position and its shortfall. -/
def liquidatePosition (now : ℤ) (position : MarginPosition) (pairConfig : MarginPairConfig)
    (currentPrice : ℚ) : Tx (MarginPosition × ℚ) := do
  match ← query (.lockPosition position.id) with
  | none => return (position, 0)
  | some locked =>
    if ¬ locked.Open then
      return (locked, 0)
    else
      let equity := locked.equityAt currentPrice
      let shortfall := if equity < 0 then |equity| else 0
      settlePositionBalance locked pairConfig.quoteAssetId (max 0 equity)
      let saved ← savePosition (locked.asLiquidated now currentPrice)
      return (saved, shortfall)

end Margin
