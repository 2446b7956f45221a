import PeerX.Margin.Positions

/-!
# Margin: the interest service and the liquidation engine

`accrueDailyInterest` loads the positions that are open, and charges each of them that borrows and
has no accrual row of the day: the position is saved with its interest raised, and then the accrual
row is stored. Every statement commits by itself, and an exception of one position does not stop the
others.

`monitorPositions` loads the open positions with their pairs and prices, and evaluates each of them:
the loaded entity is saved with its current profit, outside any transaction, and then the position
is liquidated, called for margin or reset, or left alone. Each save writes the whole entity as it
was loaded.
-/

namespace Margin

open Relational Concurrency

/-- The interest of one day on what the position borrowed. -/
def MarginPosition.dailyInterest (position : MarginPosition) (pairConfig : MarginPairConfig) : ℚ :=
  calculateDailyInterest position.borrowedAmount pairConfig.dailyInterestRateBps

/-- The position with the interest of one day added. -/
def MarginPosition.charged (position : MarginPosition) (pairConfig : MarginPairConfig) (now : ℤ) :
    MarginPosition :=
  { position with
    accruedInterest := position.accruedInterest + position.dailyInterest pairConfig
    lastInterestAccrualAt := some now }

/-- The accrual row of a charge. -/
def MarginPosition.accrual (position : MarginPosition) (pairConfig : MarginPairConfig)
    (accrualDate : ℕ) : MarginInterestAccrual where
  positionId := position.id
  userId := position.userId
  borrowedAmount := position.borrowedAmount
  interestAmount := position.dailyInterest pairConfig
  dailyInterestRateBps := pairConfig.dailyInterestRateBps
  accruedTotalAfter := position.accruedInterest + position.dailyInterest pairConfig
  accrualDate := accrualDate

def accrueForPosition (now : ℤ) (position : MarginPosition) (pairConfig : MarginPairConfig)
    (accrualDate : ℕ) : Tx MarginInterestAccrual := do
  let _ ← savePosition (position.charged pairConfig now)
  let record := position.accrual pairConfig accrualDate
  if ← query (.insertAccrual record) then
    return record
  else
    throw .saveFailed

/-- One position of the run. `clock` gives the time at which each position is charged. -/
def accruePosition (clock : ℕ → ℤ) (today : ℕ) (position : MarginPosition) : Tx Unit := do
  if position.borrowedAmount ≤ 0 then
    return ()
  else
    match ← query (.findPair position.pairConfigId) with
    | none => return ()
    | some pairConfig =>
      match ← query (.findAccrual position.id today) with
      | some _ => return ()
      | none =>
        tryCatch (do
          let _ ← accrueForPosition (clock position.id) position pairConfig today
          return ()) fun _ => return ()

/-- The loop over the loaded positions. -/
def accrueLoop (clock : ℕ → ℤ) (today : ℕ) : List MarginPosition → Tx Unit
  | [] => return ()
  | position :: positions => do
    accruePosition clock today position
    accrueLoop clock today positions

def accrueDailyInterest (clock : ℕ → ℤ) (today : ℕ) : Tx Unit := do
  let positions ← query .findOpen
  accrueLoop clock today positions

/-- What a transaction on these tables commits with. -/
inductive Outcome : Type
  | closed (position : MarginPosition)
  | liquidated (position : MarginPosition) (shortfall : ℚ)
  | ordered (order : Orders.Order)
  | saved (balance : Orders.UserBalance)

/-- The sessions of the margin services. -/
abbrev MarginSession (α : Type) := Session (C := Stmt) Stmt.Reply Outcome MarginError α

/-- A statement outside any transaction. -/
abbrev bare (c : Stmt) : MarginSession c.Reply := autocommit c

/-- `positionRepo.save(position)`, outside any transaction. -/
def saveAlone (position : MarginPosition) : MarginSession Unit := do
  if ← bare (.savePosition position) then
    return ()
  else
    throw .saveFailed

/-- The metrics of the position at a price. -/
def MarginPosition.metricsAt (position : MarginPosition) (pairConfig : MarginPairConfig)
    (currentPrice : ℚ) : MarginMetrics :=
  computeMetrics position.side position.size position.entryPrice currentPrice position.collateral
    position.accruedInterest pairConfig.maintenanceMarginRate

/-- `LiquidationEngineService.liquidate`. What `coverShortfall` throws is caught. -/
def liquidate (now : ℤ) (position : MarginPosition) (pairConfig : MarginPairConfig)
    (currentPrice : ℚ) : MarginSession Unit := do
  let (_, shortfall) ← transaction (fun r => .liquidated r.1 r.2)
    (liquidatePosition now position pairConfig currentPrice)
  if 0 < shortfall then
    bare (.coverShortfall ⟨position.userId, shortfall, position.id⟩)

/-- The position in status MARGIN_CALL. A notification of the last hour is not repeated. -/
def MarginPosition.called (position : MarginPosition) (now : ℤ) : MarginPosition :=
  let recentlyNotified := position.marginCallNotifiedAt.any fun t => now - t < 3600000
  { position with
    status := .marginCall
    marginCallNotifiedAt := if recentlyNotified then position.marginCallNotifiedAt else some now }

def triggerMarginCall (now : ℤ) (position : MarginPosition) : MarginSession Unit :=
  saveAlone (position.called now)

def evaluatePosition (now : ℤ) (position : MarginPosition) (pairConfig : MarginPairConfig)
    (currentPrice : ℚ) : MarginSession Unit := do
  let metrics := position.metricsAt pairConfig currentPrice
  let position := { position with unrealizedPnl := metrics.unrealizedPnl }
  saveAlone position
  if shouldLiquidate metrics.equity metrics.maintenanceRequirement then
    liquidate now position pairConfig currentPrice
  else if shouldMarginCall metrics.marginRatio pairConfig.marginCallThresholdRatio then
    triggerMarginCall now position
  else if position.status = .marginCall then
    saveAlone { position with status := .isOpen }

/-- One position of the monitor. `clock` gives the time at which each position is evaluated. -/
def monitorPosition (clock : ℕ → ℤ) (pairs : List MarginPairConfig)
    (assets : List Orders.VirtualAsset) (position : MarginPosition) : MarginSession Unit :=
  match pairs.find? (·.id = position.pairConfigId) with
  | none => return ()
  | some pairConfig =>
    match assets.find? (·.id = pairConfig.baseAssetId) with
    | none => return ()
    | some asset =>
      if asset.price ≤ 0 then
        return ()
      else
        tryCatch (evaluatePosition (clock position.id) position pairConfig asset.price) fun _ =>
          return ()

/-- The loop over the loaded positions. -/
def monitorLoop (clock : ℕ → ℤ) (pairs : List MarginPairConfig) (assets : List Orders.VirtualAsset) :
    List MarginPosition → MarginSession Unit
  | [] => return ()
  | position :: positions => do
    monitorPosition clock pairs assets position
    monitorLoop clock pairs assets positions

def monitorPositions (clock : ℕ → ℤ) : MarginSession Unit := do
  let positions ← bare .findOpen
  if positions = [] then
    return ()
  else
    let pairs ← bare (.findPairs (positions.map (·.pairConfigId)))
    let assets ← bare (.exchange (.findAssets
      (pairs.flatMap fun p => [p.baseAssetId, p.quoteAssetId])))
    monitorLoop clock pairs assets positions

end Margin
