import PeerX.Orders.Entities

/-!
# Margin: entities and requests

The rows of `margin_pair_configs`, `margin_positions` and `margin_interest_accruals` that the margin
services read and write, the request bodies, and the exceptions. Amounts, prices and rates are exact
rationals; a time is a number of milliseconds and a date a number of days. A generated identifier (a
UUID) is a natural number.
-/

namespace Margin

open Relational

inductive PositionSide : Type
  | long
  | short
deriving DecidableEq

inductive PositionStatus : Type
  | isOpen
  | marginCall
  | liquidated
  | closed
deriving DecidableEq

/-- The stored text of a status. -/
def PositionStatus.text : PositionStatus → String
  | .isOpen => "OPEN"
  | .marginCall => "MARGIN_CALL"
  | .liquidated => "LIQUIDATED"
  | .closed => "CLOSED"

/-- A row of `margin_pair_configs`. -/
structure MarginPairConfig where
  id : ℕ
  baseAssetId : ℕ
  quoteAssetId : ℕ
  maxLeverage : ℚ
  initialMarginRate : ℚ
  maintenanceMarginRate : ℚ
  dailyInterestRateBps : ℕ
  volatilityPct : ℚ
  volatilityLeverageFactor : ℚ
  marginCallThresholdRatio : ℚ
  isEnabled : Bool
deriving DecidableEq

/-- A row of `margin_positions`. -/
structure MarginPosition where
  id : ℕ
  userId : ℕ
  pairConfigId : ℕ
  side : PositionSide
  size : ℚ
  entryPrice : ℚ
  leverage : ℚ
  collateral : ℚ
  borrowedAmount : ℚ
  liquidationPrice : ℚ
  unrealizedPnl : ℚ
  accruedInterest : ℚ
  status : PositionStatus
  marginCallNotifiedAt : Option ℤ
  lastInterestAccrualAt : Option ℤ
  closedAt : Option ℤ
  liquidatedAt : Option ℤ
deriving DecidableEq

namespace MarginPosition

/-- Status `OPEN` or `MARGIN_CALL`. -/
def Open (p : MarginPosition) : Prop := p.status = .isOpen ∨ p.status = .marginCall

instance (p : MarginPosition) : Decidable p.Open := inferInstanceAs (Decidable (_ ∨ _))

end MarginPosition

/-- A row of `margin_interest_accruals`, without its generated identifier. -/
structure MarginInterestAccrual where
  positionId : ℕ
  userId : ℕ
  borrowedAmount : ℚ
  interestAmount : ℚ
  dailyInterestRateBps : ℕ
  accruedTotalAfter : ℚ
  accrualDate : ℕ
deriving DecidableEq

/-- What the engine asks of `coverShortfall`. -/
structure ShortfallRequest where
  userId : ℕ
  shortfallAmount : ℚ
  positionId : ℕ
deriving DecidableEq

structure OpenMarginPositionDto where
  userId : ℕ
  pairConfigId : ℕ
  side : PositionSide
  collateral : ℚ
  leverage : ℚ
  entryPrice : Option ℚ
deriving DecidableEq

/-- What the request validation admits: the decorators of `OpenMarginPositionDto`. -/
structure OpenMarginPositionDto.Valid (dto : OpenMarginPositionDto) : Prop where
  collateral_min : 1 / 100000000 ≤ dto.collateral
  leverage_min : 1 ≤ dto.leverage
  entryPrice_nonneg : ∀ p, dto.entryPrice = some p → 0 ≤ p

structure CreateMarginPairConfigDto where
  baseAssetId : ℕ
  quoteAssetId : ℕ
  maxLeverage : Option ℚ := none
  initialMarginRate : Option ℚ := none
  maintenanceMarginRate : Option ℚ := none
  dailyInterestRateBps : Option ℕ := none
  volatilityPct : Option ℚ := none
  volatilityLeverageFactor : Option ℚ := none
  marginCallThresholdRatio : Option ℚ := none
  isEnabled : Option Bool := none
deriving DecidableEq

/-- What the request validation admits: the decorators of `CreateMarginPairConfigDto`, none of which
compares two fields. -/
structure CreateMarginPairConfigDto.Valid (dto : CreateMarginPairConfigDto) : Prop where
  maxLeverage_min : ∀ x, dto.maxLeverage = some x → 1 ≤ x
  initialMarginRate_nonneg : ∀ x, dto.initialMarginRate = some x → 0 ≤ x
  maintenanceMarginRate_nonneg : ∀ x, dto.maintenanceMarginRate = some x → 0 ≤ x
  volatilityPct_nonneg : ∀ x, dto.volatilityPct = some x → 0 ≤ x
  volatilityLeverageFactor_nonneg : ∀ x, dto.volatilityLeverageFactor = some x → 0 ≤ x
  marginCallThresholdRatio_min : ∀ x, dto.marginCallThresholdRatio = some x → 1 ≤ x

/-- The exceptions. The ones without a message have numbers in their text: `leverageAbove x max` is
`Leverage ${x}x exceeds maximum ${max}x for this pair (volatility-adjusted)`, `initialMargin x rate`
is `Leverage ${x}x requires at least ${1 / rate}x max leverage for this pair`, and
`insufficientMargin need have` is `Insufficient available margin: need ${need}, have ${have}`. -/
inductive MarginError : Type
  | badRequest (message : String)
  | notFound (message : String)
  | leverageAbove (leverage effectiveMaxLeverage : ℚ)
  | initialMargin (leverage initialMarginRate : ℚ)
  | insufficientMargin (need available : ℚ)
  /-- An exception of the order services. -/
  | order (e : Orders.OrderError)
  /-- A save of a repository threw. -/
  | saveFailed
  /-- The key of an inserted row is already in use. -/
  | duplicateKey
deriving DecidableEq

end Margin
