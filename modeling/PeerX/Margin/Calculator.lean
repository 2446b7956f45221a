import PeerX.Margin.Entities
import Mathlib.Algebra.Order.Ring.WithTop
import Mathlib.Data.Rat.Floor
import Mathlib.Tactic.FieldSimp
import Mathlib.Tactic.Linarith
import Mathlib.Tactic.Ring

/-!
# Margin: the calculator

The formulas of `MarginCalculatorService`. The engine compares the equity of a position at the
current price with its maintenance requirement; `calculateLiquidationPrice` solves the same
comparison for the price, so both agree at every price as long as they are given the same interest
and rate.
-/

namespace Margin

def calculateNotional (size price : ℚ) : ℚ := size * price

def calculateUnrealizedPnl (side : PositionSide) (size entryPrice currentPrice : ℚ) : ℚ :=
  if side = .long then (currentPrice - entryPrice) * size else (entryPrice - currentPrice) * size

def calculateEquity (collateral unrealizedPnl accruedInterest : ℚ) : ℚ :=
  collateral + unrealizedPnl - accruedInterest

def calculateMaintenanceRequirement (notional maintenanceMarginRate : ℚ) : ℚ :=
  notional * maintenanceMarginRate

/-- `calculateMarginRatio`; `⊤` is `Infinity`. -/
def calculateMarginRatio (equity maintenanceRequirement : ℚ) : WithTop ℚ :=
  if maintenanceRequirement ≤ 0 then ⊤ else (equity / maintenanceRequirement : ℚ)

def calculateLiquidationPrice (side : PositionSide)
    (size entryPrice collateral maintenanceMarginRate accruedInterest : ℚ) : ℚ :=
  if size ≤ 0 then 0
  else if side = .long then
    let numerator := collateral - entryPrice * size - accruedInterest
    let denominator := size * (maintenanceMarginRate - 1)
    if denominator = 0 then 0 else max 0 (numerator / denominator)
  else
    let numerator := collateral + entryPrice * size - accruedInterest
    let denominator := size * (1 + maintenanceMarginRate)
    max 0 (numerator / denominator)

def calculateEffectiveMaxLeverage (config : MarginPairConfig) : ℚ :=
  if config.volatilityPct ≤ 0 ∨ config.volatilityLeverageFactor ≤ 0 then config.maxLeverage
  else
    let volatilityCap : ℚ := ⌊1 / (config.volatilityPct / 100 * config.volatilityLeverageFactor)⌋
    min config.maxLeverage (max 1 volatilityCap)

def calculateBorrowedAmount (notional collateral : ℚ) : ℚ := max 0 (notional - collateral)

def calculatePositionSize (notional entryPrice : ℚ) : ℚ :=
  if entryPrice ≤ 0 then 0 else notional / entryPrice

structure MarginMetrics where
  notional : ℚ
  equity : ℚ
  maintenanceRequirement : ℚ
  marginRatio : WithTop ℚ
  unrealizedPnl : ℚ

def computeMetrics (side : PositionSide)
    (size entryPrice currentPrice collateral accruedInterest maintenanceMarginRate : ℚ) :
    MarginMetrics :=
  let notional := calculateNotional size currentPrice
  let unrealizedPnl := calculateUnrealizedPnl side size entryPrice currentPrice
  let equity := calculateEquity collateral unrealizedPnl accruedInterest
  let maintenanceRequirement := calculateMaintenanceRequirement notional maintenanceMarginRate
  { notional
    equity
    maintenanceRequirement
    marginRatio := calculateMarginRatio equity maintenanceRequirement
    unrealizedPnl }

def shouldLiquidate (equity maintenanceRequirement : ℚ) : Bool := equity ≤ maintenanceRequirement

def shouldMarginCall (marginRatio : WithTop ℚ) (marginCallThresholdRatio : ℚ) : Bool :=
  marginRatio ≤ marginCallThresholdRatio ∧ 1 < marginRatio

def calculateDailyInterest (borrowedAmount : ℚ) (dailyInterestRateBps : ℕ) : ℚ :=
  borrowedAmount * (dailyInterestRateBps / 10000)

/-- The price is at or beyond `threshold`: at or below it for a LONG position, at or above it for a
SHORT one. -/
def AtOrBeyond (side : PositionSide) (threshold price : ℚ) : Prop :=
  match side with
  | .long => price ≤ threshold
  | .short => threshold ≤ price

section LiquidationPrice

variable {side : PositionSide} {size entryPrice collateral rate interest price : ℚ}

/-- The liquidation price of a LONG position, when its rate is below 1. -/
theorem calculateLiquidationPrice_long (hsize : 0 < size) (hrate : rate < 1) :
    calculateLiquidationPrice .long size entryPrice collateral rate interest =
      max 0 ((entryPrice * size + interest - collateral) / (size * (1 - rate))) := by
  have hne : size * (rate - 1) ≠ 0 := mul_ne_zero hsize.ne' (sub_ne_zero.mpr hrate.ne)
  have hneg : (collateral - entryPrice * size - interest) / (size * (rate - 1)) =
      (entryPrice * size + interest - collateral) / (size * (1 - rate)) := by
    rw [← neg_div_neg_eq]
    congr 1 <;> ring
  simp [calculateLiquidationPrice, not_le.mpr hsize, hne, hneg]

theorem calculateLiquidationPrice_short (hsize : 0 < size) :
    calculateLiquidationPrice .short size entryPrice collateral rate interest =
      max 0 ((collateral + entryPrice * size - interest) / (size * (1 + rate))) := by
  simp [calculateLiquidationPrice, not_le.mpr hsize]

/-- The test of the engine and the liquidation price agree at every price, given the same
interest and the same maintenance rate. -/
theorem shouldLiquidate_iff_atOrBeyond (hsize : 0 < size) (hrate : 0 ≤ rate)
    (hlong : side = .long → rate < 1) (hprice : 0 < price) :
    let metrics := computeMetrics side size entryPrice price collateral interest rate
    shouldLiquidate metrics.equity metrics.maintenanceRequirement ↔
      AtOrBeyond side
        (calculateLiquidationPrice side size entryPrice collateral rate interest) price := by
  simp only [shouldLiquidate, computeMetrics, calculateEquity, calculateMaintenanceRequirement,
    calculateNotional, calculateUnrealizedPnl]
  cases side with
  | long =>
    have hpos : 0 < size * (1 - rate) := mul_pos hsize (sub_pos.mpr (hlong rfl))
    rw [calculateLiquidationPrice_long hsize (hlong rfl)]
    simp only [AtOrBeyond, le_max_iff, not_le.mpr hprice, false_or, le_div_iff₀ hpos, if_true,
      decide_eq_true_eq]
    constructor <;> intro h <;> linarith
  | short =>
    have hpos : 0 < size * (1 + rate) := mul_pos hsize (by linarith)
    rw [calculateLiquidationPrice_short hsize]
    simp only [AtOrBeyond, max_le_iff, hprice.le, true_and, div_le_iff₀ hpos, reduceCtorEq, if_false,
      decide_eq_true_eq]
    constructor <;> intro h <;> linarith

variable (side size entryPrice collateral rate interest price) in
/-- The threshold test on the metrics of a position at a price. -/
def liquidatedAt : Bool :=
  let metrics := computeMetrics side size entryPrice price collateral interest rate
  shouldLiquidate metrics.equity metrics.maintenanceRequirement

theorem liquidatedAt_long_iff (hsize : 0 < size) (hrate : 0 ≤ rate) (hlt : rate < 1) (hprice : 0 < price) :
    liquidatedAt .long size entryPrice collateral rate interest price ↔
      price ≤ calculateLiquidationPrice .long size entryPrice collateral rate interest :=
  shouldLiquidate_iff_atOrBeyond hsize hrate (fun _ => hlt) hprice

theorem liquidatedAt_short_iff (hsize : 0 < size) (hrate : 0 ≤ rate) (hprice : 0 < price) :
    liquidatedAt .short size entryPrice collateral rate interest price ↔
      calculateLiquidationPrice .short size entryPrice collateral rate interest ≤ price :=
  shouldLiquidate_iff_atOrBeyond hsize hrate (fun hside => by cases hside) hprice

/-- **The threshold test and the closed-form price agree**: a LONG position is liquidated at the
prices up to its liquidation price, a SHORT one from it on. -/
theorem liquidated_up_to_price (hsize : 0 < size) (hrate : 0 ≤ rate) (hlt : rate < 1) (hprice : 0 < price) :
    (liquidatedAt .long size entryPrice collateral rate interest price ↔
      price ≤ calculateLiquidationPrice .long size entryPrice collateral rate interest) ∧
    (liquidatedAt .short size entryPrice collateral rate interest price ↔
      calculateLiquidationPrice .short size entryPrice collateral rate interest ≤ price) :=
  ⟨liquidatedAt_long_iff hsize hrate hlt hprice, liquidatedAt_short_iff hsize hrate hprice⟩

/-- A position of 10 entered at the price 100, with a collateral of 500, an interest of 3 and a rate
of 5 %, at 50. -/
theorem liquidated_up_to_price_leveraged :
    (liquidatedAt .long 10 100 500 (1 / 20) 3 50 ↔ 50 ≤ calculateLiquidationPrice .long 10 100 500 (1 / 20) 3) ∧
    (liquidatedAt .short 10 100 500 (1 / 20) 3 50 ↔ calculateLiquidationPrice .short 10 100 500 (1 / 20) 3 ≤ 50) :=
  liquidated_up_to_price (by norm_num) (by norm_num) (by norm_num) (by norm_num)

end LiquidationPrice

end Margin
