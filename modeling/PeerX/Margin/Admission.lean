import PeerX.Margin.Runs

/-!
# Margin: the admission of a position

`openPosition` bounds the leverage of a position by the maximum of its pair, by the volatility, and
by the initial margin rate. At the entry price the equity of the position is its collateral, and the
requirement is the collateral times the leverage times the maintenance rate: so whether the position
is above its requirement there depends on a rate that no check of the admission reads. The
validation of a configuration does not compare it with the initial margin rate either.
-/

namespace Margin

open Relational Concurrency
open Orders (UserBalance)

/-- The position is above its maintenance requirement at a price, strictly: `shouldLiquidate`
does not hold there. -/
def AboveMaintenance (p : MarginPosition) (c : MarginPairConfig) (price : ℚ) : Prop :=
  calculateMaintenanceRequirement (calculateNotional p.size price) c.maintenanceMarginRate < p.equityAt price

instance (p : MarginPosition) (c : MarginPairConfig) (price : ℚ) : Decidable (AboveMaintenance p c price) :=
  inferInstanceAs (Decidable (_ < _))

section Positions

variable {d d' : MarginDb} {id : ℕ} {dto : OpenMarginPositionDto} {c : MarginPairConfig} {entryPrice : ℚ}

/-- At its entry price a new position has its collateral as equity. -/
theorem newPosition_equityAt_entry : (newPosition id dto c entryPrice).equityAt entryPrice = dto.collateral := by
  simp [MarginPosition.equityAt, MarginPosition.pnlAt, calculateUnrealizedPnl, calculateEquity, newPosition]

/-- The notional value of a new position is its collateral times its leverage. -/
theorem newPosition_notional (hprice : 0 < entryPrice) :
    calculateNotional (newPosition id dto c entryPrice).size entryPrice = dto.collateral * dto.leverage := by
  simp only [newPosition, calculateNotional, calculatePositionSize, not_le.mpr hprice, if_false]
  exact div_mul_cancel₀ _ hprice.ne'

/-- A new position at its entry price is above its requirement when the leverage times the rate
is below 1. -/
theorem newPosition_aboveMaintenance_iff (hcollateral : 0 < dto.collateral) (hprice : 0 < entryPrice) :
    AboveMaintenance (newPosition id dto c entryPrice) c entryPrice ↔ dto.leverage * c.maintenanceMarginRate < 1 := by
  rw [AboveMaintenance, newPosition_equityAt_entry, newPosition_notional hprice, calculateMaintenanceRequirement,
    mul_assoc]
  exact mul_lt_iff_lt_one_right hcollateral

/-- **When an admitted position is above its requirement at its entry price**: the leverage times
the maintenance rate of the pair is below 1. -/
theorem admitted_aboveMaintenance_iff (hvalid : dto.Valid) {p : MarginPosition}
    (h : (openPosition id dto).eval sql.handler d = (.ok p, d')) (hpair : d.pairs.find dto.pairConfigId = some c) :
    AboveMaintenance p c p.entryPrice ↔ dto.leverage * c.maintenanceMarginRate < 1 := by
  obtain ⟨c', entryPrice, b, hopens, rfl, -⟩ := openPosition_ok h
  obtain rfl : c' = c := Option.some.inj (hopens.pair.symm.trans hpair)
  exact newPosition_aboveMaintenance_iff (lt_of_lt_of_le (by norm_num) hvalid.collateral_min) hopens.entryPrice_pos

end Positions

/-- A request for a pair with a maintenance rate. -/
def ratedPair (rate : Option ℚ) : CreateMarginPairConfigDto :=
  { baseAssetId := 1, quoteAssetId := 2, maintenanceMarginRate := rate }

theorem ratedPair_valid {rate : Option ℚ} (h : ∀ x, rate = some x → 0 ≤ x) : (ratedPair rate).Valid where
  maxLeverage_min _ hx := by cases hx
  initialMarginRate_nonneg _ hx := by cases hx
  maintenanceMarginRate_nonneg := h
  volatilityPct_nonneg _ hx := by cases hx
  volatilityLeverageFactor_nonneg _ hx := by cases hx
  marginCallThresholdRatio_min _ hx := by cases hx

/-- The tables after the pair was created, with a hundred units of its quote asset held by user
1. -/
def ratedDb (rate : Option ℚ) : MarginDb :=
  MarginDb.after { shortDb with pairs := .empty } (create 1 (ratedPair rate))

/-- User 1 opens a LONG position without leverage. -/
def unleveraged : OpenMarginPositionDto := ⟨1, 1, .long, 100, 1, none⟩

theorem unleveraged_valid : unleveraged.Valid where
  collateral_min := by decide +kernel
  leverage_min := by decide +kernel
  entryPrice_nonneg _ hp := by cases hp

/-- The opening passes the checks, whatever the maintenance rate of the pair. -/
theorem opens_unleveraged (rate : Option ℚ) :
    Opens (ratedDb rate) 1 unleveraged (newPairConfig 1 (ratedPair rate)) 100
      { userId := 1, assetId := 2, balance := 100, lockedBalance := 0 } where
  pair := rfl
  enabled := rfl
  leverage := by
    -- the default volatility caps the leverage at 1
    have hcap : calculateEffectiveMaxLeverage (newPairConfig 1 (ratedPair rate)) = 1 := by
      show (if (50 : ℚ) ≤ 0 ∨ (2 : ℚ) ≤ 0 then (10 : ℚ) else min 10 (max 1 (⌊1 / ((50 : ℚ) / 100 * 2)⌋ : ℚ))) = 1
      decide +kernel
    rw [hcap]
    rfl
  initialMargin := by
    show (1 / 10 : ℚ) ≤ 1 / 1 + 1 / 100000000
    decide +kernel
  price := ⟨⟨1, 100⟩, rfl, rfl⟩
  entryPrice_pos := by decide +kernel
  balance := rfl
  available := by decide +kernel
  fresh := rfl

/-- With the default rate. -/
theorem admitted_aboveMaintenance_default :
    AboveMaintenance (newPosition 1 unleveraged (newPairConfig 1 (ratedPair none)) 100)
      (newPairConfig 1 (ratedPair none)) 100 ↔ 1 * (newPairConfig 1 (ratedPair none)).maintenanceMarginRate < 1 :=
  admitted_aboveMaintenance_iff unleveraged_valid (eval_openPosition_of_opens (opens_unleveraged none))
    (opens_unleveraged none).pair

/-- **A position that is liquidatable at its entry price**: the validation admits a maintenance rate
of 1, and the admission does not read it. -/
theorem liquidatable_at_entry :
    (ratedPair (some 1)).Valid ∧ unleveraged.Valid ∧ ∃ p d',
      (openPosition 1 unleveraged).eval sql.handler (ratedDb (some 1)) = (.ok p, d') ∧
        ¬ AboveMaintenance p (newPairConfig 1 (ratedPair (some 1))) p.entryPrice := by
  refine ⟨ratedPair_valid fun x hx => ?_, unleveraged_valid, _, _,
    eval_openPosition_of_opens (opens_unleveraged (some 1)), ?_⟩
  · rw [← Option.some.inj hx]
    exact zero_le_one
  · decide +kernel

end Margin
