import PeerX.Protection.InsuranceFund
import PeerX.Foundations.Runs

/-!
# Protection: fund health

After each change of its balance a fund is updated: its percentage is calculated, and an alert is
emitted when the percentage is below the threshold and the stored one was not. The column of the
percentage keeps two decimals, so that a percentage just below the threshold is stored as the
threshold itself. The status is stored with it, and is the one of the percentage that was
calculated. The rounding of the calculation matters only next to the threshold.

## Main results

* `toColumn_lt_threshold`: which percentages are stored below the threshold
* `InsuranceFund.Clear.percent_lt_iff`: the percentage and the true ratio are on the same side of a
  bound
* `alerts_match_iff`: the alerts match exactly when the fund never lingers
-/

namespace Protection

open Concurrency Arithmetic

structure FundHealthAlertEvent where
  fundId : ℕ
  tier : String
  healthPercent : ℚ
  balance : ℚ
  targetReserve : ℚ
deriving DecidableEq

structure FundHealthMetrics where
  fundId : ℕ
  tier : String
  asset : String
  balance : ℚ
  targetReserve : ℚ
  healthPercent : ℚ
  healthStatus : FundHealthStatus
  isBelowThreshold : Bool
deriving DecidableEq

/-- The text of a tier that may not be loaded. -/
def tierText (tier : Option InsuranceFundTier) : String := (tier.map fun tier => tier.tier.text).getD "UNKNOWN"

namespace InsuranceFund

/-- The row that a save stores. -/
def stored (fund : InsuranceFund) : InsuranceFund := { fund with healthPercent := toColumn 2 fund.healthPercent }

/-- `updateFundHealth` on the row of a fund: the row after it, and the alert that it emits. -/
def updateHealth (fund : InsuranceFund) (tier : Option InsuranceFundTier) :
    InsuranceFund × Option FundHealthAlertEvent :=
  let previousPercent := fund.healthPercent
  let updated := fund.refreshed
  (updated.stored,
    if updated.healthPercent < healthWarningThreshold ∧ healthWarningThreshold ≤ previousPercent then
      some ⟨fund.id, tierText tier, updated.healthPercent, fund.balance, fund.targetReserve⟩
    else none)

def toMetrics (fund : InsuranceFund) (tier : Option InsuranceFundTier) : FundHealthMetrics where
  fundId := fund.id
  tier := tierText tier
  asset := fund.asset
  balance := fund.balance
  targetReserve := fund.targetReserve
  healthPercent := fund.healthPercent
  healthStatus := fund.healthStatus
  isBelowThreshold := fund.healthPercent < healthWarningThreshold

/-- The true ratio. -/
def ratio (fund : InsuranceFund) : ℚ := fund.balance / fund.targetReserve

/-- The true ratio is below 20 percent. -/
def Below (fund : InsuranceFund) : Prop := fund.ratio < 20 / 100

instance (fund : InsuranceFund) : Decidable fund.Below := inferInstanceAs (Decidable (_ < _))

/-- The fund lingers just below the threshold: its percentage is stored as the threshold. -/
def Lingers (fund : InsuranceFund) : Prop := 19995 / 100000 < fund.ratio ∧ fund.ratio < 20 / 100

instance (fund : InsuranceFund) : Decidable fund.Lingers := inferInstanceAs (Decidable (_ ∧ _))

/-- No rounding takes the fund over the bound: the ratio is not next to the bound, or it is the
bound, and its numbers are doubles. -/
def Clear (fund : InsuranceFund) (bound : ℚ) : Prop :=
  1 / 10 ^ 16 ≤ |fund.ratio - bound| ∨
    fund.ratio = bound ∧ double fund.balance = fund.balance ∧ double fund.targetReserve = fund.targetReserve

instance (fund : InsuranceFund) (bound : ℚ) : Decidable (fund.Clear bound) := inferInstanceAs (Decidable (_ ∨ _ ∧ _ ∧ _))

/-- The fund is clear of the threshold, and of the ratio from which on it is stored as the
threshold. -/
def Distinct (fund : InsuranceFund) : Prop := fund.Clear (20 / 100) ∧ fund.Clear (19995 / 100000)

instance (fund : InsuranceFund) : Decidable fund.Distinct := inferInstanceAs (Decidable (_ ∧ _))

/-- The fund after a change of its balance and an update. -/
def afterChange (tier : Option InsuranceFundTier) (fund : InsuranceFund) (balance : ℚ) : InsuranceFund :=
  ({ fund with balance := balance }.updateHealth tier).1

/-- The alerts that are emitted by a change of the balance and an update. -/
def alerts (tier : Option InsuranceFundTier) (fund : InsuranceFund) (balance : ℚ) : List FundHealthAlertEvent :=
  ({ fund with balance := balance }.updateHealth tier).2.toList

/-- One alert is emitted when the true ratio goes below the threshold, and none otherwise. -/
def AlertMatches (tier : Option InsuranceFundTier) (fund : InsuranceFund) (balance : ℚ) : Prop :=
  (fund.alerts tier balance).length =
    if ¬ fund.Below ∧ (fund.afterChange tier balance).Below then 1 else 0

/-- The dashboard shows the fund below the threshold when its status says so. -/
def DashboardMatches (tier : Option InsuranceFundTier) (fund : InsuranceFund) : Prop :=
  (fund.toMetrics tier).isBelowThreshold = true ↔ fund.healthStatus = .critical ∨ fund.healthStatus = .depleted

end InsuranceFund

open InsuranceFund

/-- The alerts match: after an update, and through all changes that follow. -/
def AlertsMatch (tier : Option InsuranceFundTier) (fund : InsuranceFund) (balances : List ℚ) : Prop :=
  Along (afterChange tier) (AlertMatches tier) fund balances ∧
    Throughout (afterChange tier) (DashboardMatches tier) fund balances

/-- **Which percentages are stored below the threshold.** -/
theorem toColumn_lt_threshold (percent : ℚ) : toColumn 2 percent < healthWarningThreshold ↔ percent < 19995 / 1000 := by
  unfold toColumn healthWarningThreshold
  rw [show (10 : ℚ) ^ 2 = 100 by norm_num]
  split
  next hnonneg =>
    rw [div_lt_iff₀ (by norm_num)]
    have hfloor : (⌊percent * 100 + 1 / 2⌋ : ℚ) < 20 * 100 ↔ ⌊percent * 100 + 1 / 2⌋ < 2000 := by
      rw [← Int.cast_lt (R := ℚ)]
      norm_num
    rw [hfloor, Int.floor_lt]
    constructor
    · intro h
      push_cast at h
      linarith
    · intro h
      push_cast
      linarith
  next hneg =>
    have hfloor : (0 : ℚ) ≤ (⌊-percent * 100 + 1 / 2⌋ : ℚ) := by
      exact_mod_cast Int.floor_nonneg.mpr (by linarith)
    exact iff_of_true (by linarith [div_nonneg hfloor (by norm_num : (0 : ℚ) ≤ 100)]) (by linarith)

/-- The status says that the percentage is below the threshold. -/
theorem resolveHealthStatus_below (percent : ℚ) :
    resolveHealthStatus percent = .critical ∨ resolveHealthStatus percent = .depleted ↔
      percent < healthWarningThreshold := by
  unfold resolveHealthStatus healthWarningThreshold
  split
  next h => exact iff_of_true (.inr rfl) (by linarith)
  next =>
    split
    next h => exact iff_of_true (.inl rfl) h
    next h =>
      refine iff_of_false ?_ h
      split <;> simp

variable {fund : InsuranceFund} {tier : Option InsuranceFundTier} {balance : ℚ}

/-- A rounding is a factor next to one. -/
theorem exists_double_eq (x : ℚ) : ∃ δ : ℚ, |δ| ≤ 1 / 2 ^ 53 ∧ double x = x * (1 + δ) := by
  have herror := abs_double_sub_le x
  rcases eq_or_ne x 0 with rfl | hx
  · exact ⟨0, by norm_num, by simpa using herror⟩
  · refine ⟨(double x - x) / x, ?_, ?_⟩
    · rw [abs_div, div_le_iff₀ (abs_pos.mpr hx)]
      linarith
    · rw [mul_add, mul_div_cancel₀ _ hx]
      ring

namespace InsuranceFund

variable {fund : InsuranceFund} {bound : ℚ}

/-- The percentage that is calculated, before it is cut off at 100. -/
def percent (fund : InsuranceFund) : ℚ := double (double (double fund.balance / double fund.targetReserve) * 100)

/-- The percentage is the true one up to a factor next to one. -/
theorem exists_percent_eq (fund : InsuranceFund) :
    ∃ k : ℚ, 1 - 45 / 10 ^ 17 ≤ k ∧ k ≤ 1 + 45 / 10 ^ 17 ∧ fund.percent = 100 * fund.ratio * k := by
  obtain ⟨b, hb, ebalance⟩ := exists_double_eq fund.balance
  obtain ⟨t, ht, etarget⟩ := exists_double_eq fund.targetReserve
  obtain ⟨q, hq, equotient⟩ := exists_double_eq (double fund.balance / double fund.targetReserve)
  obtain ⟨p, hp, eproduct⟩ := exists_double_eq (double (double fund.balance / double fund.targetReserve) * 100)
  rw [abs_le] at hb ht hq hp
  have hpos : 0 < 1 + t := by linarith
  refine ⟨(1 + b) * (1 + q) * (1 + p) / (1 + t), ?_, ?_, ?_⟩
  · have htwo : (1 - 1 / 2 ^ 53) * (1 - 1 / 2 ^ 53) ≤ (1 + b) * (1 + q) :=
      mul_le_mul (by linarith) (by linarith) (by norm_num) (by linarith)
    have hthree : (1 - 1 / 2 ^ 53) * (1 - 1 / 2 ^ 53) * (1 - 1 / 2 ^ 53) ≤ (1 + b) * (1 + q) * (1 + p) :=
      mul_le_mul htwo (by linarith) (by norm_num) (le_trans (by norm_num) htwo)
    rw [le_div_iff₀ hpos]
    linarith
  · have htwo : (1 + b) * (1 + q) ≤ (1 + 1 / 2 ^ 53) * (1 + 1 / 2 ^ 53) :=
      mul_le_mul (by linarith) (by linarith) (by linarith) (by norm_num)
    have hthree : (1 + b) * (1 + q) * (1 + p) ≤ (1 + 1 / 2 ^ 53) * (1 + 1 / 2 ^ 53) * (1 + 1 / 2 ^ 53) :=
      mul_le_mul htwo (by linarith) (by linarith) (by norm_num)
    rw [div_le_iff₀ hpos]
    linarith
  · rw [percent, eproduct, equotient, ebalance, etarget, mul_div_mul_comm, ratio]
    ring

/-- **The percentage is below a bound** when the true ratio is. At the bound itself it is what the
calculation gives for the bound. -/
theorem Clear.percent_lt_iff (h : fund.Clear bound) (hpos : 1 / 10 ≤ bound) (hle : bound ≤ 20 / 100) :
    fund.percent < bound * 100 ↔
      fund.ratio < bound ∨ fund.ratio = bound ∧ double (double bound * 100) < bound * 100 := by
  rcases h with hfar | ⟨hratio, hbalance, htarget⟩
  · obtain ⟨k, hk, hk', hpercent⟩ := fund.exists_percent_eq
    have hne : fund.ratio ≠ bound := by
      intro h
      rw [h, sub_self, abs_zero] at hfar
      norm_num at hfar
    rw [hpercent, or_iff_left fun h => hne h.1]
    rcases le_abs.mp hfar with hfar | hfar
    · -- the ratio is above the bound, by more than the factor takes off
      have hmul := mul_le_mul (show bound + 1 / 10 ^ 16 ≤ fund.ratio by linarith) hk (by norm_num) (by linarith)
      exact iff_of_false (by linarith) (by linarith)
    · have hmul := mul_le_mul_of_nonneg_right (show fund.ratio ≤ bound - 1 / 10 ^ 16 by linarith)
        (show 0 ≤ k by linarith)
      have hmul' := mul_le_mul_of_nonneg_left hk' (show 0 ≤ bound - 1 / 10 ^ 16 by linarith)
      exact iff_of_true (by linarith) (by linarith)
  · rw [percent, hbalance, htarget, show fund.balance / fund.targetReserve = bound from hratio, hratio]
    simp

theorem refreshed_lt_iff (htarget : 0 < fund.targetReserve) (hbound : bound ≤ 100) :
    fund.refreshed.healthPercent < bound ↔ fund.percent < bound := by
  obtain ⟨t, ht, etarget⟩ := exists_double_eq fund.targetReserve
  have hpos : 0 < double fund.targetReserve := by
    rw [etarget]
    exact mul_pos htarget (by linarith [(abs_le.mp ht).1])
  show calculateHealthPercent _ _ < _ ↔ _
  rw [calculateHealthPercent, if_neg (not_le.mpr hpos), min_lt_iff, or_iff_right (not_lt.mpr hbound)]
  rfl

/-- The percentage is below the threshold when the true ratio is. -/
theorem Distinct.below_iff (h : fund.Distinct) (htarget : 0 < fund.targetReserve) :
    fund.refreshed.healthPercent < healthWarningThreshold ↔ fund.Below := by
  have hiff := h.1.percent_lt_iff (by norm_num) le_rfl
  have hbound : ¬ double (double (20 / 100) * 100) < 20 / 100 * 100 := by decide +kernel
  rw [or_iff_left fun he => hbound he.2, div_mul_cancel₀ _ (by norm_num)] at hiff
  exact (refreshed_lt_iff htarget (by norm_num [healthWarningThreshold])).trans hiff

/-- The percentage is stored below the threshold unless the fund lingers. -/
theorem Distinct.stored_below_iff (h : fund.Distinct) (htarget : 0 < fund.targetReserve) :
    toColumn 2 fund.refreshed.healthPercent < healthWarningThreshold ↔ fund.Below ∧ ¬ fund.Lingers := by
  have hiff := h.2.percent_lt_iff (by norm_num) (by norm_num)
  have hbound : double (double (19995 / 100000) * 100) < 19995 / 100000 * 100 := by decide +kernel
  rw [and_iff_left hbound, ← le_iff_lt_or_eq] at hiff
  rw [toColumn_lt_threshold, refreshed_lt_iff htarget (by norm_num)]
  refine Iff.trans (by norm_num) (hiff.trans ?_)
  unfold Below Lingers
  constructor
  · intro hle
    exact ⟨by linarith, fun hlingers => by linarith [hlingers.1]⟩
  · rintro ⟨hbelow, hnot⟩
    by_contra hge
    exact hnot ⟨not_le.mp hge, hbelow⟩

/-- The fund has been updated: its stored health is the one of its balance. -/
structure Updated (fund : InsuranceFund) : Prop where
  targetReserve : 0 < fund.targetReserve
  healthPercent : fund.healthPercent = toColumn 2 fund.refreshed.healthPercent
  healthStatus : fund.healthStatus = resolveHealthStatus fund.refreshed.healthPercent

theorem updated_updateHealth (tier : Option InsuranceFundTier) (fund : InsuranceFund) (htarget : 0 < fund.targetReserve) :
    (fund.updateHealth tier).1.Updated :=
  ⟨htarget, rfl, rfl⟩

variable {tier : Option InsuranceFundTier} {balance : ℚ}

theorem updated_afterChange (tier : Option InsuranceFundTier) (balance : ℚ) (h : fund.Updated) :
    (fund.afterChange tier balance).Updated :=
  updated_updateHealth tier { fund with balance := balance } h.targetReserve

/-- The dashboard matches unless the fund lingers. -/
theorem dashboardMatches_iff (h : fund.Updated) (hd : fund.Distinct) : fund.DashboardMatches tier ↔ ¬ fund.Lingers := by
  rw [DashboardMatches, h.healthStatus, resolveHealthStatus_below, hd.below_iff h.targetReserve, toMetrics,
    decide_eq_true_eq, h.healthPercent, hd.stored_below_iff h.targetReserve]
  constructor
  · intro hiff hlingers
    exact (hiff.mpr hlingers.2).2 hlingers
  · exact fun hnot => ⟨And.left, fun hbelow => ⟨hbelow, hnot⟩⟩

/-- The alert matches when the fund did not linger before. -/
theorem alertMatches_of_not_lingers (h : fund.Updated) (hd : fund.Distinct)
    (hd' : (fund.afterChange tier balance).Distinct) (hnot : ¬ fund.Lingers) : fund.AlertMatches tier balance := by
  have hprevious : healthWarningThreshold ≤ fund.healthPercent ↔ ¬ fund.Below := by
    rw [← not_lt, h.healthPercent, hd.stored_below_iff h.targetReserve, not_and_not_right]
    exact ⟨fun himp hbelow => hnot (himp hbelow), fun hge hbelow => absurd hbelow hge⟩
  have hnext : ({ fund with balance := balance } : InsuranceFund).refreshed.healthPercent < healthWarningThreshold ↔
      (fund.afterChange tier balance).Below :=
    hd'.below_iff h.targetReserve
  unfold AlertMatches alerts updateHealth
  simp only [hprevious, hnext, and_comm]
  split <;> rfl

end InsuranceFund

/-- **The alerts match exactly when the fund never lingers**, with balances that no rounding takes
over a bound: no update finds a ratio of more than 19.995 percent that is below 20 percent. -/
theorem alerts_match_iff (tier : Option InsuranceFundTier) (fund : InsuranceFund) (htarget : 0 < fund.targetReserve)
    (balances : List ℚ) (hdistinct : Throughout (afterChange tier) Distinct (fund.updateHealth tier).1 balances) :
    AlertsMatch tier (fund.updateHealth tier).1 balances ↔
      Throughout (afterChange tier) (fun fund => ¬ fund.Lingers) (fund.updateHealth tier).1 balances := by
  have hstart := updated_updateHealth tier fund htarget
  generalize (fund.updateHealth tier).1 = start at hstart hdistinct
  unfold AlertsMatch
  induction balances generalizing start with
  | nil => exact (and_iff_right trivial).trans (dashboardMatches_iff hstart hdistinct)
  | cons balance balances ih =>
    obtain ⟨hd, hds⟩ := hdistinct
    have hrest := ih _ (updated_afterChange tier balance hstart) hds
    constructor
    · rintro ⟨⟨-, halong⟩, hdashboard, hthroughout⟩
      exact ⟨(dashboardMatches_iff hstart hd).mp hdashboard, hrest.mp ⟨halong, hthroughout⟩⟩
    · rintro ⟨hnot, hthroughout⟩
      obtain ⟨halong, hdashboards⟩ := hrest.mpr hthroughout
      exact ⟨⟨alertMatches_of_not_lingers hstart hd hds.head hnot, halong⟩,
        (dashboardMatches_iff hstart hd).mpr hnot, hdashboards⟩

def fundOfHundred : InsuranceFund where
  id := 1
  tierId := 1
  asset := "USDT"
  balance := 50
  targetReserve := 100
  healthStatus := .healthy
  healthPercent := 50

/-- The fund goes below the threshold and comes back. -/
theorem alerts_match_iff_recovered : AlertsMatch none (fundOfHundred.updateHealth none).1 [15, 30] :=
  (alerts_match_iff none fundOfHundred (by decide +kernel) [15, 30] (by
    simp only [Throughout]
    decide +kernel)).mpr (by
    simp only [Throughout]
    decide +kernel)

def lingeringFund : InsuranceFund := (fundOfHundred.updateHealth none).1.afterChange none (19999 / 1000)

/-- **A fund that lingers is alerted twice** for one crossing, and the dashboard does not show
it. -/
theorem alerted_twice :
    ((fundOfHundred.updateHealth none).1.alerts none (19999 / 1000)).length = 1 ∧
      (lingeringFund.alerts none 15).length = 1 ∧ lingeringFund.Below ∧
      (lingeringFund.toMetrics none).isBelowThreshold = false ∧ lingeringFund.healthStatus = .critical ∧
      ¬ AlertsMatch none (fundOfHundred.updateHealth none).1 [19999 / 1000, 15] := by
  have hmetrics : (lingeringFund.toMetrics none).isBelowThreshold = false := by decide +kernel
  have hstatus : lingeringFund.healthStatus = .critical := by decide +kernel
  refine ⟨by decide +kernel, by decide +kernel, by decide +kernel, hmetrics, hstatus, fun h => ?_⟩
  have hdashboard : DashboardMatches none lingeringFund := h.2.2.1
  rw [DashboardMatches, hstatus, hmetrics] at hdashboard
  exact absurd (hdashboard.mpr (.inl rfl)) (by decide)

end Protection
