import PeerX.Margin.Runs
import PeerX.Orders.Locking

/-!
# Margin: locked collateral

Margin positions and SELL orders lock the same balance rows. In every reachable state a locked
balance is what the orders locked and the collateral of the open positions; so no release is
clamped, and no locked balance is negative. It stays within the balance as long as the loss of a
closed position fits into what is available: a liquidation settles at least zero, `closePosition`
settles the equity as it is.

## Main results

* `ledger_step`: every step keeps the ledger
* `locksBounded_step_iff`: a step keeps the locks bounded exactly when the loss is available
* `locks_bounded_iff`: the same for every run
-/

namespace Margin

open Relational Concurrency
open Orders (UserBalance lockedBalanceOf lockSurplus lockShare SoundRows SharesLocked WithinBalances)

/-- The balance row that holds the collateral of the position. -/
def MarginPosition.balanceKey (pairs : Table MarginPairConfig.id) (p : MarginPosition) :
    Option (ℕ × ℕ) :=
  (pairs.find p.pairConfigId).map fun c => (p.userId, c.quoteAssetId)

/-- The collateral of an open position of the user and quote asset `k`. -/
def heldCollateral (pairs : Table MarginPairConfig.id) (k : ℕ × ℕ) (p : MarginPosition) : ℚ :=
  if p.Open ∧ p.balanceKey pairs = some k then p.collateral else 0

/-- The ledger of the collateral: what is locked beyond the orders is the collateral of the open
positions. -/
structure CollateralLedger (d : MarginDb) : Prop where
  orders : SoundRows d.exchange
  collateral_pos : ∀ p ∈ d.positions.rows, 0 < p.collateral
  surplus : ∀ k, lockSurplus d.exchange k = d.positions.sum (heldCollateral d.pairs k)

/-- The locked balances are between zero and the balances. -/
def LocksBounded (d : MarginDb) : Prop :=
  ∀ b ∈ d.exchange.balances.rows, 0 ≤ b.lockedBalance ∧ b.lockedBalance ≤ b.balance

instance (d : MarginDb) : Decidable (LocksBounded d) :=
  inferInstanceAs (Decidable (∀ b ∈ d.exchange.balances.rows, _))

/-- The position that is closed leaves a loss that the available balance covers. -/
def LossAvailable (d : MarginDb) : Event → Prop
  | .closePosition _ positionId currentPrice =>
    ∀ p ∈ d.positions.find positionId, p.Open → ∀ c ∈ d.pairs.find p.pairConfigId,
      ∀ b ∈ d.exchange.balances.find (p.userId, c.quoteAssetId),
        0 ≤ b.availableBalance + p.equityAt currentPrice
  | _ => True

instance (d : MarginDb) : ∀ e : Event, Decidable (LossAvailable d e)
  | .closePosition _ positionId currentPrice =>
    inferInstanceAs (Decidable (∀ p ∈ d.positions.find positionId, p.Open →
      ∀ c ∈ d.pairs.find p.pairConfigId,
        ∀ b ∈ d.exchange.balances.find (p.userId, c.quoteAssetId),
          0 ≤ b.availableBalance + p.equityAt currentPrice))
  | .order _ => .isTrue trivial
  | .openPosition _ _ _ => .isTrue trivial
  | .liquidatePosition _ _ _ => .isTrue trivial
  | .accrueDailyInterest _ _ => .isTrue trivial

/-- The tables before the first request: nothing is locked, and no balance is negative. -/
structure Initial (d : MarginDb) : Prop where
  exchange : Orders.Initial d.exchange
  positions : d.positions.rows = []
  balance_nonneg : ∀ b ∈ d.exchange.balances.rows, 0 ≤ b.balance

section Ledger

variable {d : MarginDb} {p p' : MarginPosition} {c : MarginPairConfig}

theorem heldCollateral_nonneg {pairs : Table MarginPairConfig.id} {k : ℕ × ℕ}
    (h : 0 < p.collateral) : 0 ≤ heldCollateral pairs k p := by
  unfold heldCollateral
  split
  · exact h.le
  · exact le_rfl

theorem CollateralLedger.sharesLocked (h : CollateralLedger d) : SharesLocked d.exchange := by
  intro k
  rw [h.surplus]
  exact Table.sum_nonneg fun p hp => heldCollateral_nonneg (h.collateral_pos p hp)

theorem CollateralLedger.locked_nonneg (h : CollateralLedger d) (k : ℕ × ℕ) :
    0 ≤ lockedBalanceOf d.exchange.balances k :=
  h.sharesLocked.lockedBalanceOf_nonneg h.orders k

/-- The locks are bounded when they are within the balances. -/
theorem CollateralLedger.locksBounded_iff (h : CollateralLedger d) :
    LocksBounded d ↔ WithinBalances d.exchange := by
  constructor
  · intro hb b hmem
    exact (hb b hmem).2
  · intro hw b hmem
    have hnonneg := h.locked_nonneg b.key
    rw [Orders.lockedBalanceOf_of_find (Table.find_of_mem hmem)] at hnonneg
    exact ⟨hnonneg, hw b hmem⟩

theorem Running.mem (h : Running d p c) : p ∈ d.positions.rows := Table.mem_of_find h.position

theorem Running.balanceKey (h : Running d p c) :
    p.balanceKey d.pairs = some (p.userId, c.quoteAssetId) := by
  simp [MarginPosition.balanceKey, h.pair]

theorem Running.held (h : Running d p c) (k : ℕ × ℕ) :
    heldCollateral d.pairs k p = if (p.userId, c.quoteAssetId) = k then p.collateral else 0 := by
  simp [heldCollateral, h.isOpen, h.balanceKey]

/-- The collateral of an open position is locked, in a row that exists. -/
theorem CollateralLedger.collateral_le (h : CollateralLedger d) (hrun : Running d p c) :
    p.collateral ≤ lockedBalanceOf d.exchange.balances (p.userId, c.quoteAssetId) := by
  have hheld := hrun.held (p.userId, c.quoteAssetId)
  rw [if_pos rfl] at hheld
  calc p.collateral = heldCollateral d.pairs (p.userId, c.quoteAssetId) p := hheld.symm
    _ ≤ d.positions.sum (heldCollateral d.pairs (p.userId, c.quoteAssetId)) :=
        Table.le_sum (fun q hq => heldCollateral_nonneg (h.collateral_pos q hq)) hrun.mem
    _ = lockSurplus d.exchange (p.userId, c.quoteAssetId) := (h.surplus _).symm
    _ ≤ _ := sub_le_self _ (Table.sum_nonneg fun o ho => Orders.lockShare_nonneg (h.orders o ho))

theorem CollateralLedger.balance_isSome (h : CollateralLedger d) (hrun : Running d p c) :
    ∃ b, d.exchange.balances.find (p.userId, c.quoteAssetId) = some b ∧
      p.collateral ≤ b.lockedBalance := by
  have hle := h.collateral_le hrun
  cases hb : d.exchange.balances.find (p.userId, c.quoteAssetId) with
  | none =>
    rw [lockedBalanceOf, hb] at hle
    exact absurd hle (not_le.mpr (h.collateral_pos p hrun.mem))
  | some b =>
    rw [Orders.lockedBalanceOf_of_find hb] at hle
    exact ⟨b, rfl, hle⟩

/-- The locked balances after a settlement: the collateral is released. -/
theorem lockedBalanceOf_settled {balances : Table UserBalance.key} {k₀ : ℕ × ℕ} {b : UserBalance}
    (hb : balances.find k₀ = some b) {collateral : ℚ} (hle : collateral ≤ b.lockedBalance)
    (equity : ℚ) (k : ℕ × ℕ) :
    lockedBalanceOf (settledBalances balances k₀ collateral equity) k =
      lockedBalanceOf balances k - if k₀ = k then collateral else 0 := by
  have hkey : (settledBalance b collateral equity).key = k₀ :=
    show b.key = k₀ from Table.key_of_find hb
  by_cases hk : k₀ = k
  · subst hk
    rw [if_pos rfl, Orders.lockedBalanceOf_of_find hb]
    have hfind : (settledBalances balances k₀ collateral equity).find k₀ =
        some (settledBalance b collateral equity) := by
      rw [settledBalances, hb]
      show (balances.save _).find k₀ = _
      rw [Table.find_save, if_pos hkey.symm]
    rw [Orders.lockedBalanceOf_of_find hfind]
    exact max_eq_right (sub_nonneg.mpr hle)
  · have hfind : (settledBalances balances k₀ collateral equity).find k = balances.find k := by
      rw [settledBalances, hb]
      exact Table.find_save_of_ne _ (hkey ▸ Ne.symm hk)
    rw [if_neg hk, sub_zero, lockedBalanceOf, lockedBalanceOf, hfind]

/-- A settlement moves the collateral of the position out of the ledger. -/
theorem CollateralLedger.settle (h : CollateralLedger d) (hrun : Running d p c) (hid : p'.id = p.id)
    (hcollateral : p'.collateral = p.collateral) (hclosed : ¬ p'.Open) (equity : ℚ) :
    CollateralLedger (d.settle p p' c.quoteAssetId equity) := by
  obtain ⟨b, hb, hle⟩ := h.balance_isSome hrun
  refine ⟨h.orders, fun q hq => ?_, fun k => ?_⟩
  · rcases Table.mem_save.mp hq with rfl | ⟨hq, -⟩
    · exact hcollateral ▸ h.collateral_pos p hrun.mem
    · exact h.collateral_pos q hq
  · have hsurplus := h.surplus k
    have hheld' : heldCollateral d.pairs k p' = 0 := if_neg fun hc => hclosed hc.1
    simp only [lockSurplus, MarginDb.settle, MarginDb.withBalances] at hsurplus ⊢
    rw [lockedBalanceOf_settled hb hle, Table.sum_save hrun.mem hid, hheld', hrun.held]
    linarith

/-- An opened position adds its collateral to the ledger. -/
theorem CollateralLedger.enter (h : CollateralLedger d) {id : ℕ} {dto : OpenMarginPositionDto}
    {entryPrice : ℚ} {b : UserBalance} (hopens : Opens d id dto c entryPrice b)
    (hvalid : dto.Valid) : CollateralLedger (d.enter (newPosition id dto c entryPrice) b) := by
  have hpos : 0 < dto.collateral := lt_of_lt_of_le (by norm_num) hvalid.collateral_min
  refine ⟨h.orders, fun q hq => ?_, fun k => ?_⟩
  · rcases Table.mem_save.mp hq with rfl | ⟨hq, -⟩
    · exact hpos
    · exact h.collateral_pos q hq
  · have hsurplus := h.surplus k
    have hid : c.id = dto.pairConfigId := Table.key_of_find hopens.pair
    have hheld : heldCollateral d.pairs k (newPosition id dto c entryPrice) =
        if (dto.userId, c.quoteAssetId) = k then dto.collateral else 0 := by
      simp [heldCollateral, MarginPosition.balanceKey, newPosition, MarginPosition.Open, hid,
        hopens.pair]
    simp only [lockSurplus, MarginDb.enter, MarginDb.withBalances, UserBalance.lock] at hsurplus ⊢
    rw [Orders.lockedBalanceOf_relock hopens.balance,
      Table.sum_save_new (show d.positions.find (newPosition id dto c entryPrice).id = none from
        hopens.fresh), hheld]
    by_cases hk : (dto.userId, c.quoteAssetId) = k
    · subst hk
      rw [if_pos rfl, if_pos rfl]
      rw [Orders.lockedBalanceOf_of_find hopens.balance] at hsurplus
      simp only [newPosition]
      linarith
    · rw [if_neg hk, if_neg hk, hsurplus, add_zero]

theorem CollateralLedger.charge {clock : ℕ → ℤ} {today : ℕ} {d' : MarginDb}
    (h : CollateralLedger d) (hc : Charge clock today d d') : CollateralLedger d' := by
  cases hc with
  | @intro p c hrun hborrowed hnone =>
    refine ⟨h.orders, fun q hq => ?_, fun k => ?_⟩
    · rcases Table.mem_save.mp hq with rfl | ⟨hq, -⟩
      · exact h.collateral_pos p hrun.mem
      · exact h.collateral_pos q hq
    · have hheld : heldCollateral d.pairs k (p.charged c (clock p.id)) =
          heldCollateral d.pairs k p := rfl
      simp only [MarginDb.charge]
      rw [Table.sum_save_of_eq (r := p.charged c (clock p.id)) hrun.mem rfl hheld]
      exact h.surplus k

/-- The charges of an accrual run keep the ledger and the balances. -/
theorem CollateralLedger.charges {clock : ℕ → ℤ} {today : ℕ} {d' : MarginDb}
    (h : CollateralLedger d) (hc : Relation.ReflTransGen (Charge clock today) d d') :
    CollateralLedger d' ∧ d'.exchange = d.exchange := by
  induction hc with
  | refl => exact ⟨h, rfl⟩
  | tail _ hcharge ih =>
    refine ⟨ih.1.charge hcharge, ?_⟩
    obtain ⟨-, -, -⟩ := hcharge
    exact ih.2

/-- Every event keeps the ledger. -/
theorem Moved.ledger {d' : MarginDb} {e : Event} (h : CollateralLedger d) (hm : Moved d e d') :
    CollateralLedger d' := by
  cases hm with
  | order e =>
    refine ⟨Orders.sound_step d.exchange e h.orders, h.collateral_pos, fun k => ?_⟩
    exact ((Orders.locks_step e h.orders h.sharesLocked).1 k).trans (h.surplus k)
  | @opened id dto valid c entryPrice b hopens => exact h.enter hopens valid
  | @closed now currentPrice p c hrun =>
    exact h.settle hrun (p.asClosed_id now currentPrice) rfl (p.asClosed_not_open now currentPrice) _
  | @liquidated now currentPrice p c hrun =>
    exact h.settle hrun (p.asLiquidated_id now currentPrice) rfl
      (p.asLiquidated_not_open now currentPrice) _
  | accrued hcharges => exact (h.charges hcharges).1

theorem ledger_step (d : MarginDb) (e : Event) (h : CollateralLedger d) :
    CollateralLedger (step d e) := by
  rcases step_moved d e with hd | hm
  · exact hd.symm ▸ h
  · exact hm.ledger h

/-- A settlement stays within the balances exactly when what is available covers the loss. -/
theorem withinBalances_settle_iff (hw : WithinBalances d.exchange) {b : UserBalance}
    (hb : d.exchange.balances.find (p.userId, c.quoteAssetId) = some b)
    (hle : p.collateral ≤ b.lockedBalance) (equity : ℚ) :
    WithinBalances (d.settle p p' c.quoteAssetId equity).exchange ↔
      0 ≤ b.availableBalance + equity := by
  have hsettled : (settledBalance b p.collateral equity).lockedBalance ≤
      (settledBalance b p.collateral equity).balance ↔ 0 ≤ b.availableBalance + equity := by
    simp only [settledBalance, UserBalance.availableBalance, max_eq_right (sub_nonneg.mpr hle)]
    constructor <;> intro h <;> linarith
  have hbalances : (d.settle p p' c.quoteAssetId equity).exchange.balances =
      d.exchange.balances.save (settledBalance b p.collateral equity) := by
    simp only [MarginDb.settle, MarginDb.withBalances, settledBalances, hb]
  unfold WithinBalances
  rw [hbalances, ← hsettled]
  constructor
  · intro h
    exact h _ (Table.mem_save_self _ _)
  · intro h x hx
    rcases Table.mem_save.mp hx with rfl | ⟨hx, -⟩
    · exact h
    · exact hw x hx

theorem withinBalances_enter (hw : WithinBalances d.exchange) {b : UserBalance}
    (havail : p.collateral ≤ b.availableBalance) :
    WithinBalances (d.enter p b).exchange := by
  intro x hx
  rcases Table.mem_save.mp hx with rfl | ⟨hx, -⟩
  · unfold UserBalance.availableBalance at havail
    simp only [UserBalance.lock]
    linarith
  · exact hw x hx

theorem availableBalance_nonneg (hw : WithinBalances d.exchange) {b : UserBalance} {k : ℕ × ℕ}
    (hb : d.exchange.balances.find k = some b) : 0 ≤ b.availableBalance :=
  sub_nonneg.mpr (hw b (Table.mem_of_find hb))

/-- **A step keeps the locks bounded** exactly when the loss of a closed position is available. -/
theorem locksBounded_step_iff (d : MarginDb) (e : Event) (h : CollateralLedger d)
    (hd : LocksBounded d) : LocksBounded (step d e) ↔ LossAvailable d e := by
  have hw := h.locksBounded_iff.mp hd
  rw [(ledger_step d e h).locksBounded_iff]
  have hstay : step d e = d → WithinBalances (step d e).exchange := fun he => he.symm ▸ hw
  cases e with
  | order e => exact iff_of_true ((Orders.locks_step e h.orders h.sharesLocked).2 hw) trivial
  | openPosition id dto valid =>
    refine iff_of_true ?_ trivial
    rcases step_moved d (.openPosition id dto valid) with hstep | hm
    · exact hstay hstep
    · generalize step d (.openPosition id dto valid) = d' at hm ⊢
      cases hm with
      | opened hopens => exact withinBalances_enter hw hopens.available
  | closePosition now positionId currentPrice =>
    -- a closed position settles with its equity, which may be a loss
    constructor
    · intro hwithin p hp hopen c hc b hb
      obtain rfl : p.id = positionId := Table.key_of_find hp
      have hrun : Running d p c := ⟨hp, hopen, hc⟩
      obtain ⟨b', hb', hle⟩ := h.balance_isSome hrun
      obtain rfl : b = b' := Option.some.inj (hb.symm.trans hb')
      have hstep : step d (.closePosition now p.id currentPrice) = _ :=
        MarginDb.after_of_eval (eval_closePosition_of_open hrun now currentPrice)
      rw [hstep] at hwithin
      exact (withinBalances_settle_iff hw hb hle _).mp hwithin
    · intro hloss
      rcases step_moved d (.closePosition now positionId currentPrice) with hstep | hm
      · exact hstay hstep
      · generalize step d (.closePosition now positionId currentPrice) = d' at hm ⊢
        cases hm with
        | @closed _ _ p c hrun =>
          obtain ⟨b, hb, hle⟩ := h.balance_isSome hrun
          exact (withinBalances_settle_iff hw hb hle _).mpr
            (hloss p hrun.position hrun.isOpen c hrun.pair b hb)
  | liquidatePosition now positionId currentPrice =>
    refine iff_of_true ?_ trivial
    rcases step_moved d (.liquidatePosition now positionId currentPrice) with hstep | hm
    · exact hstay hstep
    · generalize step d (.liquidatePosition now positionId currentPrice) = d' at hm ⊢
      cases hm with
      | @liquidated _ _ p c hrun =>
        -- the settled equity is clamped at zero
        obtain ⟨b, hb, hle⟩ := h.balance_isSome hrun
        refine (withinBalances_settle_iff hw hb hle _).mpr ?_
        exact add_nonneg (availableBalance_nonneg hw hb) (le_max_left _ _)
  | accrueDailyInterest clock today =>
    refine iff_of_true ?_ trivial
    rcases step_moved d (.accrueDailyInterest clock today) with hstep | hm
    · exact hstay hstep
    · -- the interest of a position touches no balance
      generalize step d (.accrueDailyInterest clock today) = d' at hm ⊢
      cases hm with
      | accrued hcharges => exact (h.charges hcharges).2.symm ▸ hw

end Ledger

theorem Initial.ledger {d : MarginDb} (h : Initial d) : CollateralLedger d := by
  refine ⟨h.exchange.sound, fun p hp => ?_, fun k => ?_⟩
  · rw [h.positions] at hp
    cases hp
  · have hsum : d.positions.sum (heldCollateral d.pairs k) = 0 := by simp [Table.sum, h.positions]
    rw [hsum]
    exact Orders.lockLedger_iff.mp h.exchange.lockLedger k

theorem Initial.locksBounded {d : MarginDb} (h : Initial d) : LocksBounded d := by
  intro b hb
  have hzero := h.exchange.unlocked b hb
  exact ⟨hzero.ge, hzero ▸ h.balance_nonneg b hb⟩

theorem shortDb_initial : Initial shortDb :=
  ⟨⟨rfl, rfl, rfl, by decide +kernel⟩, rfl, by decide +kernel⟩

/-- User 1 opens a short position with all of the balance. -/
def openShort : Event :=
  .openPosition 1 ⟨1, 1, .short, 100, 1, none⟩
    ⟨by norm_num, le_rfl, by intro p hp; cases hp⟩

/-- **The locked balances are bounded throughout a run** exactly when every position is closed at a
loss that the available balance covers. -/
theorem locks_bounded_iff {d : MarginDb} (hd : Initial d) (es : List Event) :
    Throughout step LocksBounded d es ↔ Along step LossAvailable d es :=
  throughout_iff_along ledger_step locksBounded_step_iff hd.ledger hd.locksBounded

/-- A short position over all of a balance, closed at a gain. -/
theorem locks_bounded_gain : Throughout step LocksBounded shortDb
    [openShort, .closePosition 0 1 50] :=
  (locks_bounded_iff shortDb_initial _).mpr ⟨by decide +kernel, by decide +kernel, trivial⟩

/-- The same position, closed when the price has tripled: the equity is negative, and it takes the
balance below zero. -/
theorem balance_negative_after_close : Initial shortDb ∧ ¬ Throughout step LocksBounded shortDb
    [openShort, .closePosition 0 1 300] := by
  refine ⟨shortDb_initial, ?_⟩
  rintro ⟨-, -, h⟩
  have hbounded : LocksBounded (run step shortDb [openShort, .closePosition 0 1 300]) := h
  revert hbounded
  decide +kernel

end Margin
