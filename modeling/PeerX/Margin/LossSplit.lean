import PeerX.Margin.Runs

/-!
# Margin: who bears a loss

A settlement releases the collateral of a position and puts the equity in its place. What a position
has lost is split by the sign of its equity: up to the collateral the user bears it, and a
liquidation reports the rest as a shortfall, for the insurance fund. So the change of the balance
and the shortfall add up to the profit after interest, whatever the signs of the two, and a
liquidation never touches what the user has available. Without a negative equity nothing is clamped,
and a liquidation leaves the balance row that closing the position leaves.
-/

namespace Margin

open Relational Concurrency
open Orders (UserBalance)

/-- What `liquidatePosition` reports: the part of a negative equity that no collateral covers. -/
def shortfallOf (equity : ℚ) : ℚ := if equity < 0 then |equity| else 0

/-- The result of a position is divided between its user, whose balance row was `b` and is `b'`,
and the insurance fund, which is asked for the shortfall. -/
structure LossSplit (p : MarginPosition) (price : ℚ) (b b' : UserBalance) (shortfall : ℚ) : Prop where
  exact : b'.balance - b.balance - shortfall = p.pnlAt price - p.accruedInterest
  bounded : b.balance - b'.balance ≤ p.collateral
  covered : 0 < shortfall ↔ p.equityAt price < 0
  available : b.availableBalance ≤ b'.availableBalance

section Settlement

variable {equity collateral : ℚ} {b : UserBalance}

theorem max_sub_shortfallOf (equity : ℚ) : max 0 equity - shortfallOf equity = equity := by
  rw [shortfallOf]
  split
  · next hneg => rw [max_eq_left hneg.le, abs_of_neg hneg, zero_sub, neg_neg]
  · next hnonneg => rw [max_eq_right (not_lt.mp hnonneg), sub_zero]

theorem shortfallOf_pos_iff (equity : ℚ) : 0 < shortfallOf equity ↔ equity < 0 := by
  rw [shortfallOf]
  split
  · next hneg => exact iff_of_true (abs_pos.mpr hneg.ne) hneg
  · next hnonneg => exact iff_of_false (lt_irrefl 0) hnonneg

/-- The available balance after a settlement whose collateral was locked: the equity is added to
it. -/
theorem settledBalance_available (hlocked : collateral ≤ b.lockedBalance) (equity : ℚ) :
    (settledBalance b collateral equity).availableBalance = b.availableBalance + equity := by
  simp only [settledBalance, UserBalance.availableBalance, max_eq_right (sub_nonneg.mpr hlocked)]
  ring

/-- A settlement of at least zero takes nothing that is available. -/
theorem available_le_settled (hlocked : collateral ≤ b.lockedBalance) (equity : ℚ) :
    b.availableBalance ≤ (settledBalance b collateral (max 0 equity)).availableBalance := by
  rw [settledBalance_available hlocked]
  exact le_add_of_nonneg_right (le_max_left 0 equity)

/-- The settlement of a clamped equity divides the result of a position, whatever its sign. -/
theorem settledBalance_lossSplit {p : MarginPosition} (hlocked : p.collateral ≤ b.lockedBalance) (price : ℚ) :
    LossSplit p price b (settledBalance b p.collateral (max 0 (p.equityAt price))) (shortfallOf (p.equityAt price)) where
  exact := by
    have hsum := max_sub_shortfallOf (p.equityAt price)
    have hequity : p.equityAt price = p.collateral + p.pnlAt price - p.accruedInterest := rfl
    simp only [settledBalance]
    linarith
  bounded := by
    have hnonneg := le_max_left 0 (p.equityAt price)
    simp only [settledBalance]
    linarith
  covered := shortfallOf_pos_iff _
  available := available_le_settled hlocked _

end Settlement

section Calls

variable {d : MarginDb} {p : MarginPosition} {b : UserBalance}

theorem find_settle (p' : MarginPosition) {quoteAssetId : ℕ} (equity : ℚ)
    (hb : d.exchange.balances.find (p.userId, quoteAssetId) = some b) :
    (d.settle p p' quoteAssetId equity).exchange.balances.find (p.userId, quoteAssetId) =
      some (settledBalance b p.collateral equity) := by
  have hkey : b.key = (p.userId, quoteAssetId) := Table.key_of_find hb
  show (settledBalances d.exchange.balances (p.userId, quoteAssetId) p.collateral equity).find _ = _
  rw [settledBalances, hb, ← hkey]
  exact Table.find_save_self _ (settledBalance b p.collateral equity)

/-- **A liquidation divides the result of its position**, and closing the position at the same price
leaves the same balance row when the equity is not negative. -/
theorem liquidation_splits_loss {loaded : MarginPosition} {c : MarginPairConfig} (hrunning : Running d p c)
    (hloaded : loaded.id = p.id) (hb : d.exchange.balances.find (p.userId, c.quoteAssetId) = some b)
    (hlocked : p.collateral ≤ b.lockedBalance) (now closed : ℤ) (price : ℚ) :
    ∃ saved shortfall d' b', (liquidatePosition now loaded c price).eval sql.handler d = (.ok (saved, shortfall), d') ∧
      d'.exchange.balances.find (p.userId, c.quoteAssetId) = some b' ∧ LossSplit p price b b' shortfall ∧
      (0 ≤ p.equityAt price → ∃ saved' d'', (closePosition closed p.id price).eval sql.handler d = (.ok saved', d'') ∧
        d''.exchange.balances.find (p.userId, c.quoteAssetId) = some b') := by
  refine ⟨_, _, _, _, eval_liquidatePosition_loaded hrunning.position hrunning.isOpen hloaded c now price,
    find_settle _ _ hb, settledBalance_lossSplit hlocked price, fun hequity => ?_⟩
  -- nothing is clamped
  rw [max_eq_right hequity]
  exact ⟨_, _, eval_closePosition_of_open hrunning closed price, find_settle _ _ hb⟩

end Calls

/-- A SHORT position entered at 100, whose collateral is all that its user has. -/
def shortPosition : MarginPosition := newPosition 1 ⟨1, 1, .short, 100, 1, none⟩ defaultPair 100

/-- The tables with the position and its lock. -/
def shortedDb : MarginDb :=
  shortDb.enter shortPosition { userId := 1, assetId := 2, balance := 100, lockedBalance := 0 }

/-- At the price 300 half of the loss is a shortfall. -/
theorem liquidation_splits_loss_short : ∃ saved shortfall d' b',
    (liquidatePosition 0 shortPosition defaultPair 300).eval sql.handler shortedDb = (.ok (saved, shortfall), d') ∧
      d'.exchange.balances.find (1, 2) = some b' ∧
      LossSplit shortPosition 300 { userId := 1, assetId := 2, balance := 100, lockedBalance := 0 + 100 } b' shortfall ∧
      (0 ≤ shortPosition.equityAt 300 → ∃ saved' d'',
        (closePosition 0 1 300).eval sql.handler shortedDb = (.ok saved', d'') ∧
          d''.exchange.balances.find (1, 2) = some b') :=
  liquidation_splits_loss (p := shortPosition) (c := defaultPair) ⟨rfl, .inl rfl, rfl⟩ rfl rfl (by decide +kernel) 0 0 300

end Margin
