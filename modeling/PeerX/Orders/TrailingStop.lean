import PeerX.Orders.Sweep
import Mathlib.Tactic.Positivity

/-!
# Orders: the trailing stop over time

Successive sweeps see one trailing stop order at one price after the other. A stored reference price
follows the prices, and the order is triggered when the price turns by `trailingDelta` percent. But
the reference price of an order that has none starts anew at the current price of each sweep: it
does not move, is never stored, and the order is never triggered.
-/

namespace Orders

/-- The sweep that triggers the order: the others leave it, or store a reference price. -/
def firstTrigger : Order → List ℚ → Option ℕ
  | _, [] => none
  | order, price :: prices =>
    match stopAction order price with
    | .trigger => some 0
    | .ratchet reference =>
      (firstTrigger { order with trailingReferencePrice := some reference } prices).map (· + 1)
    | .idle => (firstTrigger order prices).map (· + 1)

/-- The highest price so far for an order to sell, and the lowest for one to buy. -/
def extreme (side : OrderSide) (start : ℚ) (prices : List ℚ) : ℚ :=
  match side with
  | .sell => prices.foldl max start
  | .buy => prices.foldl min start

/-- The price has turned by `delta` percent. -/
def HasTurned (side : OrderSide) (delta best price : ℚ) : Prop :=
  match side with
  | .sell => price ≤ best * (1 - delta / 100)
  | .buy => best * (1 + delta / 100) ≤ price

instance (side : OrderSide) (delta best price : ℚ) : Decidable (HasTurned side delta best price) :=
  match side with
  | .sell => inferInstanceAs (Decidable (_ ≤ _))
  | .buy => inferInstanceAs (Decidable (_ ≤ _))

/-- The price turns at sweep `k`, by `delta` percent from the best one so far. -/
def Turned (side : OrderSide) (delta start : ℚ) (prices : List ℚ) (k : ℕ) : Prop :=
  ∃ price, prices[k]? = some price ∧ HasTurned side delta (extreme side start (prices.take (k + 1))) price

/-- The price turns for the first time. -/
def FirstTurned (side : OrderSide) (delta start : ℚ) (prices : List ℚ) (k : ℕ) : Prop :=
  Turned side delta start prices k ∧ ∀ j < k, ¬ Turned side delta start prices j

/-- An order of the trailing stop. -/
structure IsTrailing (order : Order) (delta : ℚ) : Prop where
  type : order.type = .trailingStop
  delta_eq : order.trailingDelta = some delta
  pos : 0 < delta
  lt : delta < 100

variable {order : Order} {delta start price : ℚ} {prices : List ℚ} {side : OrderSide}

theorem extreme_cons (side : OrderSide) (start price : ℚ) (prices : List ℚ) :
    extreme side start (price :: prices) = extreme side (extreme side start [price]) prices := by
  cases side <;> rfl

theorem turned_zero_iff : Turned side delta start (price :: prices) 0 ↔
    HasTurned side delta (extreme side start [price]) price := by
  simp [Turned]

/-- One sweep of an order without a reference price does nothing: the price cannot turn from
itself. -/
theorem stopAction_of_none (h : IsTrailing order delta) (href : order.trailingReferencePrice = none) (hprice : 0 < price) :
    stopAction order price = .idle := by
  have hdelta : 0 < delta / 100 := div_pos h.pos (by norm_num)
  have hmove : 0 < price * (delta / 100) := mul_pos hprice hdelta
  rw [stopAction, if_pos h.type, processTrailingStop, h.delta_eq, href, Option.getD_some, Option.getD_none]
  cases order.side with
  | sell =>
    have hstop : ¬ price ≤ price * (1 - delta / 100) := by
      rw [mul_sub, mul_one]
      linarith
    simp only [lt_irrefl, if_false, hstop]
  | buy =>
    have hstop : ¬ price * (1 + delta / 100) ≤ price := by
      rw [mul_add, mul_one]
      linarith
    simp only [lt_irrefl, if_false, hstop]

/-- An order without a reference price is never triggered. -/
theorem firstTrigger_of_none (h : IsTrailing order delta) (href : order.trailingReferencePrice = none)
    (hprices : ∀ price ∈ prices, 0 < price) : firstTrigger order prices = none := by
  induction prices with
  | nil => rfl
  | cons price prices ih =>
    obtain ⟨hprice, hothers⟩ := List.forall_mem_cons.mp hprices
    rw [firstTrigger, stopAction_of_none h href hprice]
    exact congrArg (Option.map (· + 1)) (ih hothers)

/-- A price has turned from the best of two prices when it has turned from one of them. -/
theorem hasTurned_extreme_one (hdelta : 0 < delta) (hlt : delta < 100) (other : ℚ) :
    HasTurned side delta (extreme side start [other]) price ↔
      HasTurned side delta start price ∨ HasTurned side delta other price := by
  cases side with
  | sell =>
    have hfactor : 0 ≤ 1 - delta / 100 := by linarith
    have hbest : extreme .sell start [other] = max start other := rfl
    rw [HasTurned, hbest, max_mul_of_nonneg _ _ hfactor]
    exact le_max_iff
  | buy =>
    have hfactor : 0 ≤ 1 + delta / 100 := by linarith
    have hbest : extreme .buy start [other] = min start other := rfl
    rw [HasTurned, hbest, min_mul_of_nonneg _ _ hfactor]
    exact min_le_iff

/-- A price has turned from the best price when it has turned from any of them. -/
theorem hasTurned_extreme_iff (hdelta : 0 < delta) (hlt : delta < 100) : HasTurned side delta (extreme side start prices) price ↔
    HasTurned side delta start price ∨ ∃ best ∈ prices, HasTurned side delta best price := by
  induction prices generalizing start with
  | nil =>
    have hbest : extreme side start [] = start := by cases side <;> rfl
    simp [hbest]
  | cons other prices ih =>
    rw [extreme_cons, ih, hasTurned_extreme_one hdelta hlt]
    simp only [List.mem_cons, exists_eq_or_imp, or_assoc]

/-- The price at sweep `j` has turned by `delta` percent from the one at sweep `i`. -/
def TurnedFrom (side : OrderSide) (delta : ℚ) (prices : List ℚ) (i j : ℕ) : Prop :=
  ∃ best price, prices[i]? = some best ∧ prices[j]? = some price ∧ HasTurned side delta best price

/-- The price turns when it has turned from one so far. -/
theorem turned_iff (hdelta : 0 < delta) (hlt : delta < 100) (k : ℕ) :
    Turned side delta (prices.headD 0) prices k ↔ ∃ i ≤ k, TurnedFrom side delta prices i k := by
  have hmem : ∀ best, best ∈ prices.take (k + 1) ↔ ∃ i ≤ k, prices[i]? = some best := by
    intro best
    rw [List.mem_iff_getElem?]
    refine exists_congr fun i => ?_
    rw [List.getElem?_take]
    split
    next hi => simp [Nat.lt_succ_iff.mp hi]
    next hi => exact iff_of_false (by simp) fun h => hi (Nat.lt_succ_of_le h.1)
  constructor
  · rintro ⟨price, hprice, hturned⟩
    rcases (hasTurned_extreme_iff hdelta hlt).mp hturned with hstart | ⟨best, hbest, hturned⟩
    · cases prices with
      | nil => cases hprice
      | cons first prices => exact ⟨0, Nat.zero_le k, first, price, rfl, hprice, hstart⟩
    · obtain ⟨i, hi, hbest⟩ := (hmem best).mp hbest
      exact ⟨i, hi, best, price, hbest, hprice, hturned⟩
  · rintro ⟨i, hi, best, price, hbest, hprice, hturned⟩
    exact ⟨price, hprice, (hasTurned_extreme_iff hdelta hlt).mpr (.inr ⟨best, (hmem best).mpr ⟨i, hi, hbest⟩, hturned⟩)⟩

/-- The price turns for the first time when it turns at all. -/
theorem exists_firstTurned_iff : (∃ k, FirstTurned side delta start prices k) ↔ ∃ k, Turned side delta start prices k := by
  classical
  refine ⟨fun ⟨k, hk⟩ => ⟨k, hk.1⟩, fun hturned => ?_⟩
  exact ⟨Nat.find hturned, Nat.find_spec hturned, fun j hj => Nat.find_min hturned hj⟩

/-- **The monitor is right about an order without a reference price** exactly when the price never
turns. -/
theorem trailing_stop_iff (h : IsTrailing order delta) (href : order.trailingReferencePrice = none)
    (hprices : ∀ price ∈ prices, 0 < price) :
    (∀ k, firstTrigger order prices = some k ↔ FirstTurned order.side delta (prices.headD 0) prices k) ↔
      ∀ i j, i ≤ j → ¬ TurnedFrom order.side delta prices i j := by
  rw [firstTrigger_of_none h href hprices]
  have hnever : (∀ k, (none = some k ↔ FirstTurned order.side delta (prices.headD 0) prices k)) ↔
      ¬ ∃ k, FirstTurned order.side delta (prices.headD 0) prices k := by simp
  rw [hnever, exists_firstTurned_iff]
  simp only [turned_iff h.pos h.lt]
  constructor
  · exact fun hnone i j hij hturned => hnone ⟨j, i, hij, hturned⟩
  · rintro hnone ⟨j, i, hij, hturned⟩
    exact hnone i j hij hturned

/-- An order to sell when the price falls by 5 %. -/
def trailingSell : Order :=
  ⟨1, 1, 1, .sell, .trailingStop, .pending, 1, 0, none, none, none, some 5, none, none, none, none, none, 0⟩

theorem isTrailing_trailingSell : IsTrailing trailingSell 5 := ⟨rfl, rfl, by norm_num, by norm_num⟩

/-- The price only rises. -/
theorem trailing_stop_rising : firstTrigger trailingSell [100, 110] = none ∧
    ∀ k, firstTrigger trailingSell [100, 110] = some k ↔ FirstTurned .sell 5 100 [100, 110] k := by
  refine ⟨by decide +kernel, (trailing_stop_iff isTrailing_trailingSell rfl (by decide +kernel)).mpr ?_⟩
  have hrising : ∀ i j : Fin 2, i ≤ j → ¬ HasTurned .sell 5 ([100, 110].get i) ([100, 110].get j) := by decide +kernel
  rintro i j hij ⟨best, price, hbest, hprice, hturned⟩
  obtain ⟨hi, rfl⟩ := List.getElem?_eq_some_iff.mp hbest
  obtain ⟨hj, rfl⟩ := List.getElem?_eq_some_iff.mp hprice
  exact hrising ⟨i, hi⟩ ⟨j, hj⟩ hij hturned

/-- **The price falls by 10 %**, and the order is not triggered. -/
theorem trailing_stop_missed : ¬ ∀ k, firstTrigger trailingSell [100, 90] = some k ↔
    FirstTurned .sell 5 100 [100, 90] k := by
  intro h
  have hturned : FirstTurned .sell 5 100 [100, 90] 1 := by
    refine ⟨⟨90, rfl, by decide +kernel⟩, fun j hj => ?_⟩
    obtain rfl : j = 0 := by omega
    exact turned_zero_iff.not.mpr (by decide +kernel)
  exact absurd ((h 1).mpr hturned) (by decide +kernel)

end Orders
