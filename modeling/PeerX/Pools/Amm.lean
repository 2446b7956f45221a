import PeerX.Pools.Entities
import Mathlib.Algebra.Order.Field.Basic
import Mathlib.Tactic.FieldSimp
import Mathlib.Tactic.Linarith
import Mathlib.Tactic.Positivity

/-!
# Pools: the constant-product formulas

`AmmService`: the quote of a swap, of a deposit and of a withdrawal, the share of a fee, and the
impermanent loss of a position. A quote is refused by an exception before anything is computed.
-/

namespace Pools

variable {K : Type} [Field K] [LinearOrder K]

structure SwapQuote (K : Type) where
  amountOut : K
  feeAmount : K
  priceImpact : K
deriving DecidableEq

structure LiquidityQuote (K : Type) where
  lpTokensMinted : K
  amountA : K
  amountB : K
deriving DecidableEq

structure WithdrawQuote (K : Type) where
  amountA : K
  amountB : K
deriving DecidableEq

/-- `1 - feeBps / 10000`. -/
def feeMultiplier (feeBps : ℕ) : K := 1 - (feeBps : K) / 10000

/-- `amountIn * feeMultiplier`. -/
def amountInWithFee (amountIn : K) (feeBps : ℕ) : K := amountIn * feeMultiplier feeBps

/-- The three numbers of the quote, for the amount and the reserves that `getAmountOut` accepts. -/
def swapQuote (amountIn reserveIn reserveOut : K) (feeBps : ℕ) : SwapQuote K :=
  let amountInWithFee := amountInWithFee amountIn feeBps
  let feeAmount := amountIn - amountInWithFee
  let amountOut := (amountInWithFee * reserveOut) / (reserveIn + amountInWithFee)
  let priceBefore := reserveOut / reserveIn
  let newReserveIn := reserveIn + amountIn
  let newReserveOut := reserveOut - amountOut
  let priceAfter := newReserveOut / newReserveIn
  let priceImpact := |(priceAfter - priceBefore) / priceBefore| * 100
  { amountOut, feeAmount, priceImpact }

def getAmountOut (amountIn reserveIn reserveOut : K) (feeBps : ℕ) :
    Except (PoolError K) (SwapQuote K) :=
  if amountIn ≤ 0 then .error (.error "Amount in must be positive")
  else if reserveIn ≤ 0 ∨ reserveOut ≤ 0 then .error (.error "Insufficient liquidity")
  else .ok (swapQuote amountIn reserveIn reserveOut feeBps)

theorem getAmountOut_eq_ok {amountIn reserveIn reserveOut : K} {feeBps : ℕ} {quote : SwapQuote K} :
    getAmountOut amountIn reserveIn reserveOut feeBps = .ok quote ↔
      0 < amountIn ∧ 0 < reserveIn ∧ 0 < reserveOut ∧
        quote = swapQuote amountIn reserveIn reserveOut feeBps := by
  unfold getAmountOut
  by_cases hin : amountIn ≤ 0
  · simp [hin, not_lt.mpr hin]
  by_cases hreserves : reserveIn ≤ 0 ∨ reserveOut ≤ 0
  · have hnot : ¬ (0 < reserveIn ∧ 0 < reserveOut) := by
      rintro ⟨hi, ho⟩
      rcases hreserves with h | h
      · exact absurd hi (not_lt.mpr h)
      · exact absurd ho (not_lt.mpr h)
    simp only [hin, hreserves, if_true, if_false, reduceCtorEq, false_iff]
    exact fun h => hnot ⟨h.2.1, h.2.2.1⟩
  · have hpos := not_or.mp hreserves
    simp only [hin, hreserves, if_false, Except.ok.injEq]
    simp [not_le.mp hin, not_le.mp hpos.1, not_le.mp hpos.2, eq_comm]

def distributeFees (feeAmount lpAmount totalLpSupply : K) : K :=
  if totalLpSupply ≤ 0 ∨ lpAmount ≤ 0 then 0 else (feeAmount * lpAmount) / totalLpSupply

def calculateLpTokensToMint [MathSqrt K] (amountA amountB reserveA reserveB totalLpSupply : K) :
    Except (PoolError K) (LiquidityQuote K) :=
  if amountA ≤ 0 ∨ amountB ≤ 0 then .error (.error "Deposit amounts must be positive")
  else if totalLpSupply = 0 then
    .ok { lpTokensMinted := MathSqrt.sqrt (amountA * amountB), amountA, amountB }
  else if reserveA ≤ 0 ∨ reserveB ≤ 0 then .error (.error "Pool reserves must be positive")
  else
    let lpFromA := (amountA * totalLpSupply) / reserveA
    let lpFromB := (amountB * totalLpSupply) / reserveB
    let lpTokensMinted := min lpFromA lpFromB
    let actualAmountA := (lpTokensMinted * reserveA) / totalLpSupply
    let actualAmountB := (lpTokensMinted * reserveB) / totalLpSupply
    .ok { lpTokensMinted, amountA := actualAmountA, amountB := actualAmountB }

/-- The LP tokens a deposit into a pool with reserves is paid. -/
def proportionalMint (amountA amountB reserveA reserveB totalLpSupply : K) : K :=
  min ((amountA * totalLpSupply) / reserveA) ((amountB * totalLpSupply) / reserveB)

theorem calculateLpTokensToMint_eq_ok [MathSqrt K] {a b rA rB supply : K} {quote : LiquidityQuote K}
    (h : calculateLpTokensToMint a b rA rB supply = .ok quote) :
    0 < a ∧ 0 < b ∧
      ((supply = 0 ∧ quote = ⟨MathSqrt.sqrt (a * b), a, b⟩) ∨
        (supply ≠ 0 ∧ 0 < rA ∧ 0 < rB ∧
          quote = ⟨proportionalMint a b rA rB supply,
            proportionalMint a b rA rB supply * rA / supply,
            proportionalMint a b rA rB supply * rB / supply⟩)) := by
  unfold calculateLpTokensToMint at h
  split at h
  · cases h
  next hamounts =>
  obtain ⟨ha, hb⟩ := not_or.mp hamounts
  refine ⟨not_le.mp ha, not_le.mp hb, ?_⟩
  split at h
  · next hzero => exact .inl ⟨hzero, (Except.ok.inj h).symm⟩
  next hsupply =>
  split at h
  · cases h
  next hreserves =>
  obtain ⟨hA, hB⟩ := not_or.mp hreserves
  exact .inr ⟨hsupply, not_le.mp hA, not_le.mp hB, (Except.ok.inj h).symm⟩

def calculateWithdrawAmounts (lpAmount totalLpSupply reserveA reserveB : K) :
    Except (PoolError K) (WithdrawQuote K) :=
  if lpAmount ≤ 0 then .error (.error "LP amount must be positive")
  else if totalLpSupply ≤ 0 then .error (.error "No LP supply in pool")
  else if lpAmount > totalLpSupply then .error (.error "LP amount exceeds total supply")
  else
    let share := lpAmount / totalLpSupply
    .ok { amountA := reserveA * share, amountB := reserveB * share }

theorem calculateWithdrawAmounts_eq_ok {lp supply rA rB : K} {quote : WithdrawQuote K}
    (h : calculateWithdrawAmounts lp supply rA rB = .ok quote) :
    0 < lp ∧ 0 < supply ∧ lp ≤ supply ∧
      quote = ⟨rA * (lp / supply), rB * (lp / supply)⟩ := by
  unfold calculateWithdrawAmounts at h
  split at h
  · cases h
  next hlp =>
  split at h
  · cases h
  next hsupply =>
  split at h
  · cases h
  next hle =>
  exact ⟨not_le.mp hlp, not_le.mp hsupply, not_lt.mp hle, (Except.ok.inj h).symm⟩

structure ImpermanentLossResult (K : Type) where
  currentValue : K
  holdValue : K
  impermanentLoss : K
  impermanentLossPercent : K
deriving DecidableEq

def calculateImpermanentLoss (depositedAmountA depositedAmountB currentReserveA currentReserveB
    totalLpSupply lpAmount : K) : ImpermanentLossResult K :=
  if lpAmount ≤ 0 ∨ totalLpSupply ≤ 0 then
    { currentValue := 0, holdValue := 0, impermanentLoss := 0, impermanentLossPercent := 0 }
  else
    let share := lpAmount / totalLpSupply
    let currentA := currentReserveA * share
    let currentB := currentReserveB * share
    let initialPrice := if 0 < depositedAmountB then depositedAmountA / depositedAmountB else 0
    let currentPrice := if 0 < currentB then currentA / currentB else 0
    let currentValue := currentA + currentB
    -- the source assigns the value three times in the first case, and the last assignment stands
    let holdValue :=
      if 0 < initialPrice ∧ 0 < currentPrice then
        depositedAmountA * (currentPrice / initialPrice) + depositedAmountB
      else depositedAmountA + depositedAmountB
    let impermanentLoss := holdValue - currentValue
    let impermanentLossPercent := if 0 < holdValue then impermanentLoss / holdValue * 100 else 0
    { currentValue, holdValue, impermanentLoss, impermanentLossPercent }

end Pools
