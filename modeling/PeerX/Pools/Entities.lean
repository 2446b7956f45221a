import PeerX.Foundations.Table
import Mathlib.Data.Rat.Sqrt
import Mathlib.Analysis.Real.Sqrt

/-!
# Pools: entities and requests

The rows of `liquidity_pools`, `pool_positions`, `pool_swaps` and `emergency_withdrawals`, the
request bodies, and the exceptions. Amounts are elements of a linearly ordered field with a square
root, so that the same definitions run on exact rationals and speak about exact reals.
-/

namespace Pools

open Relational

/-- `Math.sqrt`. -/
class MathSqrt (K : Type) where
  sqrt : K → K

/-- The square root of a rational square, else the root of its integral parts. -/
instance : MathSqrt ℚ := ⟨Rat.sqrt⟩

noncomputable instance : MathSqrt ℝ := ⟨Real.sqrt⟩

inductive PoolStatus : Type
  | active
  | paused
  | emergency
deriving DecidableEq

inductive EmergencyWithdrawalStatus : Type
  | pending
  | approved
  | completed
  | rejected
deriving DecidableEq

/-- A row of `virtual_assets`. -/
structure VirtualAsset where
  id : ℕ
  symbol : String
deriving DecidableEq

/-- A row of `liquidity_pools`. -/
structure LiquidityPool (K : Type) where
  id : ℕ
  tokenAId : ℕ
  tokenBId : ℕ
  chainId : String
  reserveA : K
  reserveB : K
  totalLpSupply : K
  feeBps : ℕ
  status : PoolStatus
  accumulatedFeesA : K
  accumulatedFeesB : K
  totalVolume : K
  totalSwaps : ℕ
deriving DecidableEq

/-- A row of `pool_positions`. -/
structure PoolPosition (K : Type) where
  poolId : ℕ
  userId : ℕ
  lpAmount : K
  depositedAmountA : K
  depositedAmountB : K
  feesEarnedA : K
  feesEarnedB : K
deriving DecidableEq

/-- `@Index(['poolId', 'userId'], { unique: true })`. -/
def PoolPosition.key {K : Type} (p : PoolPosition K) : ℕ × ℕ := (p.poolId, p.userId)

/-- A row of `pool_swaps`, without its generated identifier. -/
structure PoolSwap (K : Type) where
  poolId : ℕ
  userId : ℕ
  tokenIn : String
  tokenOut : String
  amountIn : K
  amountOut : K
  feePaid : K
  priceImpact : K
  status : String
deriving DecidableEq

/-- A row of `emergency_withdrawals`, without its generated identifier. -/
structure EmergencyWithdrawal (K : Type) where
  poolId : ℕ
  userId : ℕ
  lpAmountBurned : K
  amountA : K
  amountB : K
  reason : String
  status : EmergencyWithdrawalStatus
  adminApprovedBy : Option ℕ
deriving DecidableEq

/-- `CreatePoolDto`: `feeBps` is an integer of at least 0. -/
structure CreatePoolDto where
  tokenAId : ℕ
  tokenBId : ℕ
  chainId : String
  feeBps : Option ℕ

structure AddLiquidityDto (K : Type) where
  userId : ℕ
  amountA : K
  amountB : K

structure RemoveLiquidityDto (K : Type) where
  userId : ℕ
  lpAmount : K

structure SwapDto (K : Type) where
  userId : ℕ
  tokenIn : String
  amountIn : K
  minAmountOut : Option K

structure EmergencyWithdrawDto (K : Type) where
  userId : ℕ
  lpAmount : K
  reason : String
  adminApprovedBy : Option ℕ

/-- The exceptions. `belowMinimum out min` is the `BadRequestException` whose text is
`Output ${out} is below minimum ${min}`. -/
inductive PoolError (K : Type) : Type
  | error (message : String)
  | badRequest (message : String)
  | notFound (message : String)
  | belowMinimum (amountOut minAmountOut : K)
  | duplicateKey
deriving DecidableEq

end Pools
