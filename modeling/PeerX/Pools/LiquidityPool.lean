import PeerX.Pools.Amm
import PeerX.Pools.Database

/-!
# Pools: the liquidity pool service

`createPool`, `addLiquidity`, `removeLiquidity`, `swap` and `emergencyWithdraw`, each as the program
of its repository calls in the order of the source. What a call makes of the pool and of the
position it loaded is a function of its own.
-/

namespace Pools

open Relational Concurrency

variable {K : Type} [Field K] [LinearOrder K]

/-- The entity `createPool` creates; its identifier is generated by the insert. -/
def newPool (dto : CreatePoolDto) : LiquidityPool K where
  id := 0
  tokenAId := dto.tokenAId
  tokenBId := dto.tokenBId
  chainId := dto.chainId
  reserveA := 0
  reserveB := 0
  totalLpSupply := 0
  feeBps := dto.feeBps.getD 30
  status := .active
  accumulatedFeesA := 0
  accumulatedFeesB := 0
  totalVolume := 0
  totalSwaps := 0

def createPool (dto : CreatePoolDto) : Session K (LiquidityPool K) := do
  if dto.tokenAId = dto.tokenBId then
    throw (.badRequest "Token A and Token B must be different")
  let tokenA ← query (.findAsset dto.tokenAId)
  let tokenB ← query (.findAsset dto.tokenBId)
  if tokenA = none ∨ tokenB = none then
    throw (.notFound "One or both assets not found")
  let existing ← query (.findPair dto.tokenAId dto.tokenBId dto.chainId)
  if existing.isSome then
    throw (.badRequest "Pool already exists for this pair on this chain")
  let id ← query (.insertPool (newPool dto))
  return { newPool dto with id }

def getPool (poolId : ℕ) : Session K (LoadedPool K) := do
  match ← query (.findPool poolId) with
  | none => throw (.notFound s!"Pool {poolId} not found")
  | some loaded => return loaded

/-- `positionRepo.save(position)`: an update of the position that was found, else an insert. -/
def storePosition (found : Option (PoolPosition K)) (position : PoolPosition K) :
    Session K Unit := do
  if found.isSome then
    query (.savePosition position)
  else if ← query (.insertPosition position) then
    return ()
  else
    throw .duplicateKey

/-- The pool after a deposit. -/
def LiquidityPool.deposit (pool : LiquidityPool K) (quote : LiquidityQuote K) : LiquidityPool K :=
  { pool with
    reserveA := pool.reserveA + quote.amountA
    reserveB := pool.reserveB + quote.amountB
    totalLpSupply := pool.totalLpSupply + quote.lpTokensMinted }

/-- The position after a deposit; a user without one gets a new position. -/
def depositPosition (found : Option (PoolPosition K)) (poolId userId : ℕ)
    (quote : LiquidityQuote K) : PoolPosition K :=
  match found with
  | some position =>
    { position with
      lpAmount := position.lpAmount + quote.lpTokensMinted
      depositedAmountA := position.depositedAmountA + quote.amountA
      depositedAmountB := position.depositedAmountB + quote.amountB }
  | none =>
    { poolId
      userId
      lpAmount := quote.lpTokensMinted
      depositedAmountA := quote.amountA
      depositedAmountB := quote.amountB
      feesEarnedA := 0
      feesEarnedB := 0 }

/-- What `addLiquidity` returns. -/
structure AddLiquidityResult (K : Type) where
  pool : LiquidityPool K
  position : PoolPosition K
  lpTokensMinted : K
deriving DecidableEq

def addLiquidity [MathSqrt K] (poolId : ℕ) (dto : AddLiquidityDto K) :
    Session K (AddLiquidityResult K) := do
  let loaded ← getPool poolId
  let pool := loaded.pool
  if pool.status ≠ .active then
    throw (.badRequest "Pool is not active")
  let quote ← attempt (calculateLpTokensToMint dto.amountA dto.amountB pool.reserveA
    pool.reserveB pool.totalLpSupply)
  let savedPool := pool.deposit quote
  let found ← query (.findPosition poolId dto.userId)
  let position := depositPosition found poolId dto.userId quote
  query (.savePool savedPool)
  storePosition found position
  return { pool := savedPool, position, lpTokensMinted := quote.lpTokensMinted }

/-- The pool after a withdrawal. -/
def LiquidityPool.withdraw (pool : LiquidityPool K) (lpAmount : K) (amounts : WithdrawQuote K) :
    LiquidityPool K :=
  { pool with
    reserveA := pool.reserveA - amounts.amountA
    reserveB := pool.reserveB - amounts.amountB
    totalLpSupply := pool.totalLpSupply - lpAmount }

/-- The position after `removeLiquidity`. The share withdrawn is taken of the tokens it had. -/
def PoolPosition.withdraw (position : PoolPosition K) (lpAmount : K) : PoolPosition K :=
  let remaining := position.lpAmount - lpAmount
  let depositShare := lpAmount / (remaining + lpAmount)
  { position with
    lpAmount := remaining
    depositedAmountA := position.depositedAmountA * (1 - depositShare)
    depositedAmountB := position.depositedAmountB * (1 - depositShare) }

/-- What `removeLiquidity` returns. -/
structure RemoveLiquidityResult (K : Type) where
  pool : LiquidityPool K
  position : PoolPosition K
  amounts : WithdrawQuote K
deriving DecidableEq

/-- The position that was found, if it has the tokens. -/
def requireLp (found : Option (PoolPosition K)) (lpAmount : K) (message : String) :
    Session K (PoolPosition K) :=
  match found with
  | none => throw (.badRequest message)
  | some position =>
    if position.lpAmount < lpAmount then throw (.badRequest message) else pure position

def removeLiquidity (poolId : ℕ) (dto : RemoveLiquidityDto K) :
    Session K (RemoveLiquidityResult K) := do
  let loaded ← getPool poolId
  let pool := loaded.pool
  if pool.status = .emergency then
    throw (.badRequest "Use emergency withdrawal for pools in emergency status")
  let found ← query (.findPosition poolId dto.userId)
  let position ← requireLp found dto.lpAmount "Insufficient LP tokens"
  let amounts ← attempt (calculateWithdrawAmounts dto.lpAmount pool.totalLpSupply pool.reserveA
    pool.reserveB)
  let savedPool := pool.withdraw dto.lpAmount amounts
  let savedPosition := position.withdraw dto.lpAmount
  query (.savePool savedPool)
  query (.savePosition savedPosition)
  return { pool := savedPool, position := savedPosition, amounts }

/-- The row `emergencyWithdraw` records. -/
def newWithdrawal (poolId : ℕ) (dto : EmergencyWithdrawDto K) (amounts : WithdrawQuote K) :
    EmergencyWithdrawal K where
  poolId := poolId
  userId := dto.userId
  lpAmountBurned := dto.lpAmount
  amountA := amounts.amountA
  amountB := amounts.amountB
  reason := dto.reason
  -- an administrator with identifier 0 is no administrator
  status := if dto.adminApprovedBy.getD 0 ≠ 0 then .completed else .pending
  adminApprovedBy := dto.adminApprovedBy

/-- The position after `emergencyWithdraw`, which leaves the deposited amounts as they are. -/
def PoolPosition.burn (position : PoolPosition K) (lpAmount : K) : PoolPosition K :=
  { position with lpAmount := position.lpAmount - lpAmount }

/-- `LiquidityPoolService.emergencyWithdraw`. The status of the pool is not read. -/
def emergencyWithdraw (poolId : ℕ) (dto : EmergencyWithdrawDto K) :
    Session K (EmergencyWithdrawal K) := do
  let loaded ← getPool poolId
  let pool := loaded.pool
  let found ← query (.findPosition poolId dto.userId)
  let position ← requireLp found dto.lpAmount "Insufficient LP tokens for emergency withdrawal"
  let amounts ← attempt (calculateWithdrawAmounts dto.lpAmount pool.totalLpSupply pool.reserveA
    pool.reserveB)
  let withdrawal := newWithdrawal poolId dto amounts
  query (.savePool (pool.withdraw dto.lpAmount amounts))
  query (.savePosition (position.burn dto.lpAmount))
  query (.insertWithdrawal withdrawal)
  return withdrawal

/-- `pool.tokenA ?? await assetRepo.findOne(…)`. -/
def relation (loaded : Option VirtualAsset) (id : ℕ) : Session K (Option VirtualAsset) := do
  match loaded with
  | some asset => return some asset
  | none => query (.findAsset id)

/-- The direction of a swap: whether token A is paid in, and the symbol of the token paid out. -/
def direction (tokenIn : String) (tokenA tokenB : VirtualAsset) : Session K (Bool × String) :=
  if tokenIn = tokenA.symbol then pure (true, tokenB.symbol)
  else if tokenIn = tokenB.symbol then pure (false, tokenA.symbol)
  else throw (.badRequest s!"Token {tokenIn} is not part of this pool")

/-- The reserve a swap is paid into. -/
def LiquidityPool.reserveIn (pool : LiquidityPool K) (isTokenA : Bool) : K :=
  if isTokenA then pool.reserveA else pool.reserveB

/-- The reserve a swap is paid from. -/
def LiquidityPool.reserveOut (pool : LiquidityPool K) (isTokenA : Bool) : K :=
  if isTokenA then pool.reserveB else pool.reserveA

/-- `dto.minAmountOut && quote.amountOut < dto.minAmountOut`. -/
def belowMinimum (minAmountOut : Option K) (amountOut : K) : Prop :=
  ∃ m ∈ minAmountOut, m ≠ 0 ∧ amountOut < m

instance (minAmountOut : Option K) (amountOut : K) : Decidable (belowMinimum minAmountOut amountOut) :=
  inferInstanceAs (Decidable (∃ m ∈ minAmountOut, m ≠ 0 ∧ amountOut < m))

/-- The pool after a swap. -/
def LiquidityPool.exchange (pool : LiquidityPool K) (isTokenA : Bool) (amountIn : K)
    (quote : SwapQuote K) : LiquidityPool K :=
  let pool :=
    if isTokenA then
      { pool with
        reserveA := pool.reserveA + amountIn
        reserveB := pool.reserveB - quote.amountOut
        accumulatedFeesA := pool.accumulatedFeesA + quote.feeAmount }
    else
      { pool with
        reserveB := pool.reserveB + amountIn
        reserveA := pool.reserveA - quote.amountOut
        accumulatedFeesB := pool.accumulatedFeesB + quote.feeAmount }
  { pool with
    totalVolume := pool.totalVolume + amountIn
    totalSwaps := pool.totalSwaps + 1 }

/-- The position with its share of a fee. -/
def PoolPosition.earn (position : PoolPosition K) (isTokenA : Bool) (share : K) : PoolPosition K :=
  if isTokenA then { position with feesEarnedA := position.feesEarnedA + share }
  else { position with feesEarnedB := position.feesEarnedB + share }

/-- The loop of `distributeFeesToLps`. -/
def distributeLoop (feeAmount totalLpSupply : K) (isTokenA : Bool) :
    List (PoolPosition K) → Session K Unit
  | [] => return ()
  | position :: positions => do
    let share := distributeFees feeAmount position.lpAmount totalLpSupply
    query (.savePosition (position.earn isTokenA share))
    distributeLoop feeAmount totalLpSupply isTokenA positions

def distributeFeesToLps (pool : LiquidityPool K) (feeAmount : K) (isTokenA : Bool) :
    Session K Unit := do
  let positions ← query (.findPositions pool.id)
  distributeLoop feeAmount pool.totalLpSupply isTokenA positions

/-- The row `swap` records. -/
def newSwap (poolId : ℕ) (dto : SwapDto K) (tokenOut : String) (quote : SwapQuote K) :
    PoolSwap K where
  poolId := poolId
  userId := dto.userId
  tokenIn := dto.tokenIn
  tokenOut := tokenOut
  amountIn := dto.amountIn
  amountOut := quote.amountOut
  feePaid := quote.feeAmount
  priceImpact := quote.priceImpact
  status := "COMPLETED"

/-- What `swap` returns. -/
structure SwapResult (K : Type) where
  swap : PoolSwap K
  pool : LiquidityPool K
deriving DecidableEq

def swap (poolId : ℕ) (dto : SwapDto K) : Session K (SwapResult K) := do
  let loaded ← getPool poolId
  let pool := loaded.pool
  if pool.status ≠ .active then
    throw (.badRequest "Pool is not active for trading")
  let tokenA ← relation loaded.tokenA pool.tokenAId
  let tokenB ← relation loaded.tokenB pool.tokenBId
  match tokenA, tokenB with
  | some tokenA, some tokenB =>
    let dir ← direction dto.tokenIn tokenA tokenB
    let quote ← attempt (getAmountOut dto.amountIn (pool.reserveIn dir.1) (pool.reserveOut dir.1)
      pool.feeBps)
    if belowMinimum dto.minAmountOut quote.amountOut then
      throw (.belowMinimum quote.amountOut (dto.minAmountOut.getD 0))
    let savedPool := pool.exchange dir.1 dto.amountIn quote
    distributeFeesToLps savedPool quote.feeAmount dir.1
    let savedSwap := newSwap poolId dto dir.2 quote
    query (.insertSwap savedSwap)
    query (.savePool savedPool)
    return { swap := savedSwap, pool := savedPool }
  | _, _ => throw (.notFound "Pool assets not found")

/-- The calls of the service. -/
inductive PoolCall (K : Type) : Type
  | create (dto : CreatePoolDto)
  | addLiquidity (poolId : ℕ) (dto : AddLiquidityDto K)
  | removeLiquidity (poolId : ℕ) (dto : RemoveLiquidityDto K)
  | swap (poolId : ℕ) (dto : SwapDto K)
  | emergencyWithdraw (poolId : ℕ) (dto : EmergencyWithdrawDto K)

/-- What a call returns. -/
inductive PoolResult (K : Type) : Type
  | created (pool : LiquidityPool K)
  | added (result : AddLiquidityResult K)
  | removed (result : RemoveLiquidityResult K)
  | swapped (result : SwapResult K)
  | withdrawn (withdrawal : EmergencyWithdrawal K)
deriving DecidableEq

def PoolCall.program [MathSqrt K] : PoolCall K → Session K (PoolResult K)
  | .create dto => .created <$> createPool dto
  | .addLiquidity poolId dto => .added <$> Pools.addLiquidity poolId dto
  | .removeLiquidity poolId dto => .removed <$> Pools.removeLiquidity poolId dto
  | .swap poolId dto => .swapped <$> Pools.swap poolId dto
  | .emergencyWithdraw poolId dto => .withdrawn <$> Pools.emergencyWithdraw poolId dto

/-- The database after a call that no other call overlaps. -/
def step [MathSqrt K] (d : PoolsDb K) (call : PoolCall K) : PoolsDb K :=
  (call.program.eval sql d).2

end Pools
