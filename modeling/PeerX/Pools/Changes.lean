import PeerX.Pools.LiquidityPool
import PeerX.Foundations.Runs

/-!
# Pools: what a call changes

One lemma for each call of the service says when it succeeds and what it writes; a call that is
refused writes nothing. Every invariant of the pools is derived from `step_change` and, for a single
pool row, from `step_move`.

## Main results

* `spec_program`: a refused call leaves the tables alone; an accepted one is a `Change`
* `step_change`, `step_move`: what one call does to the tables, and to a pool row
* `run_pool`: the invariant rule for one pool row
-/

namespace Pools

open Relational Concurrency

variable {K : Type} [Field K] [LinearOrder K]

/-- The positions after the fee of a swap is distributed. -/
def earnAll (feeAmount totalLpSupply : K) (isTokenA : Bool) (l : List (PoolPosition K))
    (positions : Table (PoolPosition.key (K := K))) : Table (PoolPosition.key (K := K)) :=
  Table.saveAll (fun p => p.earn isTokenA (distributeFees feeAmount p.lpAmount totalLpSupply)) l
    positions

/-- **What a call does** to the tables. -/
inductive Change [MathSqrt K] (d : PoolsDb K) : PoolsDb K → Prop
  | rejected : Change d d
  | created (dto : CreatePoolDto) :
      Change d { d with pools := d.pools.save { newPool dto with id := nextId d.pools } }
  | deposited {pool : LiquidityPool K} (userId : ℕ) {a b : K} {quote : LiquidityQuote K}
      (hpool : pool ∈ d.pools.rows) (hactive : pool.status = .active)
      (hquote : calculateLpTokensToMint a b pool.reserveA pool.reserveB pool.totalLpSupply =
        .ok quote) :
      Change d { d with
        pools := d.pools.save (pool.deposit quote)
        positions := d.positions.save
          (depositPosition (d.positions.find (pool.id, userId)) pool.id userId quote) }
  | withdrawn {pool : LiquidityPool K} {position position' : PoolPosition K} {lp : K}
      {amounts : WithdrawQuote K} (withdrawals : List (EmergencyWithdrawal K))
      (hpool : pool ∈ d.pools.rows) (hposition : position ∈ d.positions.rows)
      (hof : position.poolId = pool.id) (hlp : lp ≤ position.lpAmount)
      (hamounts : calculateWithdrawAmounts lp pool.totalLpSupply pool.reserveA pool.reserveB =
        .ok amounts)
      (hleft : position' = position.withdraw lp ∨ position' = position.burn lp) :
      Change d { d with
        pools := d.pools.save (pool.withdraw lp amounts)
        positions := d.positions.save position'
        withdrawals := withdrawals }
  | swapped {pool : LiquidityPool K} {isTokenA : Bool} {amountIn : K} {quote : SwapQuote K}
      (swaps : List (PoolSwap K)) (hpool : pool ∈ d.pools.rows) (hactive : pool.status = .active)
      (hquote : getAmountOut amountIn (pool.reserveIn isTokenA) (pool.reserveOut isTokenA)
        pool.feeBps = .ok quote) :
      Change d { d with
        pools := d.pools.save (pool.exchange isTokenA amountIn quote)
        positions := earnAll quote.feeAmount pool.totalLpSupply isTokenA
          (positionsOf d.positions pool.id) d.positions
        swaps := swaps }

section Calls

variable {d : PoolsDb K}

omit [Field K] [LinearOrder K] in
theorem eval_getPool (poolId : ℕ) : (getPool poolId : Session K (LoadedPool K)).eval sql d =
    match d.pools.find poolId with
    | some pool => (.ok (d.load pool), d)
    | none => (.error (.notFound s!"Pool {poolId} not found"), d) := by
  unfold getPool
  simp only [Prog.perform_bind, Prog.eval_call, sql]
  cases d.pools.find poolId <;> rfl

omit [Field K] [LinearOrder K] in
theorem eval_getPool_bind {α : Type} {poolId : ℕ} {f : LoadedPool K → Session K α}
    {P : Except (PoolError K) α × PoolsDb K → Prop}
    (hnone : ∀ e, P (.error e, d))
    (hsome : ∀ pool ∈ d.pools.rows, pool.id = poolId → P ((f (d.load pool)).eval sql d)) :
    P ((getPool poolId >>= f).eval sql d) := by
  rw [Prog.eval_bind, eval_getPool]
  cases hfind : d.pools.find poolId with
  | none => exact hnone _
  | some pool => exact hsome pool (Table.mem_of_find hfind) (Table.key_of_find hfind)

omit [Field K] [LinearOrder K] in
theorem eval_attempt_bind {α β : Type} {q : Except (PoolError K) α} {f : α → Session K β}
    {P : Except (PoolError K) β × PoolsDb K → Prop} (herror : ∀ e, P (.error e, d))
    (hok : ∀ a, q = .ok a → P ((f a).eval sql d)) : P ((attempt q >>= f).eval sql d) := by
  cases q with
  | error e => exact herror e
  | ok a => exact hok a rfl

omit [Field K] in
theorem eval_requireLp_bind {β : Type} {found : Option (PoolPosition K)} {lp : K} {message : String}
    {f : PoolPosition K → Session K β} {P : Except (PoolError K) β × PoolsDb K → Prop}
    (herror : ∀ e, P (.error e, d))
    (hok : ∀ position, found = some position → lp ≤ position.lpAmount →
      P ((f position).eval sql d)) : P ((requireLp found lp message >>= f).eval sql d) := by
  cases found with
  | none => exact herror _
  | some position =>
    unfold requireLp
    by_cases hlt : position.lpAmount < lp
    · simp only [hlt, if_true]
      exact herror _
    · simp only [hlt, if_false]
      exact hok position rfl (not_lt.mp hlt)

omit [LinearOrder K] in
@[simp] theorem key_depositPosition (userId poolId : ℕ) (quote : LiquidityQuote K) :
    (depositPosition (d.positions.find (poolId, userId)) poolId userId quote).key =
      (poolId, userId) := by
  cases hfind : d.positions.find (poolId, userId) with
  | none => rfl
  | some position =>
    show position.key = _
    exact Table.key_of_find hfind

omit [LinearOrder K] in
/-- The position of a deposit is stored, whether it is new or not. -/
theorem eval_storePosition (userId poolId : ℕ) (quote : LiquidityQuote K) (d' : PoolsDb K)
    (hd' : d'.positions = d.positions) :
    (storePosition (d.positions.find (poolId, userId))
      (depositPosition (d.positions.find (poolId, userId)) poolId userId quote)).eval sql d' =
    (.ok (), { d' with
      positions := d.positions.save
        (depositPosition (d.positions.find (poolId, userId)) poolId userId quote) }) := by
  unfold storePosition
  cases hfind : d.positions.find (poolId, userId) with
  | some position => simp [sql, hd']
  | none =>
    have hnew : d.positions.find (depositPosition none poolId userId quote).key = none := hfind
    simp [sql, hnew, hd']

/-- The loop of `distributeFeesToLps`. -/
theorem eval_distributeLoop (feeAmount supply : K) (isTokenA : Bool) (l : List (PoolPosition K)) :
    (distributeLoop feeAmount supply isTokenA l).eval sql d =
      (.ok (), { d with positions := earnAll feeAmount supply isTokenA l d.positions }) := by
  induction l generalizing d with
  | nil => rfl
  | cons p l ih =>
    unfold distributeLoop
    rw [Prog.perform_bind, Prog.eval_call]
    exact ih

omit [LinearOrder K] in
theorem eval_createPool [MathSqrt K] (dto : CreatePoolDto) :
    (∃ e, (createPool dto : Session K _).eval sql d = (.error e, d)) ∨
      (d.assets.find dto.tokenAId ≠ none ∧ d.assets.find dto.tokenBId ≠ none) ∧
        (createPool dto : Session K _).eval sql d =
          (.ok { newPool dto with id := nextId d.pools },
            { d with pools := d.pools.save { newPool dto with id := nextId d.pools } }) := by
  unfold createPool
  by_cases hsame : dto.tokenAId = dto.tokenBId
  · simp only [hsame, if_true]
    exact .inl ⟨_, rfl⟩
  simp only [hsame, if_false, Prog.perform_bind, Prog.eval_call, sql]
  by_cases hassets : d.assets.find dto.tokenAId = none ∨ d.assets.find dto.tokenBId = none
  · simp only [hassets, if_true]
    exact .inl ⟨_, rfl⟩
  simp only [hassets, if_false, Prog.eval_call, sql]
  by_cases hexisting : (pairPool d.pools dto.tokenAId dto.tokenBId dto.chainId).isSome
  · simp only [hexisting, if_true]
    exact .inl ⟨_, rfl⟩
  · simp only [hexisting]
    exact .inr ⟨not_or.mp hassets, rfl⟩

/-- The withdrawal of LP tokens passes its checks. -/
structure WithdrawalAccepted (d : PoolsDb K) (poolId userId : ℕ) (lpAmount : K)
    (pool : LiquidityPool K) (position : PoolPosition K) (amounts : WithdrawQuote K) : Prop where
  found : d.pools.find poolId = some pool
  owned : d.positions.find (poolId, userId) = some position
  enough : lpAmount ≤ position.lpAmount
  quoted : calculateWithdrawAmounts lpAmount pool.totalLpSupply pool.reserveA pool.reserveB =
    .ok amounts

/-- A call is refused without a change, or its outcome is one of `A`. -/
def RefusedOr {α : Type} (d : PoolsDb K) (A : Except (PoolError K) α × PoolsDb K → Prop)
    (o : Except (PoolError K) α × PoolsDb K) : Prop :=
  (∃ e, o = (.error e, d)) ∨ A o

/-- A removal is refused without a change, or burns the tokens and shrinks the deposits. -/
theorem eval_removeLiquidity (poolId : ℕ) (dto : RemoveLiquidityDto K) :
    RefusedOr d (fun o => ∃ pool position amounts,
      WithdrawalAccepted d poolId dto.userId dto.lpAmount pool position amounts ∧
      pool.status ≠ .emergency ∧
      o = (.ok ⟨pool.withdraw dto.lpAmount amounts, position.withdraw dto.lpAmount, amounts⟩,
        { d with
          pools := d.pools.save (pool.withdraw dto.lpAmount amounts)
          positions := d.positions.save (position.withdraw dto.lpAmount) }))
      ((removeLiquidity poolId dto).eval sql d) := by
  unfold removeLiquidity
  apply eval_getPool_bind fun e => .inl ⟨e, rfl⟩
  rintro pool hpool rfl
  simp only [PoolsDb.load]
  by_cases hstatus : pool.status = .emergency
  · simp only [hstatus, if_true]
    exact .inl ⟨_, rfl⟩
  simp only [hstatus, if_false, Prog.perform_bind, Prog.eval_call, sql]
  apply eval_requireLp_bind fun e => .inl ⟨e, rfl⟩
  intro position howned hlp
  apply eval_attempt_bind fun e => .inl ⟨e, rfl⟩
  intro amounts hamounts
  exact .inr ⟨pool, position, amounts, ⟨Table.find_of_mem hpool, howned, hlp, hamounts⟩, hstatus, rfl⟩

/-- An emergency withdrawal is refused without a change, or burns the tokens and leaves the
deposits as they are. -/
theorem eval_emergencyWithdraw (poolId : ℕ) (dto : EmergencyWithdrawDto K) :
    RefusedOr d (fun o => ∃ pool position amounts,
      WithdrawalAccepted d poolId dto.userId dto.lpAmount pool position amounts ∧
      o = (.ok (newWithdrawal poolId dto amounts),
        { d with
          pools := d.pools.save (pool.withdraw dto.lpAmount amounts)
          positions := d.positions.save (position.burn dto.lpAmount)
          withdrawals := d.withdrawals ++ [newWithdrawal poolId dto amounts] }))
      ((emergencyWithdraw poolId dto).eval sql d) := by
  unfold emergencyWithdraw
  apply eval_getPool_bind fun e => .inl ⟨e, rfl⟩
  rintro pool hpool rfl
  simp only [PoolsDb.load, Prog.perform_bind, Prog.eval_call, sql]
  apply eval_requireLp_bind fun e => .inl ⟨e, rfl⟩
  intro position howned hlp
  apply eval_attempt_bind fun e => .inl ⟨e, rfl⟩
  intro amounts hamounts
  exact .inr ⟨pool, position, amounts, ⟨Table.find_of_mem hpool, howned, hlp, hamounts⟩, rfl⟩

/-- A call is refused without a change, or it is accepted and does what `Change` says. -/
def Spec [MathSqrt K] (d : PoolsDb K) {α : Type} (o : Except (PoolError K) α × PoolsDb K) : Prop :=
  (∃ e, o = (.error e, d)) ∨ ∃ a, o.1 = .ok a ∧ Change d o.2

variable [MathSqrt K]

theorem spec_error {α : Type} (e : PoolError K) :
    Spec d ((.error e, d) : Except (PoolError K) α × PoolsDb K) := .inl ⟨e, rfl⟩

theorem eval_addLiquidity {pool : LiquidityPool K} (hpool : pool ∈ d.pools.rows)
    (hstatus : pool.status = .active) {dto : AddLiquidityDto K} {quote : LiquidityQuote K}
    (hquote : calculateLpTokensToMint dto.amountA dto.amountB pool.reserveA pool.reserveB
      pool.totalLpSupply = .ok quote) :
    (addLiquidity pool.id dto).eval sql d =
      (.ok ⟨pool.deposit quote, depositPosition (d.positions.find (pool.id, dto.userId)) pool.id
          dto.userId quote, quote.lpTokensMinted⟩,
        { d with
          pools := d.pools.save (pool.deposit quote)
          positions := d.positions.save
            (depositPosition (d.positions.find (pool.id, dto.userId)) pool.id dto.userId quote) }) := by
  unfold addLiquidity
  rw [Prog.eval_bind, eval_getPool, Table.find_of_mem hpool]
  simp only [PoolsDb.load, ne_eq, hstatus, not_true_eq_false, if_false, hquote, attempt_ok,
    pure_bind, Prog.perform_bind, Prog.eval_call, sql]
  rw [Prog.eval_bind, eval_storePosition]
  · rfl
  · rfl

theorem spec_addLiquidity (poolId : ℕ) (dto : AddLiquidityDto K) :
    Spec d ((addLiquidity poolId dto).eval sql d) := by
  cases hfind : d.pools.find poolId with
  | none =>
    unfold addLiquidity
    rw [Prog.eval_bind, eval_getPool, hfind]
    exact spec_error _
  | some pool =>
  obtain rfl := Table.key_of_find hfind
  by_cases hstatus : pool.status = .active
  swap
  · unfold addLiquidity
    rw [Prog.eval_bind, eval_getPool, hfind]
    simp only [PoolsDb.load, ne_eq, hstatus, not_false_eq_true, if_true]
    exact spec_error _
  cases hquote : calculateLpTokensToMint dto.amountA dto.amountB pool.reserveA pool.reserveB
      pool.totalLpSupply with
  | error e =>
    unfold addLiquidity
    rw [Prog.eval_bind, eval_getPool, hfind]
    simp only [PoolsDb.load, ne_eq, hstatus, not_true_eq_false, if_false, hquote]
    exact spec_error _
  | ok quote =>
    rw [eval_addLiquidity (Table.mem_of_find hfind) hstatus hquote]
    exact .inr ⟨_, rfl, .deposited dto.userId (Table.mem_of_find hfind) hstatus hquote⟩

theorem spec_removeLiquidity (poolId : ℕ) (dto : RemoveLiquidityDto K) :
    Spec d ((removeLiquidity poolId dto).eval sql d) := by
  rcases eval_removeLiquidity (d := d) poolId dto with hrejected |
    ⟨pool, position, amounts, haccepted, -, heval⟩
  · exact .inl hrejected
  · rw [heval]
    have hpool := Table.key_of_find haccepted.found
    have hof := congrArg Prod.fst (Table.key_of_find haccepted.owned)
    exact .inr ⟨_, rfl, .withdrawn d.withdrawals (Table.mem_of_find haccepted.found)
      (Table.mem_of_find haccepted.owned) (hof.trans hpool.symm) haccepted.enough haccepted.quoted
      (.inl rfl)⟩

theorem spec_emergencyWithdraw (poolId : ℕ) (dto : EmergencyWithdrawDto K) :
    Spec d ((emergencyWithdraw poolId dto).eval sql d) := by
  rcases eval_emergencyWithdraw (d := d) poolId dto with hrejected |
    ⟨pool, position, amounts, haccepted, heval⟩
  · exact .inl hrejected
  · rw [heval]
    have hpool := Table.key_of_find haccepted.found
    have hof := congrArg Prod.fst (Table.key_of_find haccepted.owned)
    exact .inr ⟨_, rfl, .withdrawn _ (Table.mem_of_find haccepted.found)
      (Table.mem_of_find haccepted.owned) (hof.trans hpool.symm) haccepted.enough haccepted.quoted
      (.inr rfl)⟩

omit [Field K] [LinearOrder K] [MathSqrt K] in
theorem eval_relation (loaded : Option VirtualAsset) (id : ℕ) :
    (relation loaded id : Session K _).eval sql d =
      (.ok (loaded.or (d.assets.find id)), d) := by
  cases loaded <;> rfl

omit [Field K] [LinearOrder K] [MathSqrt K] in
theorem direction_cases (tokenIn : String) (tokenA tokenB : VirtualAsset) :
    ((tokenIn = tokenA.symbol ∨ tokenIn = tokenB.symbol) ∧ ∃ tokenOut,
      (direction tokenIn tokenA tokenB : Session K _) = pure (decide (tokenA.symbol = tokenIn), tokenOut)) ∨
      ∃ e, (direction tokenIn tokenA tokenB : Session K _) = throw e := by
  unfold direction
  by_cases hA : tokenIn = tokenA.symbol
  · exact .inl ⟨.inl hA, tokenB.symbol, by rw [if_pos hA, decide_eq_true hA.symm]⟩
  by_cases hB : tokenIn = tokenB.symbol
  · exact .inl ⟨.inr hB, tokenA.symbol, by rw [if_neg hA, if_pos hB, decide_eq_false (Ne.symm hA)]⟩
  · exact .inr ⟨_, by rw [if_neg hA, if_neg hB]⟩

omit [MathSqrt K] in
/-- The distribution of a fee, with the rest of the call. -/
theorem eval_distributeFeesToLps (pool : LiquidityPool K) (feeAmount : K) (isTokenA : Bool) :
    (distributeFeesToLps pool feeAmount isTokenA).eval sql d = (.ok (), { d with
      positions := earnAll feeAmount pool.totalLpSupply isTokenA (positionsOf d.positions pool.id)
        d.positions }) := by
  unfold distributeFeesToLps
  simp only [Prog.perform_bind, Prog.eval_call, sql]
  exact eval_distributeLoop ..

omit [LinearOrder K] [MathSqrt K] in
@[simp] theorem LiquidityPool.exchange_id (pool : LiquidityPool K) (isTokenA : Bool) (amountIn : K)
    (quote : SwapQuote K) : (pool.exchange isTokenA amountIn quote).id = pool.id := by
  cases isTokenA <;> rfl

omit [LinearOrder K] [MathSqrt K] in
@[simp] theorem LiquidityPool.exchange_totalLpSupply (pool : LiquidityPool K) (isTokenA : Bool)
    (amountIn : K) (quote : SwapQuote K) :
    (pool.exchange isTokenA amountIn quote).totalLpSupply = pool.totalLpSupply := by
  cases isTokenA <;> rfl

/-- The token paid in is the pool's token A. -/
def PoolsDb.paysTokenA (d : PoolsDb K) (pool : LiquidityPool K) (tokenIn : String) : Bool :=
  (d.assets.find pool.tokenAId).any (·.symbol = tokenIn)

/-- The swap passes its checks. -/
structure SwapAccepted (d : PoolsDb K) (poolId : ℕ) (dto : SwapDto K) (pool : LiquidityPool K)
    (quote : SwapQuote K) : Prop where
  found : d.pools.find poolId = some pool
  active : pool.status = .active
  tokens : ∃ tokenA tokenB, d.assets.find pool.tokenAId = some tokenA ∧ d.assets.find pool.tokenBId = some tokenB ∧
    (dto.tokenIn = tokenA.symbol ∨ dto.tokenIn = tokenB.symbol)
  quoted : getAmountOut dto.amountIn (pool.reserveIn (d.paysTokenA pool dto.tokenIn))
    (pool.reserveOut (d.paysTokenA pool dto.tokenIn)) pool.feeBps = .ok quote
  minimum : ¬ belowMinimum dto.minAmountOut quote.amountOut

omit [MathSqrt K] in
/-- A swap that is quoted, at no less than its minimum, is accepted. -/
theorem eval_swap_of_quote {pool : LiquidityPool K} (hpool : pool ∈ d.pools.rows)
    (hstatus : pool.status = .active) {tokenA tokenB : VirtualAsset}
    (hA : d.assets.find pool.tokenAId = some tokenA)
    (hB : d.assets.find pool.tokenBId = some tokenB) {dto : SwapDto K} {isTokenA : Bool}
    {tokenOut : String} {quote : SwapQuote K}
    (hdirection : (direction dto.tokenIn tokenA tokenB : Session K _) = pure (isTokenA, tokenOut))
    (hquote : getAmountOut dto.amountIn (pool.reserveIn isTokenA) (pool.reserveOut isTokenA)
      pool.feeBps = .ok quote) (hmin : ¬ belowMinimum dto.minAmountOut quote.amountOut) :
    (swap pool.id dto).eval sql d =
      (.ok ⟨newSwap pool.id dto tokenOut quote, pool.exchange isTokenA dto.amountIn quote⟩,
        { d with
          pools := d.pools.save (pool.exchange isTokenA dto.amountIn quote)
          positions := earnAll quote.feeAmount pool.totalLpSupply isTokenA
            (positionsOf d.positions pool.id) d.positions
          swaps := d.swaps ++ [newSwap pool.id dto tokenOut quote] }) := by
  unfold swap
  rw [Prog.eval_bind, eval_getPool, Table.find_of_mem hpool]
  simp only [PoolsDb.load, ne_eq, hstatus, not_true_eq_false, if_false]
  rw [Prog.eval_bind, eval_relation]
  simp only
  rw [Prog.eval_bind, eval_relation]
  simp only [Option.or_self, hA, hB, hdirection, pure_bind, hquote, attempt_ok, hmin, if_false]
  rw [Prog.eval_bind, eval_distributeFeesToLps, LiquidityPool.exchange_totalLpSupply,
    LiquidityPool.exchange_id]
  rfl

omit [MathSqrt K] in
/-- A swap is refused without a change, or pays its quote on the reserves it loaded. -/
theorem eval_swap (poolId : ℕ) (dto : SwapDto K) :
    (∃ e, (swap poolId dto).eval sql d = (.error e, d)) ∨
      ∃ pool tokenOut quote swaps, SwapAccepted d poolId dto pool quote ∧
        (swap poolId dto).eval sql d =
          (.ok ⟨newSwap poolId dto tokenOut quote, pool.exchange (d.paysTokenA pool dto.tokenIn) dto.amountIn quote⟩,
            { d with
              pools := d.pools.save (pool.exchange (d.paysTokenA pool dto.tokenIn) dto.amountIn quote)
              positions := earnAll quote.feeAmount pool.totalLpSupply (d.paysTokenA pool dto.tokenIn)
                (positionsOf d.positions pool.id) d.positions
              swaps := swaps }) := by
  cases hfind : d.pools.find poolId with
  | none =>
    left
    unfold swap
    rw [Prog.eval_bind, eval_getPool, hfind]
    exact ⟨_, rfl⟩
  | some pool =>
  obtain rfl := Table.key_of_find hfind
  -- the right side is evaluated, one check of the source after the other
  have hload : (swap pool.id dto).eval sql d = (swap pool.id dto).eval sql d := rfl
  conv_rhs at hload => rw [swap, Prog.eval_bind, eval_getPool, hfind]
  simp only [PoolsDb.load] at hload
  by_cases hstatus : pool.status = .active
  swap
  · simp only [ne_eq, hstatus, not_false_eq_true, if_true] at hload
    exact .inl ⟨_, hload⟩
  simp only [ne_eq, hstatus, not_true_eq_false, if_false] at hload
  -- the tokens of the pool
  conv_rhs at hload => rw [Prog.eval_bind, eval_relation]
  simp only at hload
  conv_rhs at hload => rw [Prog.eval_bind, eval_relation]
  simp only [Option.or_self] at hload
  cases hA : d.assets.find pool.tokenAId with
  | none =>
    rw [hA] at hload
    exact .inl ⟨_, hload⟩
  | some tokenA =>
  cases hB : d.assets.find pool.tokenBId with
  | none =>
    rw [hA, hB] at hload
    exact .inl ⟨_, hload⟩
  | some tokenB =>
  simp only [hA, hB] at hload
  rcases direction_cases (K := K) dto.tokenIn tokenA tokenB with ⟨htoken, tokenOut, hdir⟩ | ⟨e, hdir⟩
  swap
  · rw [hdir] at hload
    exact .inl ⟨_, hload⟩
  -- the quote, and the slippage
  have hpays : decide (tokenA.symbol = dto.tokenIn) = d.paysTokenA pool dto.tokenIn := by
    simp [PoolsDb.paysTokenA, hA]
  rw [hpays] at hdir
  simp only [hdir, pure_bind] at hload
  cases hquote : getAmountOut dto.amountIn (pool.reserveIn (d.paysTokenA pool dto.tokenIn))
      (pool.reserveOut (d.paysTokenA pool dto.tokenIn)) pool.feeBps with
  | error e =>
    rw [hquote] at hload
    exact .inl ⟨_, hload⟩
  | ok quote =>
  by_cases hmin : belowMinimum dto.minAmountOut quote.amountOut
  · simp only [hquote, attempt_ok, pure_bind, hmin, if_true] at hload
    exact .inl ⟨_, hload⟩
  · exact .inr ⟨pool, tokenOut, quote, _, ⟨hfind, hstatus, ⟨tokenA, tokenB, hA, hB, htoken⟩, hquote, hmin⟩,
      eval_swap_of_quote (Table.mem_of_find hfind) hstatus hA hB hdir hquote hmin⟩

theorem spec_swap (poolId : ℕ) (dto : SwapDto K) : Spec d ((swap poolId dto).eval sql d) := by
  rcases eval_swap (d := d) poolId dto with hrejected |
    ⟨pool, tokenOut, quote, swaps, haccepted, heval⟩
  · exact .inl hrejected
  · rw [heval]
    exact .inr ⟨_, rfl, .swapped swaps (Table.mem_of_find haccepted.found) haccepted.active haccepted.quoted⟩

/-- **A call of the service** is refused without a change, or does what `Change` says. -/
theorem spec_program (call : PoolCall K) : Spec d (call.program.eval sql d) := by
  have hmap : ∀ {α : Type} {f : α → PoolResult K} {p : Session K α}, Spec d (p.eval sql d) →
      Spec d ((f <$> p).eval sql d) := by
    intro α f p h
    rw [Prog.eval_map]
    rcases h with ⟨e, he⟩ | ⟨a, ha, hchange⟩
    · exact .inl ⟨e, by rw [he]; rfl⟩
    · exact .inr ⟨f a, by rw [ha]; rfl, hchange⟩
  cases call with
  | create dto =>
    apply hmap
    rcases eval_createPool (d := d) dto with hrejected | ⟨-, heval⟩
    · exact .inl hrejected
    · rw [heval]
      exact .inr ⟨_, rfl, .created dto⟩
  | addLiquidity poolId dto => exact hmap (spec_addLiquidity poolId dto)
  | removeLiquidity poolId dto => exact hmap (spec_removeLiquidity poolId dto)
  | swap poolId dto => exact hmap (spec_swap poolId dto)
  | emergencyWithdraw poolId dto => exact hmap (spec_emergencyWithdraw poolId dto)

/-- **One call.** -/
theorem step_change (d : PoolsDb K) (call : PoolCall K) : Change d (step d call) := by
  rcases spec_program (d := d) call with ⟨e, he⟩ | ⟨a, -, hchange⟩
  · have hsame : step d call = d := congrArg Prod.snd he
    rw [hsame]
    exact .rejected
  · exact hchange

end Calls

/-! ## One pool row -/

/-- What a call does to a pool row: nothing, a deposit, a withdrawal, or an exchange at the
quote for its reserves. -/
inductive PoolMove [MathSqrt K] (pool : LiquidityPool K) : LiquidityPool K → Prop
  | stay : PoolMove pool pool
  | deposit {a b : K} {quote : LiquidityQuote K}
      (hquote : calculateLpTokensToMint a b pool.reserveA pool.reserveB pool.totalLpSupply =
        .ok quote) : PoolMove pool (pool.deposit quote)
  | withdraw {lp : K} {amounts : WithdrawQuote K}
      (hamounts : calculateWithdrawAmounts lp pool.totalLpSupply pool.reserveA pool.reserveB =
        .ok amounts) : PoolMove pool (pool.withdraw lp amounts)
  | exchange {isTokenA : Bool} {amountIn : K} {quote : SwapQuote K}
      (hquote : getAmountOut amountIn (pool.reserveIn isTokenA) (pool.reserveOut isTokenA)
        pool.feeBps = .ok quote) : PoolMove pool (pool.exchange isTokenA amountIn quote)

section Moves

variable [MathSqrt K] {d : PoolsDb K}

/-- The row of a pool when a pool is saved: the saved row if it is the same pool. -/
theorem move_save {pool saved : LiquidityPool K} (hpool : pool ∈ d.pools.rows)
    (hmove : saved.id = pool.id → PoolMove pool saved) :
    ∃ pool', (d.pools.save saved).find pool.id = some pool' ∧ PoolMove pool pool' := by
  rw [Table.find_save]
  by_cases hid : pool.id = saved.id
  · exact ⟨saved, if_pos hid, hmove hid.symm⟩
  · exact ⟨pool, by rw [if_neg hid, Table.find_of_mem hpool], .stay⟩

/-- **One call and one pool.** -/
theorem step_move {pool : LiquidityPool K} (hpool : pool ∈ d.pools.rows) (call : PoolCall K) :
    ∃ pool', (step d call).pools.find pool.id = some pool' ∧ PoolMove pool pool' := by
  have hchange := step_change d call
  generalize step d call = d' at hchange ⊢
  cases hchange with
  | rejected => exact ⟨pool, Table.find_of_mem hpool, .stay⟩
  | created dto =>
    refine move_save hpool fun hid => ?_
    have hnew := find_nextId d.pools
    rw [show nextId d.pools = pool.id from hid, Table.find_of_mem hpool] at hnew
    cases hnew
  | deposited userId hsaved hactive hquote =>
    refine move_save hpool fun hid => ?_
    obtain rfl := Table.eq_of_key_eq hsaved hpool hid
    exact .deposit hquote
  | withdrawn withdrawals hsaved hposition hof hlp hamounts hleft =>
    refine move_save hpool fun hid => ?_
    obtain rfl := Table.eq_of_key_eq hsaved hpool hid
    exact .withdraw hamounts
  | swapped swaps hsaved hactive hquote =>
    refine move_save hpool fun hid => ?_
    rw [LiquidityPool.exchange_id] at hid
    obtain rfl := Table.eq_of_key_eq hsaved hpool hid
    exact .exchange hquote

theorem PoolMove.id_eq {pool pool' : LiquidityPool K} (h : PoolMove pool pool') :
    pool'.id = pool.id := by
  cases h with
  | stay | deposit | withdraw => rfl
  | exchange => exact LiquidityPool.exchange_id ..

theorem PoolMove.feeBps_eq {pool pool' : LiquidityPool K} (h : PoolMove pool pool') :
    pool'.feeBps = pool.feeBps := by
  cases h with
  | stay | deposit | withdraw => rfl
  | @exchange isTokenA => cases isTokenA <;> rfl

/-- **One pool along a run**: what every move preserves holds of the pool in the end. -/
theorem run_pool {I : LiquidityPool K → Prop}
    (hI : ∀ pool pool', PoolMove pool pool' → I pool → I pool') {pool : LiquidityPool K}
    (hpool : pool ∈ d.pools.rows) (h : I pool) (calls : List (PoolCall K)) :
    ∃ pool', (run step d calls).pools.find pool.id = some pool' ∧ I pool' := by
  induction calls generalizing d pool with
  | nil => exact ⟨pool, Table.find_of_mem hpool, h⟩
  | cons call calls ih =>
    obtain ⟨pool', hfind, hmove⟩ := step_move hpool call
    obtain ⟨pool'', hfind', h'⟩ := ih (Table.mem_of_find hfind) (hI _ _ hmove h)
    exact ⟨pool'', by rw [run_cons, ← hmove.id_eq]; exact hfind', h'⟩

end Moves

end Pools
