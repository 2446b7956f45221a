import PeerX.Foundations.Fallible
import PeerX.Pools.Changes

/-!
# Pools: saves that throw

A call issues several saves and opens no transaction: when one of them throws, the call is rejected,
and the saves before it stay. A call that is rejected leaves the tables as they were exactly when
its first save throws; or when, in a swap, the positions before it earned nothing of the fee, and
the swap is not recorded yet.

## Main results

* `failing_deposit_iff`, `failing_removal_iff`, `failing_emergency_iff`, `failing_swap_iff`: the
  calls
* `rejected_unchanged_iff`: when a rejected call leaves the tables as they were
-/

namespace Pools

open Relational Concurrency

variable {K : Type}

/-- A repository call that saves. -/
def isSave : Stmt K → Bool
  | .insertPool _ => true
  | .savePool _ => true
  | .insertPosition _ => true
  | .savePosition _ => true
  | .insertSwap _ => true
  | .insertWithdrawal _ => true
  | _ => false

/-- A call that is rejected leaves the tables as they were. -/
def RejectedUnchanged {α : Type} (d : PoolsDb K) (o : Except (PoolError K) α × PoolsDb K) : Prop :=
  ∀ e, o.1 = .error e → o.2 = d

section Parts

variable {d : PoolsDb K} {α β : Type}

/-! ## The parts that save nothing -/

theorem within_getPool (poolId : ℕ) :
    (getPool poolId : Session K _).Within (fun c => isSave c = false) fun _ => True := by
  refine ⟨rfl, fun found => ?_⟩
  cases found <;> trivial

theorem within_relation (loaded : Option VirtualAsset) (id : ℕ) :
    (relation loaded id : Session K _).Within (fun c => isSave c = false) fun _ => True := by
  cases loaded with
  | none => exact ⟨rfl, fun _ => trivial⟩
  | some asset => trivial

theorem rejectedUnchanged_refused (e : PoolError K) :
    RejectedUnchanged d ((.error e, d) : Except (PoolError K) α × PoolsDb K) := fun _ _ => rfl

theorem rejectedUnchanged_ok {o : Except (PoolError K) α × PoolsDb K} {a : α} (h : o.1 = .ok a) :
    RejectedUnchanged d o := by
  intro e he
  rw [h] at he
  cases he

/-- A call that is rejected with some tables leaves them as they were when they are the same. -/
theorem rejectedUnchanged_error_iff (e : PoolError K) (d' : PoolsDb K) :
    RejectedUnchanged d ((.error e, d') : Except (PoolError K) α × PoolsDb K) ↔ d' = d :=
  ⟨fun h => h e rfl, fun h _ _ => h⟩

theorem rejectedUnchanged_map_iff (f : α → β) (p : Session K α) :
    RejectedUnchanged d ((f <$> p).eval sql d) ↔ RejectedUnchanged d (p.eval sql d) := by
  rw [Prog.eval_map]
  refine forall_congr' fun e => imp_congr_left ?_
  cases (p.eval sql d).1 <;> simp [Except.map]

end Parts

variable [Field K] [LinearOrder K]

/-! ## Calls with a save that throws -/

/-- The outcome and the tables after a call whose save number `n` throws `e`. -/
def PoolCall.failSave [MathSqrt K] (call : PoolCall K) (e : PoolError K) (n : ℕ) (d : PoolsDb K) :
    Except (PoolError K) (PoolResult K) × PoolsDb K :=
  (call.program.failAmong isSave e n).eval sql d

/-- The deposit passes its checks. -/
structure DepositAccepted [MathSqrt K] (d : PoolsDb K) (poolId : ℕ) (dto : AddLiquidityDto K)
    (pool : LiquidityPool K)
    (quote : LiquidityQuote K) : Prop where
  found : d.pools.find poolId = some pool
  active : pool.status = .active
  quoted : calculateLpTokensToMint dto.amountA dto.amountB pool.reserveA pool.reserveB
    pool.totalLpSupply = .ok quote

/-- A save that may throw without a trace: the first one of a call; one behind the last; and in
a swap one before which every position was saved without a share of the fee, and the swap was not
recorded yet. -/
def Harmless [MathSqrt K] (d : PoolsDb K) (n : ℕ) : PoolCall K → Prop
  | .create _ => True
  | .addLiquidity poolId dto => ∀ pool quote, DepositAccepted d poolId dto pool quote → n ≠ 1
  | .removeLiquidity poolId dto => ∀ pool position amounts,
      WithdrawalAccepted d poolId dto.userId dto.lpAmount pool position amounts →
      pool.status ≠ .emergency → n ≠ 1
  | .emergencyWithdraw poolId dto => ∀ pool position amounts,
      WithdrawalAccepted d poolId dto.userId dto.lpAmount pool position amounts → n ≠ 1 ∧ n ≠ 2
  | .swap poolId dto => ∀ pool quote, SwapAccepted d poolId dto pool quote →
      n ≠ (positionsOf d.positions poolId).length + 1 ∧
        (n ≤ (positionsOf d.positions poolId).length →
          ∀ position ∈ (positionsOf d.positions poolId).take n,
          distributeFees quote.feeAmount position.lpAmount pool.totalLpSupply = 0)

section Calls

variable {d : PoolsDb K} {e : PoolError K}

omit [Field K] [LinearOrder K] in
theorem pools_save_ne {pool saved : LiquidityPool K} {poolId : ℕ}
    (h : d.pools.find poolId = some pool)
    (hid : saved.id = pool.id) (hne : saved ≠ pool) : d.pools.save saved ≠ d.pools := by
  intro hsame
  have hfind : (d.pools.save saved).find pool.id = d.pools.find pool.id :=
    congrArg (fun t => Table.find t pool.id) hsame
  rw [← hid, Table.find_save_self, hid, Table.find_of_mem (Table.mem_of_find h)] at hfind
  exact hne (Option.some.inj hfind)

/-! ### Deposits -/

variable [MathSqrt K]

theorem deposit_ne {poolId : ℕ} {dto : AddLiquidityDto K} {pool : LiquidityPool K}
    {quote : LiquidityQuote K}
    (h : DepositAccepted d poolId dto pool quote) : pool.deposit quote ≠ pool := by
  have hamount : quote.amountA ≠ 0 := by
    obtain ⟨ha, hb, ⟨-, rfl⟩ | ⟨hsupply, hA, hB, rfl⟩⟩ := calculateLpTokensToMint_eq_ok h.quoted
    · exact ha.ne'
    · have hmint : proportionalMint dto.amountA dto.amountB pool.reserveA pool.reserveB
          pool.totalLpSupply ≠ 0 := by
        rw [proportionalMint]
        rcases min_choice (dto.amountA * pool.totalLpSupply / pool.reserveA)
          (dto.amountB * pool.totalLpSupply / pool.reserveB) with hmin | hmin
        · rw [hmin]
          exact div_ne_zero (mul_ne_zero ha.ne' hsupply) hA.ne'
        · rw [hmin]
          exact div_ne_zero (mul_ne_zero hb.ne' hsupply) hB.ne'
      exact div_ne_zero (mul_ne_zero hmint hA.ne') hsupply
  intro hsame
  exact hamount (add_eq_left.mp (congrArg LiquidityPool.reserveA hsame))

/-- **A deposit with a save that throws** leaves a trace when the pool is saved and the position is
not. -/
theorem failing_deposit_iff {poolId : ℕ} {dto : AddLiquidityDto K} {pool : LiquidityPool K}
    {quote : LiquidityQuote K} (h : DepositAccepted d poolId dto pool quote) (n : ℕ) :
    RejectedUnchanged d (((addLiquidity poolId dto).failAmong isSave e n).eval sql d) ↔ n ≠ 1 := by
  have hpools : d.pools.save (pool.deposit quote) ≠ d.pools :=
    pools_save_ne h.found rfl (deposit_ne h)
  have hreads : ((addLiquidity poolId dto).failAmong isSave e n).eval sql d =
      ((do
        query (.savePool (pool.deposit quote))
        storePosition (d.positions.find (poolId, dto.userId))
          (depositPosition (d.positions.find (poolId, dto.userId)) poolId dto.userId quote)
        return ⟨pool.deposit quote,
          depositPosition (d.positions.find (poolId, dto.userId)) poolId dto.userId quote,
            quote.lpTokensMinted⟩ :
            Session K (AddLiquidityResult K)).failAmong isSave e n).eval sql d := by
    rw [addLiquidity, Prog.failAmong_bind (within_getPool poolId), Prog.eval_bind,
      eval_getPool, h.found]
    simp only [PoolsDb.load, ne_eq, h.active, not_true_eq_false, if_false, h.quoted,
      attempt_ok, pure_bind]
    exact Prog.eval_failAmong_of_not rfl _ n
  rw [hreads]
  cases n with
  | zero =>
    rw [Prog.eval_failAmong_zero rfl]
    exact iff_of_true (rejectedUnchanged_refused e) (by simp)
  | succ n =>
    rw [Prog.eval_failAmong_succ rfl]
    -- the pool is saved, and the position is updated when it was found, else inserted
    cases hfind : d.positions.find (poolId, dto.userId) with
    | some position =>
      cases n with
      | zero =>
        refine iff_of_false ?_ (by simp)
        rw [storePosition, Option.isSome_some, if_pos rfl, Prog.eval_failAmong_zero rfl,
          rejectedUnchanged_error_iff]
        exact fun hsame => hpools (congrArg PoolsDb.pools hsame)
      | succ n =>
        refine iff_of_true ?_ (by simp)
        rw [storePosition, Option.isSome_some, if_pos rfl, Prog.eval_failAmong_succ rfl]
        exact rejectedUnchanged_ok rfl
    | none =>
      have hnew : d.positions.find (depositPosition none poolId dto.userId quote).key = none :=
        hfind
      have hstore : (storePosition none (depositPosition none poolId dto.userId quote) :
        Session K Unit) =
          query (.insertPosition (depositPosition none poolId dto.userId quote)) >>= fun isNew =>
            if isNew then return () else throw .duplicateKey := rfl
      rw [hstore, bind_assoc]
      cases n with
      | zero =>
        refine iff_of_false ?_ (by simp)
        rw [Prog.eval_failAmong_zero rfl, rejectedUnchanged_error_iff]
        exact fun hsame => hpools (congrArg PoolsDb.pools hsame)
      | succ n =>
        refine iff_of_true ?_ (by simp)
        rw [Prog.eval_failAmong_succ rfl]
        simp only [sql, hnew, Option.isNone_none, if_true]
        exact rejectedUnchanged_ok rfl

/-! ### Withdrawals -/

omit [MathSqrt K] in
theorem withdrawal_ne {poolId userId : ℕ} {lpAmount : K} {pool : LiquidityPool K}
    {position : PoolPosition K} {amounts : WithdrawQuote K}
    (h : WithdrawalAccepted d poolId userId lpAmount pool position amounts) :
    pool.withdraw lpAmount amounts ≠ pool := by
  intro hsame
  have hlp := (calculateWithdrawAmounts_eq_ok h.quoted).1
  exact hlp.ne' (sub_eq_self.mp (congrArg LiquidityPool.totalLpSupply hsame))

omit [MathSqrt K] in
/-- A withdrawal that passes its checks goes on with the position and the amounts. -/
theorem eval_withdrawal {α : Type} {poolId userId : ℕ} {lpAmount : K} {pool : LiquidityPool K}
    {position : PoolPosition K} {amounts : WithdrawQuote K} {message : String}
    (h : WithdrawalAccepted d poolId userId lpAmount pool position amounts)
    (f : PoolPosition K → WithdrawQuote K → Session K α) (n : ℕ) :
    ((do
      let found ← query (.findPosition poolId userId)
      let position ← requireLp found lpAmount message
      let amounts ←
        attempt (calculateWithdrawAmounts lpAmount pool.totalLpSupply pool.reserveA pool.reserveB)
      f position amounts : Session K α).failAmong isSave e n).eval sql d =
      ((f position amounts).failAmong isSave e n).eval sql d := by
  rw [Prog.eval_failAmong_of_not rfl]
  simp only [sql, h.owned, requireLp, h.enough.not_gt, if_false, pure_bind, h.quoted, attempt_ok]

omit [MathSqrt K] in
/-- A withdrawal that does not pass its checks saves nothing. -/
theorem refused_withdrawal {α : Type} {poolId userId : ℕ} {lpAmount : K} {pool : LiquidityPool K}
    {message : String} (hfind : d.pools.find poolId = some pool)
    (h : ∀ position amounts, ¬ WithdrawalAccepted d poolId userId lpAmount pool position amounts)
    (f : PoolPosition K → WithdrawQuote K → Session K α) (n : ℕ) :
    RejectedUnchanged d (((do
      let found ← query (.findPosition poolId userId)
      let position ← requireLp found lpAmount message
      let amounts ←
        attempt (calculateWithdrawAmounts lpAmount pool.totalLpSupply pool.reserveA pool.reserveB)
      f position amounts : Session K α).failAmong isSave e n).eval sql d) := by
  rw [Prog.eval_failAmong_of_not rfl]
  simp only [sql]
  cases howned : d.positions.find (poolId, userId) with
  | none => exact rejectedUnchanged_refused _
  | some position =>
  by_cases hlp : position.lpAmount < lpAmount
  · simp only [requireLp, hlp, if_true]
    exact rejectedUnchanged_refused _
  simp only [requireLp, hlp, if_false, pure_bind]
  cases hquote : calculateWithdrawAmounts lpAmount pool.totalLpSupply pool.reserveA
    pool.reserveB with
  | error x => exact rejectedUnchanged_refused _
  | ok amounts => exact absurd ⟨hfind, howned, not_lt.mp hlp, hquote⟩ (h position amounts)

omit [MathSqrt K] in
/-- **A removal with a save that throws** leaves a trace when the pool is saved and the position is
not. -/
theorem failing_removal_iff {poolId : ℕ} {dto : RemoveLiquidityDto K} {pool : LiquidityPool K}
    {position : PoolPosition K} {amounts : WithdrawQuote K}
    (h : WithdrawalAccepted d poolId dto.userId dto.lpAmount pool position amounts)
    (hstatus : pool.status ≠ .emergency)
    (n : ℕ) : RejectedUnchanged d (((removeLiquidity poolId dto).failAmong isSave e n).eval sql d) ↔
      n ≠ 1 := by
  have hpools : d.pools.save (pool.withdraw dto.lpAmount amounts) ≠ d.pools :=
    pools_save_ne h.found rfl (withdrawal_ne h)
  have hreads : ((removeLiquidity poolId dto).failAmong isSave e n).eval sql d =
      ((do
        query (.savePool (pool.withdraw dto.lpAmount amounts))
        query (.savePosition (position.withdraw dto.lpAmount))
        return ⟨pool.withdraw dto.lpAmount amounts, position.withdraw dto.lpAmount, amounts⟩ :
            Session K (RemoveLiquidityResult K)).failAmong isSave e n).eval sql d := by
    rw [removeLiquidity, Prog.failAmong_bind (within_getPool poolId), Prog.eval_bind,
      eval_getPool, h.found]
    simp only [PoolsDb.load, hstatus, if_false]
    exact eval_withdrawal h _ n
  rw [hreads]
  rcases n with _ | _ | n
  · rw [Prog.eval_failAmong_zero rfl]
    exact iff_of_true (rejectedUnchanged_refused e) (by simp)
  · -- the pool is saved, and the position is not
    rw [Prog.eval_failAmong_succ rfl, Prog.eval_failAmong_zero rfl, rejectedUnchanged_error_iff]
    exact iff_of_false (fun hsame => hpools (congrArg PoolsDb.pools hsame)) (by simp)
  · rw [Prog.eval_failAmong_succ rfl, Prog.eval_failAmong_succ rfl]
    exact iff_of_true (rejectedUnchanged_ok rfl) (by simp)

omit [MathSqrt K] in
/-- **An emergency withdrawal with a save that throws** leaves a trace when the pool is saved and
one of the rows behind it is not. -/
theorem failing_emergency_iff {poolId : ℕ} {dto : EmergencyWithdrawDto K} {pool : LiquidityPool K}
    {position : PoolPosition K} {amounts : WithdrawQuote K}
    (h : WithdrawalAccepted d poolId dto.userId dto.lpAmount pool position amounts) (n : ℕ) :
    RejectedUnchanged d (((emergencyWithdraw poolId dto).failAmong isSave e n).eval sql d) ↔
      n ≠ 1 ∧ n ≠ 2 := by
  have hpools : d.pools.save (pool.withdraw dto.lpAmount amounts) ≠ d.pools :=
    pools_save_ne h.found rfl (withdrawal_ne h)
  have hreads : ((emergencyWithdraw poolId dto).failAmong isSave e n).eval sql d =
      ((do
        query (.savePool (pool.withdraw dto.lpAmount amounts))
        query (.savePosition (position.burn dto.lpAmount))
        query (.insertWithdrawal (newWithdrawal poolId dto amounts))
        return newWithdrawal poolId dto amounts :
            Session K (EmergencyWithdrawal K)).failAmong isSave e n).eval sql d := by
    rw [emergencyWithdraw, Prog.failAmong_bind (within_getPool poolId), Prog.eval_bind,
      eval_getPool, h.found]
    exact eval_withdrawal h _ n
  rw [hreads]
  rcases n with _ | _ | _ | n
  · rw [Prog.eval_failAmong_zero rfl]
    exact iff_of_true (rejectedUnchanged_refused e) (by simp)
  · -- the pool is saved, and the position is not
    rw [Prog.eval_failAmong_succ rfl, Prog.eval_failAmong_zero rfl, rejectedUnchanged_error_iff]
    exact iff_of_false (fun hsame => hpools (congrArg PoolsDb.pools hsame)) (by simp)
  · -- both are saved, and the withdrawal is not recorded
    rw [Prog.eval_failAmong_succ rfl, Prog.eval_failAmong_succ rfl, Prog.eval_failAmong_zero rfl,
      rejectedUnchanged_error_iff]
    exact iff_of_false (fun hsame => hpools (congrArg PoolsDb.pools hsame)) (by simp)
  · rw [Prog.eval_failAmong_succ rfl, Prog.eval_failAmong_succ rfl, Prog.eval_failAmong_succ rfl]
    exact iff_of_true (rejectedUnchanged_ok rfl) (by simp)

/-! ### Swaps -/

omit [MathSqrt K] in
/-- A position before the one whose save throws was saved with its share. -/
theorem failing_distributeLoop {α : Type} (feeAmount supply : K) (isTokenA : Bool)
    (f : Unit → Session K α) {l : List (PoolPosition K)} {n : ℕ} (hn : n < l.length) :
    ((distributeLoop feeAmount supply isTokenA l >>= f).failAmong isSave e n).eval sql d =
      (.error e,
        { d with positions := earnAll feeAmount supply isTokenA (l.take n) d.positions }) := by
  induction l generalizing d n with
  | nil => cases hn
  | cons position l ih =>
    rw [distributeLoop, bind_assoc]
    cases n with
    | zero => exact Prog.eval_failAmong_zero rfl _
    | succ n =>
      rw [Prog.eval_failAmong_succ rfl]
      exact ih (Nat.lt_of_succ_lt_succ hn)

omit [MathSqrt K] in
/-- The save that throws is behind those of the positions. -/
theorem passed_distributeLoop {α : Type} (feeAmount supply : K) (isTokenA : Bool)
    (f : Unit → Session K α) (l : List (PoolPosition K)) (n : ℕ) :
    ((distributeLoop feeAmount supply isTokenA l >>= f).failAmong isSave e
      (l.length + n)).eval sql d =
      ((f ()).failAmong isSave e n).eval sql
        { d with positions := earnAll feeAmount supply isTokenA l d.positions } := by
  induction l generalizing d with
  | nil =>
    rw [List.length_nil, Nat.zero_add]
    rfl
  | cons position l ih =>
    rw [distributeLoop, bind_assoc, List.length_cons, Nat.add_right_comm,
      Prog.eval_failAmong_succ rfl]
    exact ih

omit [LinearOrder K] [MathSqrt K] in
/-- A position keeps its fees exactly when its share is 0. -/
theorem earn_eq_self_iff (position : PoolPosition K) (isTokenA : Bool) (share : K) :
    position.earn isTokenA share = position ↔ share = 0 := by
  constructor
  · intro hsame
    cases isTokenA with
    | true => exact add_eq_left.mp (congrArg PoolPosition.feesEarnedA hsame)
    | false => exact add_eq_left.mp (congrArg PoolPosition.feesEarnedB hsame)
  · rintro rfl
    cases isTokenA <;> simp [PoolPosition.earn]

omit [MathSqrt K] in
/-- The fee of a swap leaves the positions as they are when none of them has a share. -/
theorem earnAll_take_eq_iff (feeAmount supply : K) (isTokenA : Bool) (poolId n : ℕ) :
    earnAll feeAmount supply isTokenA
    ((positionsOf d.positions poolId).take n) d.positions = d.positions ↔
      ∀ position ∈ (positionsOf d.positions poolId).take n,
        distributeFees feeAmount position.lpAmount supply = 0 := by
  have hnodup : (((positionsOf d.positions poolId).take n).map PoolPosition.key).Nodup := by
    have hall : ((positionsOf d.positions poolId).map PoolPosition.key).Nodup := by
      have hperm : (positionsOf d.positions poolId).Perm
          (d.positions.rows.filter (·.poolId = poolId)) :=
        List.perm_insertionSort _ _
      exact ((hperm.map _).nodup_iff).mpr (d.positions.nodup.sublist (List.filter_sublist.map _))
    exact hall.sublist ((List.take_sublist n _).map _)
  rw [earnAll, Table.saveAll_eq_self_iff (fun p => by cases isTokenA <;> rfl) hnodup
    fun p hp => (mem_positionsOf.mp (List.mem_of_mem_take hp)).1]
  exact forall₂_congr fun position _ => earn_eq_self_iff position isTokenA _

omit [Field K] [LinearOrder K] [MathSqrt K] in
theorem direction_eq_pure {pool : LiquidityPool K} {tokenA tokenB : VirtualAsset} {tokenIn : String}
    (hA : d.assets.find pool.tokenAId = some tokenA)
    (htoken : tokenIn = tokenA.symbol ∨ tokenIn = tokenB.symbol) :
    ∃ tokenOut, (direction tokenIn tokenA tokenB : Session K _) = pure
    (d.paysTokenA pool tokenIn, tokenOut) := by
  have hpays : d.paysTokenA pool tokenIn = decide (tokenA.symbol = tokenIn) := by
    simp [PoolsDb.paysTokenA, hA]
  rw [direction, hpays]
  by_cases hin : tokenIn = tokenA.symbol
  · exact ⟨tokenB.symbol, by rw [if_pos hin, decide_eq_true hin.symm]⟩
  · exact ⟨tokenA.symbol,
      by rw [if_neg hin, if_pos (htoken.resolve_left hin), decide_eq_false (Ne.symm hin)]⟩

omit [MathSqrt K] in
/-- **A swap with a save that throws** leaves a trace when a position before it had a share, or the
swap is recorded. -/
theorem failing_swap_iff {poolId : ℕ} {dto : SwapDto K} {pool : LiquidityPool K}
    {quote : SwapQuote K} (h : SwapAccepted d poolId dto pool quote) (n : ℕ) :
    RejectedUnchanged d (((swap poolId dto).failAmong isSave e n).eval sql d) ↔
      n ≠ (positionsOf d.positions poolId).length + 1 ∧
        (n ≤ (positionsOf d.positions poolId).length →
          ∀ position ∈ (positionsOf d.positions poolId).take n,
          distributeFees quote.feeAmount position.lpAmount pool.totalLpSupply = 0) := by
  obtain ⟨tokenA, tokenB, hA, hB, htoken⟩ := h.tokens
  obtain ⟨tokenOut, hdirection⟩ := direction_eq_pure hA htoken
  obtain rfl : pool.id = poolId := Table.key_of_find h.found
  have hreads : ((swap pool.id dto).failAmong isSave e n).eval sql d =
      ((do
        distributeLoop quote.feeAmount pool.totalLpSupply (d.paysTokenA pool dto.tokenIn)
          (positionsOf d.positions pool.id)
        query (.insertSwap (newSwap pool.id dto tokenOut quote))
        query (.savePool (pool.exchange (d.paysTokenA pool dto.tokenIn) dto.amountIn quote))
        return ⟨newSwap pool.id dto tokenOut quote,
          pool.exchange (d.paysTokenA pool dto.tokenIn) dto.amountIn quote⟩ :
            Session K (SwapResult K)).failAmong isSave e n).eval sql d := by
    rw [swap, Prog.failAmong_bind (within_getPool pool.id), Prog.eval_bind, eval_getPool, h.found]
    simp only [PoolsDb.load, ne_eq, h.active, not_true_eq_false, if_false]
    rw [Prog.failAmong_bind (within_relation _ _), Prog.eval_bind, eval_relation]
    simp only
    rw [Prog.failAmong_bind (within_relation _ _), Prog.eval_bind, eval_relation]
    simp only [Option.or_self, hA, hB, hdirection, pure_bind, h.quoted, attempt_ok,
      h.minimum, if_false]
    rw [distributeFeesToLps, bind_assoc, Prog.eval_failAmong_of_not rfl,
      LiquidityPool.exchange_totalLpSupply,
      LiquidityPool.exchange_id]
    rfl
  have htake := earnAll_take_eq_iff (d := d) quote.feeAmount pool.totalLpSupply
    (d.paysTokenA pool dto.tokenIn) pool.id
  rw [hreads]
  rcases Nat.lt_or_ge n (positionsOf d.positions pool.id).length with hlt | hge
  · -- the save of a position
    rw [failing_distributeLoop _ _ _ _ hlt, rejectedUnchanged_error_iff]
    -- neither the pool nor the swap is saved yet, so that the positions alone decide
    refine Iff.trans ?_
      ((htake n).trans ⟨fun hzero => ⟨by omega, fun _ => hzero⟩, fun hboth => hboth.2 hlt.le⟩)
    exact ⟨fun hsame => congrArg PoolsDb.positions hsame, fun hsame => by rw [hsame]⟩
  obtain ⟨m, rfl⟩ := Nat.exists_eq_add_of_le hge
  rw [passed_distributeLoop]
  rcases m with _ | _ | m
  · -- the record of the swap
    rw [Prog.eval_failAmong_zero rfl, rejectedUnchanged_error_iff]
    have hall := htake (positionsOf d.positions pool.id).length
    rw [List.take_length] at hall
    rw [Nat.add_zero, List.take_length]
    refine Iff.trans ?_
      (hall.trans ⟨fun hzero => ⟨by omega, fun _ => hzero⟩, fun hboth => hboth.2 le_rfl⟩)
    exact ⟨fun hsame => congrArg PoolsDb.positions hsame, fun hsame => by rw [hsame]⟩
  · -- the swap is recorded, and the pool is not saved
    rw [Prog.eval_failAmong_succ rfl, Prog.eval_failAmong_zero rfl, rejectedUnchanged_error_iff]
    refine iff_of_false (fun hsame => ?_) (by simp)
    have hlength := congrArg (fun d : PoolsDb K => d.swaps.length) hsame
    simp only [sql, List.length_append, List.length_singleton] at hlength
    omega
  · rw [Prog.eval_failAmong_succ rfl, Prog.eval_failAmong_succ rfl]
    exact iff_of_true (rejectedUnchanged_ok rfl) ⟨by omega, fun hle => absurd hle (by omega)⟩

/-! ### Calls that are refused -/

/-- A deposit that does not pass its checks saves nothing. -/
theorem refused_deposit {poolId : ℕ} {dto : AddLiquidityDto K}
    (h : ∀ pool quote, ¬ DepositAccepted d poolId dto pool quote) (n : ℕ) :
    RejectedUnchanged d (((addLiquidity poolId dto).failAmong isSave e n).eval sql d) := by
  rw [addLiquidity, Prog.failAmong_bind (within_getPool poolId), Prog.eval_bind, eval_getPool]
  cases hfind : d.pools.find poolId with
  | none => exact rejectedUnchanged_refused _
  | some pool =>
  by_cases hstatus : pool.status = .active
  swap
  · simp only [PoolsDb.load, ne_eq, hstatus, not_false_eq_true, if_true]
    exact rejectedUnchanged_refused _
  simp only [PoolsDb.load, ne_eq, hstatus, not_true_eq_false, if_false]
  cases hquote : calculateLpTokensToMint dto.amountA dto.amountB pool.reserveA pool.reserveB
    pool.totalLpSupply with
  | error x => exact rejectedUnchanged_refused _
  | ok quote => exact absurd ⟨hfind, hstatus, hquote⟩ (h pool quote)

omit [MathSqrt K] in
/-- A removal that does not pass its checks saves nothing. -/
theorem refused_removal {poolId : ℕ} {dto : RemoveLiquidityDto K}
    (h : ∀ pool position amounts,
      WithdrawalAccepted d poolId dto.userId dto.lpAmount pool position amounts →
      pool.status = .emergency) (n : ℕ) :
    RejectedUnchanged d (((removeLiquidity poolId dto).failAmong isSave e n).eval sql d) := by
  rw [removeLiquidity, Prog.failAmong_bind (within_getPool poolId), Prog.eval_bind, eval_getPool]
  cases hfind : d.pools.find poolId with
  | none => exact rejectedUnchanged_refused _
  | some pool =>
  by_cases hstatus : pool.status = .emergency
  · simp only [PoolsDb.load, hstatus, if_true]
    exact rejectedUnchanged_refused _
  simp only [PoolsDb.load, hstatus, if_false]
  exact refused_withdrawal hfind (fun position amounts hok => hstatus
    (h pool position amounts hok)) _ n

omit [MathSqrt K] in
/-- An emergency withdrawal that does not pass its checks saves nothing. -/
theorem refused_emergency {poolId : ℕ} {dto : EmergencyWithdrawDto K}
    (h : ∀ pool position amounts,
      ¬ WithdrawalAccepted d poolId dto.userId dto.lpAmount pool position amounts) (n : ℕ) :
    RejectedUnchanged d (((emergencyWithdraw poolId dto).failAmong isSave e n).eval sql d) := by
  rw [emergencyWithdraw, Prog.failAmong_bind (within_getPool poolId), Prog.eval_bind, eval_getPool]
  cases hfind : d.pools.find poolId with
  | none => exact rejectedUnchanged_refused _
  | some pool => exact refused_withdrawal hfind (h pool) _ n

omit [MathSqrt K] in
/-- A swap that does not pass its checks saves nothing. -/
theorem refused_swap {poolId : ℕ} {dto : SwapDto K}
    (h : ∀ pool quote, ¬ SwapAccepted d poolId dto pool quote) (n : ℕ) :
    RejectedUnchanged d (((swap poolId dto).failAmong isSave e n).eval sql d) := by
  rw [swap, Prog.failAmong_bind (within_getPool poolId), Prog.eval_bind, eval_getPool]
  cases hfind : d.pools.find poolId with
  | none => exact rejectedUnchanged_refused _
  | some pool =>
  by_cases hstatus : pool.status = .active
  swap
  · simp only [PoolsDb.load, ne_eq, hstatus, not_false_eq_true, if_true]
    exact rejectedUnchanged_refused _
  simp only [PoolsDb.load, ne_eq, hstatus, not_true_eq_false, if_false]
  -- the tokens of the pool
  rw [Prog.failAmong_bind (within_relation _ _), Prog.eval_bind, eval_relation]
  simp only
  rw [Prog.failAmong_bind (within_relation _ _), Prog.eval_bind, eval_relation]
  simp only [Option.or_self]
  cases hA : d.assets.find pool.tokenAId with
  | none => exact rejectedUnchanged_refused _
  | some tokenA =>
  cases hB : d.assets.find pool.tokenBId with
  | none => exact rejectedUnchanged_refused _
  | some tokenB =>
  simp only
  by_cases htoken : dto.tokenIn = tokenA.symbol ∨ dto.tokenIn = tokenB.symbol
  swap
  · rw [direction, if_neg (not_or.mp htoken).1, if_neg (not_or.mp htoken).2]
    exact rejectedUnchanged_refused _
  obtain ⟨tokenOut, hdirection⟩ := direction_eq_pure (K := K) hA htoken
  -- the quote, and the slippage
  simp only [hdirection, pure_bind]
  cases hquote : getAmountOut dto.amountIn (pool.reserveIn (d.paysTokenA pool dto.tokenIn))
      (pool.reserveOut (d.paysTokenA pool dto.tokenIn)) pool.feeBps with
  | error x => exact rejectedUnchanged_refused _
  | ok quote =>
  by_cases hmin : belowMinimum dto.minAmountOut quote.amountOut
  · simp only [attempt_ok, pure_bind, hmin, if_true]
    exact rejectedUnchanged_refused _
  · exact absurd ⟨hfind, hstatus, ⟨tokenA, tokenB, hA, hB, htoken⟩, hquote, hmin⟩ (h pool quote)

omit [LinearOrder K] [MathSqrt K] in
theorem failing_create (dto : CreatePoolDto) (n : ℕ) :
    RejectedUnchanged d (((createPool dto : Session K _).failAmong isSave e n).eval sql d) := by
  rw [createPool]
  by_cases hsame : dto.tokenAId = dto.tokenBId
  · simp only [hsame, if_true]
    exact rejectedUnchanged_refused _
  simp only [hsame, if_false]
  rw [Prog.eval_failAmong_of_not rfl, Prog.eval_failAmong_of_not rfl]
  by_cases hassets : d.assets.find dto.tokenAId = none ∨ d.assets.find dto.tokenBId = none
  · simp only [sql, hassets, if_true]
    exact rejectedUnchanged_refused _
  simp only [sql, hassets, if_false]
  rw [Prog.eval_failAmong_of_not rfl]
  by_cases hexisting : (pairPool d.pools dto.tokenAId dto.tokenBId dto.chainId).isSome
  · simp only [sql, hexisting, if_true]
    exact rejectedUnchanged_refused _
  simp only [sql, hexisting]
  cases n with
  | zero =>
    refine (congrArg (RejectedUnchanged d) (Prog.eval_failAmong_zero rfl _)).mpr ?_
    exact rejectedUnchanged_refused e
  | succ n =>
    refine (congrArg (RejectedUnchanged d) (Prog.eval_failAmong_succ rfl _ n)).mpr ?_
    exact rejectedUnchanged_ok rfl

omit [Field K] [LinearOrder K] [MathSqrt K] in
/-- A call that is refused changes nothing, so that only what it was accepted for decides. -/
theorem unchanged_iff_of_accepted {α : Type} {U : Prop} {A N : α → Prop}
    (haccepted : ∀ a, A a → (U ↔ N a))
    (hrefused : (∀ a, ¬ A a) → U) : U ↔ ∀ a, A a → N a := by
  constructor
  · exact fun hunchanged a ha => (haccepted a ha).mp hunchanged
  · intro hharmless
    by_cases hsome : ∃ a, A a
    · obtain ⟨a, ha⟩ := hsome
      exact (haccepted a ha).mpr (hharmless a ha)
    · exact hrefused fun a ha => hsome ⟨a, ha⟩

/-- **When a call that is rejected leaves the tables as they were**: the save that throws is
harmless. -/
theorem rejected_unchanged_iff (d : PoolsDb K) (call : PoolCall K) (e : PoolError K) (n : ℕ) :
    RejectedUnchanged d (call.failSave e n d) ↔ Harmless d n call := by
  cases call with
  | create dto =>
    rw [PoolCall.failSave, PoolCall.program, Prog.failAmong_map, rejectedUnchanged_map_iff]
    exact iff_of_true (failing_create dto n) trivial
  | addLiquidity poolId dto =>
    -- an accepted call is judged by the save that throws, a refused one has none
    rw [PoolCall.failSave, PoolCall.program, Prog.failAmong_map,
      rejectedUnchanged_map_iff, Harmless]
    have hiff := unchanged_iff_of_accepted
      (A := fun a : LiquidityPool K × LiquidityQuote K => DepositAccepted d poolId dto a.1 a.2)
      (fun a haccepted => failing_deposit_iff (e := e) haccepted n) fun hrefused =>
        refused_deposit (fun pool quote => hrefused (pool, quote)) n
    simpa only [Prod.forall] using hiff
  | removeLiquidity poolId dto =>
    rw [PoolCall.failSave, PoolCall.program, Prog.failAmong_map,
      rejectedUnchanged_map_iff, Harmless]
    have hiff := unchanged_iff_of_accepted
      (A := fun a : LiquidityPool K × PoolPosition K × WithdrawQuote K =>
        WithdrawalAccepted d poolId dto.userId dto.lpAmount a.1 a.2.1 a.2.2 ∧
          a.1.status ≠ .emergency)
      (fun a haccepted => failing_removal_iff (e := e) haccepted.1 haccepted.2 n) fun hrefused =>
        refused_removal (fun pool position amounts haccepted =>
          not_not.mp fun hstatus => hrefused (pool, position, amounts) ⟨haccepted, hstatus⟩) n
    simpa only [Prod.forall, and_imp] using hiff
  | swap poolId dto =>
    rw [PoolCall.failSave, PoolCall.program, Prog.failAmong_map,
      rejectedUnchanged_map_iff, Harmless]
    have hiff := unchanged_iff_of_accepted
      (A := fun a : LiquidityPool K × SwapQuote K => SwapAccepted d poolId dto a.1 a.2)
      (fun a haccepted => failing_swap_iff (e := e) haccepted n) fun hrefused =>
        refused_swap (fun pool quote => hrefused (pool, quote)) n
    simpa only [Prod.forall] using hiff
  | emergencyWithdraw poolId dto =>
    rw [PoolCall.failSave, PoolCall.program, Prog.failAmong_map,
      rejectedUnchanged_map_iff, Harmless]
    have hiff := unchanged_iff_of_accepted
      (A := fun a : LiquidityPool K × PoolPosition K × WithdrawQuote K =>
        WithdrawalAccepted d poolId dto.userId dto.lpAmount a.1 a.2.1 a.2.2)
      (fun a haccepted => failing_emergency_iff (e := e) haccepted n) fun hrefused =>
        refused_emergency (fun pool position amounts => hrefused (pool, position, amounts)) n
    simpa only [Prod.forall] using hiff

end Calls

/-! ## A swap that is retried -/

/-- A pool with 100 of each token, and its one provider. -/
def providedPool : PoolsDb ℚ where
  pools := Table.empty.save
    { newPool ⟨1, 2, "stellar", none⟩ with
      id := 1
      reserveA := 100
      reserveB := 100
      totalLpSupply := 100 }
  positions := Table.empty.save ⟨1, 7, 100, 100, 100, 0, 0⟩
  swaps := []
  withdrawals := []
  assets := (Table.empty.save ⟨1, "BTC"⟩).save ⟨2, "ETH"⟩

/-- **A fee is credited twice.** The save of the swap throws, and the swap is retried: the provider
has its fee of 3/100 two times, for the one swap that is recorded. -/
theorem fee_credited_twice : ∃ d' : PoolsDb ℚ,
    (PoolCall.swap 1 ⟨8, "BTC", 10, none⟩).failSave .duplicateKey 1 providedPool =
      (.error .duplicateKey, d') ∧
      ¬ RejectedUnchanged providedPool
        ((PoolCall.swap 1 ⟨8, "BTC", 10, none⟩).failSave .duplicateKey 1 providedPool) ∧
      (step d' (.swap 1 ⟨8, "BTC", 10, none⟩)).swaps.length = 1 ∧
      ((step d' (.swap 1 ⟨8, "BTC", 10, none⟩)).positions.find (1, 7)).map (·.feesEarnedA) =
        some (2 * (3 / 100)) := by
  have herror : ((PoolCall.swap 1 ⟨8, "BTC", 10, none⟩).failSave .duplicateKey 1 providedPool).1 =
      .error .duplicateKey := by
    decide +kernel
  have hfees :
    (((PoolCall.swap 1 ⟨8, "BTC", 10, none⟩).failSave .duplicateKey 1 providedPool).2.positions.find
      (1, 7)).map (·.feesEarnedA) = some (3 / 100) := by
    decide +kernel
  refine ⟨_, Prod.ext herror rfl, fun h => ?_, by decide +kernel, by decide +kernel⟩
  rw [h _ herror] at hfees
  exact absurd hfees (by decide +kernel)

end Pools
