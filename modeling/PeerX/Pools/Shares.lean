import PeerX.Pools.PartialSaves
import PeerX.Pools.Reserves
import Mathlib.Algebra.BigOperators.Ring.List

/-!
# Pools: the shares of the providers

The LP tokens of a pool are those of its positions, and the fees of a pool are those its positions
earned. The second identity rests on the first: a fee is shared out completely because the shares of
all positions add up to the supply at each swap. A swap that divides by zero breaks it: the save of
the swap throws when the fee is shared out already.

## Main results

* `Change.shared`, `run_shared`: one call, and a run
* `shares_add_up`: the identities in every run of a pool that starts empty, while no swap divides by
  zero
* `exit_pays_share`: the providers can withdraw everything, in any order
* `remove_after_add`: a deposit that is withdrawn at once
-/

namespace Pools

open Relational Concurrency

variable {K : Type} [Field K] [LinearOrder K]

/-- The sum of a column over the positions of a pool. -/
def held (positions : Table (PoolPosition.key (K := K))) (poolId : ℕ)
    (f : PoolPosition K → K) : K :=
  positions.sum fun p => if p.poolId = poolId then f p else 0

section Held

variable {positions : Table (PoolPosition.key (K := K))} {poolId : ℕ} {f : PoolPosition K → K}
  {p q : PoolPosition K}

omit [LinearOrder K] in
theorem sum_positionsOf : ((positionsOf positions poolId).map f).sum = held positions poolId f := by
  have hperm : (positionsOf positions poolId).Perm
      (positions.rows.filter (·.poolId = poolId)) := List.perm_insertionSort ..
  rw [(hperm.map f).sum_eq]
  unfold held Table.sum
  induction positions.rows with
  | nil => rfl
  | cons p l ih =>
    by_cases hp : p.poolId = poolId
    · simp [hp, ih]
    · simp [hp, ih]

omit [LinearOrder K] in
theorem held_save_of_ne (hp : p ∈ positions.rows) (hkey : q.key = p.key) (hne : p.poolId ≠ poolId) :
    held (positions.save q) poolId f = held positions poolId f := by
  have hq : q.poolId = p.poolId := congrArg Prod.fst hkey
  unfold held
  rw [Table.sum_save hp hkey, if_neg hne, if_neg (hq ▸ hne)]
  simp

omit [LinearOrder K] in
theorem held_save (hp : p ∈ positions.rows) (hkey : q.key = p.key) (hpool : p.poolId = poolId) :
    held (positions.save q) poolId f = held positions poolId f - f p + f q := by
  have hq : q.poolId = p.poolId := congrArg Prod.fst hkey
  unfold held
  rw [Table.sum_save hp hkey, if_pos hpool, if_pos (hq.trans hpool)]

omit [LinearOrder K] in
theorem held_save_new (hq : positions.find q.key = none) :
    held (positions.save q) poolId f =
      held positions poolId f + if q.poolId = poolId then f q else 0 := by
  unfold held
  rw [Table.sum_save_new hq]

omit [LinearOrder K] in
@[simp] theorem earn_key (isTokenA : Bool) (share : K) : (p.earn isTokenA share).key = p.key := by
  cases isTokenA <;> rfl

omit [LinearOrder K] in
@[simp] theorem earn_lpAmount (isTokenA : Bool) (share : K) :
    (p.earn isTokenA share).lpAmount = p.lpAmount := by
  cases isTokenA <;> rfl

/-- What the distribution of a fee adds to a column of the pool. -/
theorem held_earnAll {fee supply : K} {isTokenA : Bool} {id : ℕ} :
    held (earnAll fee supply isTokenA (positionsOf positions id) positions) poolId f =
      held positions poolId f + if id = poolId then
        ((positionsOf positions id).map fun p =>
          f (p.earn isTokenA (distributeFees fee p.lpAmount supply)) - f p).sum else 0 := by
  have hnodup : ((positionsOf positions id).map PoolPosition.key).Nodup := by
    have hperm : (positionsOf positions id).Perm (positions.rows.filter (·.poolId = id)) :=
      List.perm_insertionSort ..
    rw [(hperm.map _).nodup_iff]
    exact positions.nodup.sublist (List.filter_sublist.map _)
  unfold held earnAll
  rw [Table.sum_saveAll (fun _ => earn_key ..) hnodup fun p hp => (mem_positionsOf.mp hp).1]
  congr 1
  by_cases hid : id = poolId
  · rw [if_pos hid]
    congr 1
    refine List.map_congr_left fun p hp => ?_
    have hp : p.poolId = poolId := (mem_positionsOf.mp hp).2.trans hid
    have hq : (p.earn isTokenA (distributeFees fee p.lpAmount supply)).poolId = poolId :=
      (congrArg Prod.fst (earn_key ..)).trans hp
    rw [if_pos hp, if_pos hq]
  · rw [if_neg hid]
    refine List.sum_eq_zero fun x hx => ?_
    obtain ⟨p, hp, rfl⟩ := List.mem_map.mp hx
    have hp : p.poolId ≠ poolId := fun h => hid ((mem_positionsOf.mp hp).2.symm.trans h)
    have hq : (p.earn isTokenA (distributeFees fee p.lpAmount supply)).poolId ≠ poolId := by
      rw [show (p.earn isTokenA (distributeFees fee p.lpAmount supply)).poolId = p.poolId from
        congrArg Prod.fst (earn_key ..)]
      exact hp
    rw [if_neg hp, if_neg hq, sub_self]

/-- A fee is shared out completely when the positions hold the supply. -/
theorem sum_distributeFees (fee : K) {supply : K} (hsupply : 0 < supply) {l : List (PoolPosition K)}
    (hl : ∀ p ∈ l, 0 ≤ p.lpAmount) (hsum : (l.map (·.lpAmount)).sum = supply) :
    (l.map fun p => distributeFees fee p.lpAmount supply).sum = fee := by
  have hshare : ∀ p ∈ l, distributeFees fee p.lpAmount supply = fee / supply * p.lpAmount := by
    intro p hp
    unfold distributeFees
    split
    · next h =>
      have hzero : p.lpAmount = 0 :=
        le_antisymm (h.resolve_left (not_le.mpr hsupply)) (hl p hp)
      rw [hzero, mul_zero]
    · rw [mul_div_right_comm]
  rw [List.map_congr_left hshare, List.sum_map_mul_left, hsum, div_mul_cancel₀ _ hsupply.ne']

omit [LinearOrder K] in
/-- What a deposit adds to a column of the pool, whether the position is new or not. -/
theorem held_deposit {id userId : ℕ} {quote : LiquidityQuote K} (δ : K)
    (hsome : ∀ p, f (depositPosition (some p) id userId quote) = f p + δ)
    (hnone : f (depositPosition none id userId quote) = δ) :
    held (positions.save (depositPosition (positions.find (id, userId)) id userId quote)) poolId f =
      held positions poolId f + if id = poolId then δ else 0 := by
  cases hfind : positions.find (id, userId) with
  | none =>
    rw [held_save_new hfind, hnone]
    rfl
  | some p =>
    have hid : p.poolId = id := congrArg Prod.fst (Table.key_of_find hfind)
    have hkey : (depositPosition (some p) id userId quote).key = p.key := rfl
    by_cases hne : id = poolId
    · rw [held_save (Table.mem_of_find hfind) hkey (hid.trans hne), hsome, if_pos hne]
      abel
    · rw [held_save_of_ne (Table.mem_of_find hfind) hkey (hid ▸ hne), if_neg hne, add_zero]

end Held

/-! ## The identities -/

/-- The shares of a pool: the positions hold the supply and earned the fees, no position is
negative, and a pool without LP tokens has no reserves. -/
structure Shared (positions : Table (PoolPosition.key (K := K))) (pool : LiquidityPool K) :
    Prop where
  supply : pool.totalLpSupply = held positions pool.id (·.lpAmount)
  feesA : pool.accumulatedFeesA = held positions pool.id (·.feesEarnedA)
  feesB : pool.accumulatedFeesB = held positions pool.id (·.feesEarnedB)
  lp_nonneg : ∀ p ∈ positions.rows, p.poolId = pool.id → 0 ≤ p.lpAmount
  drained : pool.totalLpSupply = 0 → pool.reserveA = 0 ∧ pool.reserveB = 0

section Identities

variable [IsStrictOrderedRing K] {pool : LiquidityPool K}
  {positions : Table (PoolPosition.key (K := K))}

theorem Shared.supply_nonneg (h : Shared positions pool) : 0 ≤ pool.totalLpSupply := by
  rw [h.supply]
  refine Table.sum_nonneg fun p hp => ?_
  split
  · next hof => exact h.lp_nonneg p hp hof
  · exact le_rfl

omit [IsStrictOrderedRing K] in
/-- Positions of another pool that change leave the identities alone. -/
theorem Shared.of_held {positions' : Table (PoolPosition.key (K := K))}
    (h : Shared positions pool)
    (hheld : ∀ f, held positions' pool.id f = held positions pool.id f)
    (hmem : ∀ p ∈ positions'.rows, p.poolId = pool.id → p ∈ positions.rows) :
    Shared positions' pool where
  supply := by rw [h.supply, hheld]
  feesA := by rw [h.feesA, hheld]
  feesB := by rw [h.feesB, hheld]
  lp_nonneg := fun p hp hof => h.lp_nonneg p (hmem p hp hof) hof
  drained := h.drained

theorem Shared.deposit [MathSqrt K] [LawfulSqrt K] (h : Shared positions pool) (userId : ℕ)
    {a b : K} {quote : LiquidityQuote K}
    (hquote : calculateLpTokensToMint a b pool.reserveA pool.reserveB pool.totalLpSupply =
      .ok quote) :
    Shared (positions.save
      (depositPosition (positions.find (pool.id, userId)) pool.id userId quote))
      (pool.deposit quote) := by
  have hmint : 0 < quote.lpTokensMinted := by
    obtain ⟨ha, hb, ⟨-, rfl⟩ | ⟨hne, hA, hB, rfl⟩⟩ := calculateLpTokensToMint_eq_ok hquote
    · exact LawfulSqrt.sqrt_pos _ (mul_pos ha hb)
    · exact proportionalMint_pos ha hb hA hB (h.supply_nonneg.lt_of_ne' hne)
  constructor
  · show pool.totalLpSupply + quote.lpTokensMinted = held _ pool.id _
    rw [held_deposit quote.lpTokensMinted (fun _ => rfl) rfl, if_pos rfl, h.supply]
  · show pool.accumulatedFeesA = held _ pool.id _
    rw [held_deposit 0 (fun _ => (add_zero _).symm) rfl, if_pos rfl, add_zero, h.feesA]
  · show pool.accumulatedFeesB = held _ pool.id _
    rw [held_deposit 0 (fun _ => (add_zero _).symm) rfl, if_pos rfl, add_zero, h.feesB]
  · intro p hp hof
    rcases Table.mem_save.mp hp with rfl | ⟨hp, -⟩
    · cases hfind : positions.find (pool.id, userId) with
      | none => exact hmint.le
      | some p =>
        have hp := h.lp_nonneg p (Table.mem_of_find hfind)
          (congrArg Prod.fst (Table.key_of_find hfind))
        exact add_nonneg hp hmint.le
    · exact h.lp_nonneg p hp hof
  · intro hzero
    exact absurd hzero (add_pos_of_nonneg_of_pos h.supply_nonneg hmint).ne'

theorem Shared.withdraw (h : Shared positions pool) {p p' : PoolPosition K} {lp : K}
    {amounts : WithdrawQuote K} (hp : p ∈ positions.rows) (hof : p.poolId = pool.id)
    (hlp : lp ≤ p.lpAmount)
    (hamounts : calculateWithdrawAmounts lp pool.totalLpSupply pool.reserveA pool.reserveB =
      .ok amounts) (hleft : p' = p.withdraw lp ∨ p' = p.burn lp) :
    Shared (positions.save p') (pool.withdraw lp amounts) := by
  obtain ⟨hkey, hlp', hA', hB'⟩ : p'.key = p.key ∧ p'.lpAmount = p.lpAmount - lp ∧
      p'.feesEarnedA = p.feesEarnedA ∧ p'.feesEarnedB = p.feesEarnedB := by
    rcases hleft with rfl | rfl
    · exact ⟨rfl, rfl, rfl, rfl⟩
    · exact ⟨rfl, rfl, rfl, rfl⟩
  constructor
  · show pool.totalLpSupply - lp = held _ pool.id _
    rw [held_save hp hkey hof, hlp', h.supply]
    abel
  · show pool.accumulatedFeesA = held _ pool.id _
    rw [held_save hp hkey hof, hA', h.feesA]
    abel
  · show pool.accumulatedFeesB = held _ pool.id _
    rw [held_save hp hkey hof, hB', h.feesB]
    abel
  · intro q hq hofq
    rcases Table.mem_save.mp hq with rfl | ⟨hq, -⟩
    · rw [hlp']
      exact sub_nonneg.mpr hlp
    · exact h.lp_nonneg q hq hofq
  · intro hzero
    obtain ⟨-, hsupply, -, rfl⟩ := calculateWithdrawAmounts_eq_ok hamounts
    have hall : lp = pool.totalLpSupply := (sub_eq_zero.mp hzero).symm
    simp [LiquidityPool.withdraw, hall, div_self hsupply.ne']

/-- A swap: its fee is shared out completely. -/
theorem Shared.exchange (h : Shared positions pool) {isTokenA : Bool} {amountIn : K}
    {quote : SwapQuote K}
    (hquote : getAmountOut amountIn (pool.reserveIn isTokenA) (pool.reserveOut isTokenA)
      pool.feeBps = .ok quote) :
    Shared (earnAll quote.feeAmount pool.totalLpSupply isTokenA (positionsOf positions pool.id)
      positions) (pool.exchange isTokenA amountIn quote) := by
  -- the quote is refused without reserves, and there are none without a supply
  have hsupply : 0 < pool.totalLpSupply := by
    refine h.supply_nonneg.lt_of_ne' fun hzero => ?_
    obtain ⟨hA, hB⟩ := h.drained hzero
    obtain ⟨-, hIn, -⟩ := getAmountOut_eq_ok.mp hquote
    cases isTokenA
    · exact absurd hB hIn.ne'
    · exact absurd hA hIn.ne'
  have hshared := sum_distributeFees quote.feeAmount hsupply
    (fun p hp => h.lp_nonneg p (mem_positionsOf.mp hp).1 (mem_positionsOf.mp hp).2)
    (sum_positionsOf.trans h.supply.symm)
  constructor
  · rw [LiquidityPool.exchange_totalLpSupply, LiquidityPool.exchange_id, held_earnAll, if_pos rfl,
      ← h.supply]
    simp
  · rw [LiquidityPool.exchange_id, held_earnAll, if_pos rfl, ← h.feesA]
    cases isTokenA
    · simp [PoolPosition.earn, LiquidityPool.exchange]
    · simpa [PoolPosition.earn, LiquidityPool.exchange] using hshared.symm
  · rw [LiquidityPool.exchange_id, held_earnAll, if_pos rfl, ← h.feesB]
    cases isTokenA
    · simpa [PoolPosition.earn, LiquidityPool.exchange] using hshared.symm
    · simp [PoolPosition.earn, LiquidityPool.exchange]
  · intro p hp hof
    rw [LiquidityPool.exchange_id] at hof
    rcases Table.mem_saveAll hp with ⟨q, hq, rfl⟩ | hp
    · rw [earn_lpAmount]
      exact h.lp_nonneg q (mem_positionsOf.mp hq).1 (mem_positionsOf.mp hq).2
    · exact h.lp_nonneg p hp hof
  · intro hzero
    rw [LiquidityPool.exchange_totalLpSupply] at hzero
    exact absurd hzero hsupply.ne'

end Identities

/-! ## Runs -/

section Runs

variable [IsStrictOrderedRing K] [MathSqrt K] [LawfulSqrt K] {d d' : PoolsDb K}
  {pool : LiquidityPool K}

omit [Field K] [LinearOrder K] [IsStrictOrderedRing K] [MathSqrt K] [LawfulSqrt K] in
theorem find_save_other {saved : LiquidityPool K} (hpool : pool ∈ d.pools.rows)
    (hne : saved.id ≠ pool.id) : (d.pools.save saved).find pool.id = some pool := by
  rw [Table.find_save_of_ne _ (Ne.symm hne), Table.find_of_mem hpool]

/-- **One call** keeps the identities of every pool. -/
theorem Change.shared (h : Change d d') (hpool : pool ∈ d.pools.rows)
    (hs : Shared d.positions pool) :
    ∃ pool', d'.pools.find pool.id = some pool' ∧ Shared d'.positions pool' := by
  cases h with
  | rejected => exact ⟨pool, Table.find_of_mem hpool, hs⟩
  | created dto =>
    -- a new pool has an identifier of its own
    refine ⟨pool, find_save_other hpool fun hid => ?_, hs⟩
    have hnew := find_nextId d.pools
    rw [show nextId d.pools = pool.id from hid, Table.find_of_mem hpool] at hnew
    cases hnew
  | @deposited saved userId a b quote hsaved hactive hquote =>
    by_cases hid : saved.id = pool.id
    · obtain rfl := Table.eq_of_key_eq hsaved hpool hid
      exact ⟨_, Table.find_save_self .., hs.deposit userId hquote⟩
    · -- a deposit into another pool
      refine ⟨pool, find_save_other hpool hid, hs.of_held (fun f => ?_) fun p hp hof => ?_⟩
      · cases hfind : d.positions.find (saved.id, userId) with
        | none =>
          have hnew : (depositPosition none saved.id userId quote).poolId ≠ pool.id := hid
          rw [held_save_new hfind, if_neg hnew, add_zero]
        | some p =>
          have hkey := Table.key_of_find hfind
          have hof : p.poolId = saved.id := congrArg Prod.fst hkey
          have hsame : (depositPosition (some p) saved.id userId quote).key = p.key := rfl
          exact held_save_of_ne (Table.mem_of_find hfind) hsame (hof ▸ hid)
      · rcases Table.mem_save.mp hp with rfl | ⟨hp, -⟩
        · exact absurd ((congrArg Prod.fst (key_depositPosition ..)).symm.trans hof) hid
        · exact hp
  | @withdrawn saved p p' lp amounts withdrawals hsaved hp hof hlp hamounts hleft =>
    by_cases hid : saved.id = pool.id
    · obtain rfl := Table.eq_of_key_eq hsaved hpool hid
      exact ⟨_, Table.find_save_self .., hs.withdraw hp hof hlp hamounts hleft⟩
    · -- a withdrawal from another pool
      have hkey : p'.key = p.key := by
        rcases hleft with rfl | rfl
        · rfl
        · rfl
      refine ⟨pool, find_save_other hpool hid, hs.of_held (fun f => ?_) fun q hq hofq => ?_⟩
      · exact held_save_of_ne hp hkey (hof ▸ hid)
      · rcases Table.mem_save.mp hq with rfl | ⟨hq, -⟩
        · exact absurd (hof.symm.trans ((congrArg Prod.fst hkey).symm.trans hofq)) hid
        · exact hq
  | @swapped saved isTokenA amountIn quote swaps hsaved hactive hquote =>
    by_cases hid : saved.id = pool.id
    · obtain rfl := Table.eq_of_key_eq hsaved hpool hid
      refine ⟨_, ?_, hs.exchange hquote⟩
      rw [← LiquidityPool.exchange_id saved isTokenA amountIn quote]
      exact Table.find_save_self ..
    · have hne : (saved.exchange isTokenA amountIn quote).id ≠ pool.id := by
        rw [LiquidityPool.exchange_id]
        exact hid
      -- the fees of a swap go to the positions of its own pool
      refine ⟨pool, find_save_other hpool hne, hs.of_held (fun f => ?_) fun p hp hof => ?_⟩
      · rw [held_earnAll, if_neg hid, add_zero]
      · rcases Table.mem_saveAll hp with ⟨q, hq, rfl⟩ | hp
        · have hofq : q.poolId = pool.id := (congrArg Prod.fst (earn_key ..)).symm.trans hof
          exact absurd ((mem_positionsOf.mp hq).2.symm.trans hofq) hid
        · exact hp

/-! ## Swaps that divide by zero -/

omit [IsStrictOrderedRing K] [MathSqrt K] [LawfulSqrt K] in
/-- The divisor of what a swap pays. -/
def divisor (d : PoolsDb K) (pool : LiquidityPool K) (dto : SwapDto K) : K :=
  pool.reserveIn (d.paysTokenA pool dto.tokenIn) + amountInWithFee dto.amountIn pool.feeBps

/-- The tables after a call. A swap that passes the checks and divides by zero pays an infinite
amount, which no column holds: the save of the swap throws, after the saves of the positions. -/
def serve (d : PoolsDb K) (call : PoolCall K) : PoolsDb K :=
  match call with
  | .swap poolId dto =>
    if ((swap poolId dto).eval sql d).1.isOk ∧ ∃ pool ∈ d.pools.find poolId,
      divisor d pool dto = 0 then
      (call.failSave (.error "numeric field overflow") (positionsOf d.positions poolId).length d).2
    else step d call
  | _ => step d call

/-- The call divides by no zero, if it is a swap that passes the checks. -/
def Divisible (d : PoolsDb K) : PoolCall K → Prop
  | .swap poolId dto => ∀ pool quote, SwapAccepted d poolId dto pool quote → divisor d pool dto ≠ 0
  | _ => True

omit [MathSqrt K] [LawfulSqrt K] in
theorem divisible_of_fee (hfee : ∀ pool ∈ d.pools.rows, pool.feeBps ≤ 10000) (call : PoolCall K) :
    Divisible d call := by
  cases call with
  | swap poolId dto =>
    intro pool quote h
    obtain ⟨hx, hIn, -, -⟩ := getAmountOut_eq_ok.mp h.quoted
    exact (add_pos_of_pos_of_nonneg hIn
      (amountInWithFee_nonneg (hfee pool (Table.mem_of_find h.found)) hx)).ne'
  | _ => trivial

omit [IsStrictOrderedRing K] [LawfulSqrt K] in
/-- The other calls have the effect of `step`. -/
theorem serve_eq_step {call : PoolCall K} (h : Divisible d call) : serve d call = step d call := by
  cases call with
  | swap poolId dto =>
    refine if_neg ?_
    rintro ⟨hok, pool, hfind, hzero⟩
    rcases eval_swap (d := d) poolId dto with ⟨e, he⟩ |
      ⟨pool', tokenOut, quote, swaps, haccepted, -⟩
    · rw [he] at hok
      cases hok
    · obtain rfl := Option.some.inj (haccepted.found.symm.trans hfind)
      exact h _ quote haccepted hzero
  | _ => rfl

/-- **A run** keeps them. -/
theorem run_shared (hpool : pool ∈ d.pools.rows) (hs : Shared d.positions pool)
    {calls : List (PoolCall K)} (hcalls : Along serve Divisible d calls) :
    ∃ pool', (run serve d calls).pools.find pool.id = some pool' ∧
      Shared (run serve d calls).positions pool' := by
  refine run_invariant (I := fun d : PoolsDb K =>
    ∃ pool', d.pools.find pool.id = some pool' ∧ Shared d.positions pool') ?_
    ⟨pool, Table.find_of_mem hpool, hs⟩ hcalls
  rintro d call ⟨pool', hfind, hs'⟩ hcall
  rw [serve_eq_step hcall, ← Table.key_of_find hfind]
  exact (step_change d call).shared (Table.mem_of_find hfind) hs'

end Runs

/-- A pool without liquidity and positions. -/
theorem shared_empty {d : PoolsDb K} {pool : LiquidityPool K}
    (hreserves : pool.reserveA = 0 ∧ pool.reserveB = 0 ∧ pool.totalLpSupply = 0)
    (hfees : pool.accumulatedFeesA = 0 ∧ pool.accumulatedFeesB = 0)
    (hpositions : positionsOf d.positions pool.id = []) :
    Shared d.positions pool := by
  have hheld : ∀ f, held d.positions pool.id f = 0 := by
    intro f
    rw [← sum_positionsOf, hpositions]
    rfl
  refine ⟨hreserves.2.2.trans (hheld _).symm, hfees.1.trans (hheld _).symm,
    hfees.2.trans (hheld _).symm,
    fun p hp hof => ?_, fun _ => ⟨hreserves.1, hreserves.2.1⟩⟩
  have hmem : p ∈ positionsOf d.positions pool.id := mem_positionsOf.mpr ⟨hp, hof⟩
  rw [hpositions] at hmem
  cases hmem

/-- **The shares add up.** In every run of the service on a pool that starts empty and without
positions, with exact numbers such as the reals, in which no swap divides by zero: the positions of
the pool hold its LP supply and earned its accumulated fees, and none of them is negative. -/
theorem shares_add_up [IsStrictOrderedRing K] [MathSqrt K] [LawfulSqrt K] (d : PoolsDb K)
    (pool : LiquidityPool K) (hpool : pool ∈ d.pools.rows)
    (hreserves : pool.reserveA = 0 ∧ pool.reserveB = 0 ∧ pool.totalLpSupply = 0)
    (hfees : pool.accumulatedFeesA = 0 ∧ pool.accumulatedFeesB = 0)
    (hpositions : positionsOf d.positions pool.id = []) (calls : List (PoolCall K))
    (hcalls : Along serve Divisible d calls) :
    ∃ reached, (run serve d calls).pools.find pool.id = some reached ∧
      reached.totalLpSupply =
        ((positionsOf (run serve d calls).positions pool.id).map (·.lpAmount)).sum ∧
      (∀ p ∈ positionsOf (run serve d calls).positions pool.id, 0 ≤ p.lpAmount) ∧
      reached.accumulatedFeesA =
        ((positionsOf (run serve d calls).positions pool.id).map (·.feesEarnedA)).sum ∧
      reached.accumulatedFeesB =
        ((positionsOf (run serve d calls).positions pool.id).map (·.feesEarnedB)).sum := by
  obtain ⟨reached, hfind, hs⟩ := run_shared hpool (shared_empty hreserves hfees hpositions) hcalls
  have hid := Table.key_of_find hfind
  refine ⟨reached, hfind, ?_, fun p hp => ?_, ?_, ?_⟩
  · rw [sum_positionsOf, ← hid]
    exact hs.supply
  · obtain ⟨hp, hof⟩ := mem_positionsOf.mp hp
    exact hs.lp_nonneg p hp (hof.trans hid.symm)
  · rw [sum_positionsOf, ← hid]
    exact hs.feesA
  · rw [sum_positionsOf, ← hid]
    exact hs.feesB

/-- No trade divides by zero: the fee is 30. -/
theorem divisible_trades : Along serve Divisible openedPool trades :=
  ⟨trivial, trivial, divisible_of_fee (by decide +kernel) _, trivial,
    divisible_of_fee (by decide +kernel) _, trivial⟩

/-- After the trades, the two providers hold the supply of 260 and have earned all fees. -/
theorem shares_add_up_traded : ∃ reached, (run serve openedPool trades).pools.find 1 =
    some reached ∧
    reached.totalLpSupply = 260 ∧
    reached.accumulatedFeesA =
      ((positionsOf (run serve openedPool trades).positions 1).map (·.feesEarnedA)).sum ∧
    reached.accumulatedFeesB =
      ((positionsOf (run serve openedPool trades).positions 1).map (·.feesEarnedB)).sum := by
  obtain ⟨reached, hfind, hsupply, -, hA, hB⟩ := shares_add_up openedPool
    { newPool ⟨1, 2, "stellar", none⟩ with id := 1 } (Table.mem_save_self _ _) ⟨rfl, rfl, rfl⟩
      ⟨rfl, rfl⟩ rfl trades divisible_trades
  exact ⟨reached, hfind, hsupply.trans (by decide +kernel), hA, hB⟩

/-- **A fee without a swap.** The fee is 20000 basis points, so a swap of as much as is in the pool
divides by zero: the provider earns 2, and the pool has no fees. -/
theorem shares_broken : ∃ created d₁,
    (createPool ⟨1, 2, "stellar", some 20000⟩).eval sql (market ℚ) = (.ok created, d₁) ∧
      ((run serve d₁ [.addLiquidity created.id ⟨7, 1, 1⟩,
        .swap created.id ⟨8, "BTC", 1, none⟩]).pools.find created.id).map
          (·.accumulatedFeesA) = some 0 ∧
      ((positionsOf (run serve d₁ [.addLiquidity created.id ⟨7, 1, 1⟩,
        .swap created.id ⟨8, "BTC", 1, none⟩]).positions created.id).map
          (·.feesEarnedA)).sum = 2 := by
  have hcreated : ((createPool ⟨1, 2, "stellar", some 20000⟩).eval sql (market ℚ)).1 =
      .ok { newPool ⟨1, 2, "stellar", some 20000⟩ with id := 1 } := by
    decide +kernel
  exact ⟨_, _, Prod.ext hcreated rfl, by decide +kernel, by decide +kernel⟩

/-! ## Exits -/

section Exits

variable [IsStrictOrderedRing K] [MathSqrt K] {d : PoolsDb K} {pool : LiquidityPool K}
    {p : PoolPosition K}

/-- A provider withdraws everything. -/
def exit (p : PoolPosition K) : PoolCall K := .removeLiquidity p.poolId ⟨p.userId, p.lpAmount⟩

/-- What a position is worth. -/
def share (pool : LiquidityPool K) (lpAmount : K) : WithdrawQuote K :=
  ⟨pool.reserveA * (lpAmount / pool.totalLpSupply), pool.reserveB * (lpAmount / pool.totalLpSupply)⟩

omit [MathSqrt K] in
theorem Shared.lpAmount_le (h : Shared d.positions pool) (hp : p ∈ d.positions.rows)
    (hof : p.poolId = pool.id) :
    p.lpAmount ≤ pool.totalLpSupply := by
  have hle := Table.le_sum (f := fun q : PoolPosition K => if q.poolId = pool.id
    then q.lpAmount else 0)
    (fun q hq => by split; exacts [h.lp_nonneg q hq ‹_›, le_rfl]) hp
  rw [if_pos hof] at hle
  exact hle.trans_eq h.supply.symm

omit [MathSqrt K] in
/-- A removal that passes the checks is paid its share. -/
theorem eval_removeLiquidity_share (h : Shared d.positions pool)
    (hpool : d.pools.find pool.id = some pool) (hstatus : pool.status ≠ .emergency)
    (hp : p ∈ d.positions.rows) (hof : p.poolId = pool.id) {lp : K} (hpos : 0 < lp)
    (hlp : lp ≤ p.lpAmount) :
    calculateWithdrawAmounts lp pool.totalLpSupply pool.reserveA pool.reserveB =
        .ok (share pool lp) ∧
      (removeLiquidity pool.id ⟨p.userId, lp⟩).eval sql d =
        (.ok ⟨pool.withdraw lp (share pool lp), p.withdraw lp, share pool lp⟩,
          { d with
            pools := d.pools.save (pool.withdraw lp (share pool lp))
            positions := d.positions.save (p.withdraw lp) }) := by
  have hle := hlp.trans (h.lpAmount_le hp hof)
  have hquoted : calculateWithdrawAmounts lp pool.totalLpSupply pool.reserveA pool.reserveB =
      .ok (share pool lp) := by
    rw [calculateWithdrawAmounts, if_neg (not_le.mpr hpos), if_neg (not_le.mpr (hpos.trans_le hle)),
      if_neg (not_lt.mpr hle)]
    rfl
  have howned : d.positions.find (pool.id, p.userId) = some p := hof ▸ Table.find_of_mem hp
  refine ⟨hquoted, ?_⟩
  unfold removeLiquidity
  rw [Prog.eval_bind, eval_getPool, hpool]
  simp [PoolsDb.load, hstatus, sql, howned, requireLp, not_lt.mpr hlp, hquoted, Except.map]

omit [LinearOrder K] [IsStrictOrderedRing K] [MathSqrt K] in
/-- A withdrawal leaves the other shares as they are. -/
theorem share_withdraw {lp lp' : K} (hsupply : pool.totalLpSupply ≠ 0)
    (hleft : pool.totalLpSupply - lp ≠ 0) :
    share (pool.withdraw lp (share pool lp)) lp' = share pool lp' := by
  simp only [share, LiquidityPool.withdraw, WithdrawQuote.mk.injEq]
  constructor <;> field_simp

/-- Exits in any order: each provider is paid the share that its position was worth before the
first one. -/
theorem exits (gone : List (PoolPosition K)) (h : Shared d.positions pool)
    (hpool : d.pools.find pool.id = some pool) (hstatus : pool.status ≠ .emergency)
    (hmem : ∀ q ∈ p :: gone, q ∈ d.positions.rows ∧ q.poolId = pool.id ∧ 0 < q.lpAmount)
    (hnodup : (p :: gone).Nodup) :
    ∃ result, ((exit p).program.eval sql (run step d (gone.map exit))).1 = .ok (.removed result) ∧
      result.amounts = share pool p.lpAmount := by
  induction gone generalizing d pool with
  | nil =>
    obtain ⟨hp, hof, hpos⟩ := hmem p List.mem_cons_self
    obtain ⟨-, heval⟩ := eval_removeLiquidity_share h hpool hstatus hp hof hpos le_rfl
    refine ⟨⟨pool.withdraw p.lpAmount (share pool p.lpAmount), p.withdraw p.lpAmount,
      share pool p.lpAmount⟩, ?_, rfl⟩
    rw [exit, hof, PoolCall.program, Prog.eval_map, List.map_nil, run_nil, heval]
    rfl
  | cons q gone ih =>
    obtain ⟨hq, hof, hpos⟩ := hmem q (by simp)
    obtain ⟨hquoted, heval⟩ := eval_removeLiquidity_share h hpool hstatus hq hof hpos le_rfl
    have hstep : step d (exit q) = { d with
        pools := d.pools.save (pool.withdraw q.lpAmount (share pool q.lpAmount))
        positions := d.positions.save (q.withdraw q.lpAmount) } := by
      rw [step, exit, hof, PoolCall.program, Prog.eval_map, heval]
    have hs : Shared (step d (exit q)).positions
        (pool.withdraw q.lpAmount (share pool q.lpAmount)) := by
      rw [hstep]
      exact h.withdraw hq hof le_rfl hquoted (.inl rfl)
    obtain ⟨hnot, hnodup⟩ := List.nodup_cons.mp hnodup
    have hothers : ∀ r ∈ p :: gone, r ∈ (step d (exit q)).positions.rows ∧ r.poolId = pool.id ∧
        0 < r.lpAmount := by
      intro r hr
      have hne : r ≠ q := by
        rintro rfl
        rcases List.mem_cons.mp hr with rfl | hr
        · exact hnot List.mem_cons_self
        · exact (List.nodup_cons.mp hnodup).1 hr
      obtain ⟨hrow, hrest⟩ := hmem r (List.cons_subset_cons p (List.subset_cons_self q gone) hr)
      rw [hstep]
      exact ⟨Table.mem_save.mpr (.inr ⟨hrow, fun hkey => hne (Table.eq_of_key_eq hrow hq hkey)⟩),
        hrest⟩
    obtain ⟨result, hresult, hamounts⟩ :=
      ih hs (by rw [hstep]; exact Table.find_save_self _ _) hstatus hothers
      (List.nodup_cons.mpr ⟨fun hp => hnot (List.mem_cons_of_mem _ hp),
        (List.nodup_cons.mp hnodup).2⟩)
    refine ⟨result, hresult, hamounts.trans (share_withdraw ?_ ?_)⟩
    · exact (hpos.trans_le (h.lpAmount_le hq hof)).ne'
    · obtain ⟨hrow, hofp, hposp⟩ := hothers p List.mem_cons_self
      exact (hposp.trans_le (hs.lpAmount_le hrow hofp)).ne'

/-- A deposit is worth what it took. -/
theorem share_deposit [LawfulSqrt K] (h : Shared d.positions pool) {a b : K}
    {quote : LiquidityQuote K}
    (hquote : calculateLpTokensToMint a b pool.reserveA pool.reserveB
      pool.totalLpSupply = .ok quote) :
    0 < quote.lpTokensMinted ∧ share (pool.deposit quote) quote.lpTokensMinted =
      ⟨quote.amountA, quote.amountB⟩ := by
  obtain ⟨ha, hb, ⟨hzero, rfl⟩ | ⟨hne, hA, hB, rfl⟩⟩ := calculateLpTokensToMint_eq_ok hquote
  · have hmint := LawfulSqrt.sqrt_pos _ (mul_pos ha hb)
    obtain ⟨hA, hB⟩ := h.drained hzero
    exact ⟨hmint, by simp [share, LiquidityPool.deposit, hzero, hA, hB, hmint.ne']⟩
  · have hsupply := h.supply_nonneg.lt_of_ne' hne
    have hmint := proportionalMint_pos ha hb hA hB hsupply
    refine ⟨hmint, ?_⟩
    simp only [share, LiquidityPool.deposit, WithdrawQuote.mk.injEq]
    have hsum := (add_pos hsupply hmint).ne'
    constructor <;> field_simp

end Exits

/-- **The providers can always leave, in any order**, with exact numbers such as the reals. In every
state that a run of the service reaches from an empty pool without a swap that divides by zero,
unless there is an emergency: when some of the providers have withdrawn everything, in any order,
the next one can withdraw everything, too, and is paid the share that its position was worth before
the first one left. -/
theorem exit_pays_share [IsStrictOrderedRing K] [MathSqrt K] [LawfulSqrt K] (d : PoolsDb K)
    (pool : LiquidityPool K) (hpool : pool ∈ d.pools.rows)
    (hreserves : pool.reserveA = 0 ∧ pool.reserveB = 0 ∧ pool.totalLpSupply = 0)
    (hfees : pool.accumulatedFeesA = 0 ∧ pool.accumulatedFeesB = 0)
    (hpositions : positionsOf d.positions pool.id = []) (calls : List (PoolCall K))
    (hcalls : Along serve Divisible d calls) :
    ∃ reached, (run serve d calls).pools.find pool.id = some reached ∧
    (reached.status ≠ .emergency →
      ∀ (gone : List (PoolPosition K)) (p : PoolPosition K),
        (∀ q ∈ p :: gone, q ∈ positionsOf (run serve d calls).positions pool.id ∧ 0 < q.lpAmount) →
        (p :: gone).Nodup →
        ∃ result, ((exit p).program.eval sql (run step (run serve d calls) (gone.map exit))).1 =
            .ok (.removed result) ∧
          result.amounts = share reached p.lpAmount) := by
  obtain ⟨reached, hfind, hs⟩ := run_shared hpool (shared_empty hreserves hfees hpositions) hcalls
  have hid := Table.key_of_find hfind
  refine ⟨reached, hfind, fun hstatus gone p hmem hnodup => ?_⟩
  refine exits gone hs (hid ▸ hfind) hstatus (fun q hq => ?_) hnodup
  obtain ⟨hq, hpos⟩ := hmem q hq
  obtain ⟨hrow, hof⟩ := mem_positionsOf.mp hq
  exact ⟨hrow, hof.trans hid.symm, hpos⟩

/-- The trades leave two positions; when the second provider has left, the first one is paid its
share. -/
theorem exit_pays_share_traded : ∃ reached result, ∃ p q : PoolPosition ℚ,
    (run serve openedPool trades).pools.find 1 = some reached ∧ 0 < p.lpAmount ∧ 0 < q.lpAmount ∧
      ((exit p).program.eval sql (run step (run serve openedPool trades) [exit q])).1 =
        .ok (.removed result) ∧
      result.amounts = share reached p.lpAmount := by
  obtain ⟨reached, hfind, hexits⟩ := exit_pays_share openedPool
      { newPool ⟨1, 2, "stellar", none⟩ with id := 1 }
    (Table.mem_save_self _ _) ⟨rfl, rfl, rfl⟩ ⟨rfl, rfl⟩ rfl trades divisible_trades
  have hstatus : ((run serve openedPool trades).pools.find 1).all (·.status ≠ .emergency) := by
    decide +kernel
  rw [hfind, Option.all_some, decide_eq_true_iff] at hstatus
  have hpositions : (positionsOf (run serve openedPool trades).positions 1).Nodup ∧
      (∀ p ∈ positionsOf (run serve openedPool trades).positions 1, 0 < p.lpAmount) ∧
      (positionsOf (run serve openedPool trades).positions 1).length = 2 := by
    decide +kernel
  obtain ⟨p, q, hpq⟩ := List.length_eq_two.mp hpositions.2.2
  rw [hpq] at hpositions
  obtain ⟨result, hresult, hamounts⟩ := hexits hstatus [q] p
    (fun r hr => ⟨show r ∈ positionsOf (run serve openedPool trades).positions 1 from hpq ▸ hr,
      hpositions.2.1 r hr⟩)
    hpositions.1
  exact ⟨reached, result, p, q, hfind, hpositions.2.1 p (by simp), hpositions.2.1 q (by simp),
    hresult, hamounts⟩

/-- **Nothing is won or lost by a deposit that is withdrawn at once**, with exact numbers such as
the reals. In every state that a run of the service reaches from an empty pool without a swap that
divides by zero: when a deposit is accepted, the withdrawal of the tokens it minted pays the amounts
that it took, and the pool is as before. -/
theorem remove_after_add [IsStrictOrderedRing K] [MathSqrt K] [LawfulSqrt K] (d : PoolsDb K)
    (pool : LiquidityPool K) (hpool : pool ∈ d.pools.rows)
    (hreserves : pool.reserveA = 0 ∧ pool.reserveB = 0 ∧ pool.totalLpSupply = 0)
    (hfees : pool.accumulatedFeesA = 0 ∧ pool.accumulatedFeesB = 0)
    (hpositions : positionsOf d.positions pool.id = []) (calls : List (PoolCall K))
    (hcalls : Along serve Divisible d calls) :
    ∃ reached, (run serve d calls).pools.find pool.id = some reached ∧
      ∀ dto quote, reached.status = .active →
        calculateLpTokensToMint dto.amountA dto.amountB reached.reserveA reached.reserveB
          reached.totalLpSupply = .ok quote →
        ∃ position, ((removeLiquidity pool.id ⟨dto.userId, quote.lpTokensMinted⟩).eval sql
            (step (run serve d calls) (.addLiquidity pool.id dto))).1 =
          .ok ⟨reached, position, ⟨quote.amountA, quote.amountB⟩⟩ := by
  obtain ⟨reached, hfind, hs⟩ := run_shared hpool (shared_empty hreserves hfees hpositions) hcalls
  have hid := Table.key_of_find hfind
  refine ⟨reached, hfind, fun dto quote hactive hquote => ?_⟩
  rw [← hid]
  rw [← hid] at hfind
  obtain ⟨hmint, hshare⟩ := share_deposit hs hquote
  have hstep := eval_addLiquidity (Table.mem_of_find hfind) hactive hquote
  set deposited :=
    depositPosition ((run serve d calls).positions.find (reached.id, dto.userId)) reached.id
      dto.userId quote
    with hdeposited
  have hkey : deposited.key = (reached.id, dto.userId) :=
    key_depositPosition dto.userId reached.id quote
  have hof : deposited.poolId = reached.id := congrArg Prod.fst hkey
  have hle : quote.lpTokensMinted ≤ deposited.lpAmount := by
    rw [hdeposited]
    cases hfound : (run serve d calls).positions.find (reached.id, dto.userId) with
    | none => exact le_rfl
    | some p =>
      have hp :=
        hs.lp_nonneg p (Table.mem_of_find hfound) (congrArg Prod.fst (Table.key_of_find hfound))
      exact le_add_of_nonneg_left hp
  have huser : deposited.userId = dto.userId := congrArg Prod.snd hkey
  have hafter : step (run serve d calls) (.addLiquidity reached.id dto) = { run serve d calls with
      pools := (run serve d calls).pools.save (reached.deposit quote)
      positions := (run serve d calls).positions.save deposited } := by
    rw [step, PoolCall.program, Prog.eval_map, hstep]
  have hs' : Shared (step (run serve d calls) (.addLiquidity reached.id dto)).positions
      (reached.deposit quote) := by
    rw [hafter]
    exact hs.deposit dto.userId hquote
  obtain ⟨-, heval⟩ := eval_removeLiquidity_share (p := deposited) hs'
    (by rw [hafter]; exact Table.find_save_self _ _)
    (by rw [show (reached.deposit quote).status = reached.status from rfl, hactive]; decide)
    (by rw [hafter]; exact Table.mem_save_self _ _) hof hmint hle
  rw [hshare, huser] at heval
  refine ⟨deposited.withdraw quote.lpTokensMinted, (congrArg Prod.fst heval).trans ?_⟩
  simp [LiquidityPool.withdraw, LiquidityPool.deposit]

/-- After the trades, provider 8 deposits again and withdraws what was minted. -/
theorem remove_after_add_traded : ∃ reached position, ∃ quote : LiquidityQuote ℚ,
    (run serve openedPool trades).pools.find 1 = some reached ∧
      calculateLpTokensToMint 30 90 reached.reserveA reached.reserveB
        reached.totalLpSupply = .ok quote ∧
      ((removeLiquidity 1 ⟨8, quote.lpTokensMinted⟩).eval sql
        (step (run serve openedPool trades) (.addLiquidity 1 ⟨8, 30, 90⟩))).1 =
          .ok ⟨reached, position, ⟨quote.amountA, quote.amountB⟩⟩ := by
  obtain ⟨reached, hfind, hadd⟩ := remove_after_add openedPool
      { newPool ⟨1, 2, "stellar", none⟩ with id := 1 }
    (Table.mem_save_self _ _) ⟨rfl, rfl, rfl⟩ ⟨rfl, rfl⟩ rfl trades divisible_trades
  have hactive : ((run serve openedPool trades).pools.find 1).all fun p => p.status = .active ∧
      (calculateLpTokensToMint 30 90 p.reserveA p.reserveB p.totalLpSupply).isOk := by
    decide +kernel
  rw [hfind, Option.all_some, decide_eq_true_iff] at hactive
  cases hquote : calculateLpTokensToMint 30 90 reached.reserveA reached.reserveB
    reached.totalLpSupply with
  | error e =>
    rw [hquote] at hactive
    cases hactive.2
  | ok quote =>
    obtain ⟨position, hposition⟩ := hadd ⟨8, 30, 90⟩ quote hactive.1 hquote
    exact ⟨reached, position, quote, hfind, hquote, hposition⟩

end Pools
