import PeerX.Pools.Changes

/-!
# Pools: reserves and the value of an LP token

A pool is backed when it has reserves exactly as long as it has LP tokens. With a fee of at most
10000 basis points every call keeps a pool backed, and none lowers `reserveA * reserveB` for each
squared LP token. The request for a pool bounds the fee from below only, and a larger fee pays a
swap a negative amount.

## Main results

* `PoolMove.backed`, `PoolMove.backing_le`: one call
* `reserves_back_lp`: runs of calls on a pool whose fee is at most 10000
* `swaps_sound_iff`: swaps are sound in every run exactly when the fee is at most 10000
-/

namespace Pools

open Relational Concurrency

variable {K : Type} [Field K] [LinearOrder K]

/-- The square root of a positive number is positive. -/
class LawfulSqrt (K : Type) [Field K] [LinearOrder K] [MathSqrt K] : Prop where
  sqrt_pos : ∀ x : K, 0 < x → 0 < MathSqrt.sqrt x

instance : LawfulSqrt ℝ := ⟨fun _ => Real.sqrt_pos.mpr⟩

instance : LawfulSqrt ℚ where
  sqrt_pos x hx := by
    change 0 < Rat.sqrt x
    have hnum : 0 < Int.sqrt x.num := Int.natCast_pos.mpr (Nat.sqrt_pos.mpr (by have := Rat.num_pos.mpr hx; omega))
    have hden : 0 < Nat.sqrt x.den := Nat.sqrt_pos.mpr x.den_pos
    rw [Rat.sqrt, Rat.mkRat_eq_div]
    exact div_pos (Int.cast_pos.mpr hnum) (Int.cast_pos.mpr (Int.natCast_pos.mpr hden))

/-! ## Quotes -/

/-- What a swap may charge and pay: an amount below the reserve, a fee within the amount paid,
and no division by zero on the way. -/
structure QuoteSound (amountIn reserveIn reserveOut : K) (feeBps : ℕ) (quote : SwapQuote K) :
    Prop where
  amountOut_nonneg : 0 ≤ quote.amountOut
  amountOut_lt : quote.amountOut < reserveOut
  feeAmount_nonneg : 0 ≤ quote.feeAmount
  feeAmount_le : quote.feeAmount ≤ amountIn
  amountOut_divisor : reserveIn + amountInWithFee amountIn feeBps ≠ 0
  priceBefore_divisor : reserveIn ≠ 0
  priceAfter_divisor : reserveIn + amountIn ≠ 0
  priceImpact_divisor : reserveOut / reserveIn ≠ 0

section Quotes

variable [IsStrictOrderedRing K] {x rIn rOut : K} {feeBps : ℕ}

theorem feeMultiplier_le_one : (feeMultiplier feeBps : K) ≤ 1 := by
  unfold feeMultiplier
  have h : (0 : K) ≤ (feeBps : K) / 10000 := by positivity
  linarith

theorem feeMultiplier_nonneg (h : feeBps ≤ 10000) : 0 ≤ (feeMultiplier feeBps : K) := by
  unfold feeMultiplier
  have hcast : (feeBps : K) ≤ 10000 := by exact_mod_cast h
  rw [sub_nonneg, div_le_one (by norm_num)]
  exact hcast

theorem amountInWithFee_nonneg (h : feeBps ≤ 10000) (hx : 0 < x) :
    0 ≤ amountInWithFee x feeBps :=
  mul_nonneg hx.le (feeMultiplier_nonneg h)

theorem amountInWithFee_le (hx : 0 < x) : amountInWithFee x feeBps ≤ x := by
  unfold amountInWithFee
  exact mul_le_of_le_one_right hx.le feeMultiplier_le_one

omit [IsStrictOrderedRing K] in
theorem reserveOut_sub_amountOut (h : rIn + amountInWithFee x feeBps ≠ 0) :
    rOut - (swapQuote x rIn rOut feeBps).amountOut =
      rOut * rIn / (rIn + amountInWithFee x feeBps) := by
  simp only [swapQuote]
  field_simp
  ring

theorem quoteSound (h : feeBps ≤ 10000) (hx : 0 < x) (hIn : 0 < rIn) (hOut : 0 < rOut) :
    QuoteSound x rIn rOut feeBps (swapQuote x rIn rOut feeBps) := by
  have hpaid : 0 ≤ amountInWithFee x feeBps := amountInWithFee_nonneg h hx
  have hle : amountInWithFee x feeBps ≤ x := amountInWithFee_le hx
  have hdiv : 0 < rIn + amountInWithFee x feeBps := by linarith
  constructor
  · simp only [swapQuote]
    positivity
  · have hleft : 0 < rOut - (swapQuote x rIn rOut feeBps).amountOut := by
      rw [reserveOut_sub_amountOut hdiv.ne']
      positivity
    linarith
  · simp only [swapQuote]
    linarith
  · simp only [swapQuote]
    linarith
  · exact hdiv.ne'
  · exact hIn.ne'
  · exact (add_pos hIn hx).ne'
  · exact (div_pos hOut hIn).ne'

/-- The constant product does not fall: the fee stays in the pool. -/
theorem product_le (h : feeBps ≤ 10000) (hx : 0 < x) (hIn : 0 < rIn) (hOut : 0 < rOut) :
    rIn * rOut ≤ (rIn + x) * (rOut - (swapQuote x rIn rOut feeBps).amountOut) := by
  have hpaid : 0 ≤ amountInWithFee x feeBps := amountInWithFee_nonneg h hx
  have hle : amountInWithFee x feeBps ≤ x := amountInWithFee_le hx
  have hdiv : 0 < rIn + amountInWithFee x feeBps := by linarith
  rw [reserveOut_sub_amountOut hdiv.ne', ← mul_div_assoc, le_div_iff₀ hdiv]
  have hprod : 0 ≤ rIn * rOut := by positivity
  calc rIn * rOut * (rIn + amountInWithFee x feeBps)
      ≤ rIn * rOut * (rIn + x) := mul_le_mul_of_nonneg_left (by linarith) hprod
    _ = (rIn + x) * (rOut * rIn) := by ring

end Quotes

/-! ## Pools -/

namespace LiquidityPool

/-- The pool has LP tokens and both reserves, or none of them. -/
def Backed (pool : LiquidityPool K) : Prop :=
  (pool.totalLpSupply = 0 ∧ pool.reserveA = 0 ∧ pool.reserveB = 0) ∨
    (0 < pool.totalLpSupply ∧ 0 < pool.reserveA ∧ 0 < pool.reserveB)

/-- The value backing one LP token, as the square `reserveA * reserveB / totalLpSupply²`. -/
def backing (pool : LiquidityPool K) : K :=
  pool.reserveA * pool.reserveB / pool.totalLpSupply ^ 2

variable {pool : LiquidityPool K}

omit [LinearOrder K] in
theorem exchange_reserves (pool : LiquidityPool K) (isTokenA : Bool) (amountIn : K) (quote : SwapQuote K) :
    (pool.exchange isTokenA amountIn quote).reserveIn isTokenA = pool.reserveIn isTokenA + amountIn ∧
      (pool.exchange isTokenA amountIn quote).reserveOut isTokenA =
        pool.reserveOut isTokenA - quote.amountOut := by
  cases isTokenA <;> exact ⟨rfl, rfl⟩

omit [LinearOrder K] in
theorem reserves_mul (pool : LiquidityPool K) (isTokenA : Bool) :
    pool.reserveA * pool.reserveB = pool.reserveIn isTokenA * pool.reserveOut isTokenA := by
  cases isTokenA
  · exact mul_comm _ _
  · rfl

/-- Both reserves are positive, read in either direction. -/
theorem reserves_pos_iff (pool : LiquidityPool K) (isTokenA : Bool) :
    (0 < pool.reserveA ∧ 0 < pool.reserveB) ↔
      0 < pool.reserveIn isTokenA ∧ 0 < pool.reserveOut isTokenA := by
  cases isTokenA
  · exact and_comm
  · exact Iff.rfl

theorem Backed.reserves_nonneg (h : pool.Backed) : 0 ≤ pool.reserveA ∧ 0 ≤ pool.reserveB := by
  rcases h with ⟨-, hA, hB⟩ | ⟨-, hA, hB⟩
  · exact ⟨hA.ge, hB.ge⟩
  · exact ⟨hA.le, hB.le⟩

theorem Backed.reserves_pos (h : pool.Backed) (hsupply : 0 < pool.totalLpSupply) :
    0 < pool.reserveA ∧ 0 < pool.reserveB := by
  rcases h with ⟨hzero, -⟩ | ⟨-, hA, hB⟩
  · exact absurd hzero hsupply.ne'
  · exact ⟨hA, hB⟩

theorem Backed.supply_pos (h : pool.Backed) {isTokenA : Bool} (hIn : 0 < pool.reserveIn isTokenA) :
    0 < pool.totalLpSupply := by
  rcases h with ⟨-, hA, hB⟩ | ⟨hsupply, -⟩
  · cases isTokenA
    · exact absurd hB hIn.ne'
    · exact absurd hA hIn.ne'
  · exact hsupply

end LiquidityPool

section Moves

variable [IsStrictOrderedRing K] {pool pool' : LiquidityPool K}

theorem proportionalMint_pos {a b rA rB supply : K} (ha : 0 < a) (hb : 0 < b) (hA : 0 < rA)
    (hB : 0 < rB) (hsupply : 0 < supply) : 0 < proportionalMint a b rA rB supply := by
  unfold proportionalMint
  exact lt_min (by positivity) (by positivity)

/-- A swap within the fee bound leaves both reserves positive, and their product no smaller. -/
theorem exchange_bounds (hfee : pool.feeBps ≤ 10000) {isTokenA : Bool} {amountIn : K}
    {quote : SwapQuote K}
    (hquote : getAmountOut amountIn (pool.reserveIn isTokenA) (pool.reserveOut isTokenA)
      pool.feeBps = .ok quote) :
    (0 < (pool.exchange isTokenA amountIn quote).reserveA ∧
      0 < (pool.exchange isTokenA amountIn quote).reserveB) ∧
    pool.reserveA * pool.reserveB ≤
      (pool.exchange isTokenA amountIn quote).reserveA *
        (pool.exchange isTokenA amountIn quote).reserveB := by
  obtain ⟨hx, hIn, hOut, rfl⟩ := getAmountOut_eq_ok.mp hquote
  have hsound := quoteSound hfee hx hIn hOut
  obtain ⟨hIn', hOut'⟩ := pool.exchange_reserves isTokenA amountIn
    (swapQuote amountIn (pool.reserveIn isTokenA) (pool.reserveOut isTokenA) pool.feeBps)
  constructor
  · rw [LiquidityPool.reserves_pos_iff _ isTokenA, hIn', hOut']
    exact ⟨by linarith, by linarith [hsound.amountOut_lt]⟩
  · rw [pool.reserves_mul isTokenA, LiquidityPool.reserves_mul _ isTokenA, hIn', hOut']
    exact product_le hfee hx hIn hOut

variable [MathSqrt K]

/-- **One call keeps a pool backed.** -/
theorem PoolMove.backed [LawfulSqrt K] (h : PoolMove pool pool') (hfee : pool.feeBps ≤ 10000)
    (hbacked : pool.Backed) : pool'.Backed := by
  cases h with
  | stay => exact hbacked
  | deposit hquote =>
    obtain ⟨ha, hb, ⟨hzero, rfl⟩ | ⟨hne, hA, hB, rfl⟩⟩ := calculateLpTokensToMint_eq_ok hquote
    · -- the first deposit
      have hmint := LawfulSqrt.sqrt_pos _ (mul_pos ha hb)
      rcases hbacked with ⟨-, hA, hB⟩ | ⟨hpos, -⟩
      · right
        simp only [LiquidityPool.deposit, hzero, hA, hB, zero_add]
        exact ⟨hmint, ha, hb⟩
      · exact absurd hzero hpos.ne'
    · -- a later deposit: the smaller of the two proportions is minted
      rcases hbacked with ⟨hzero, -⟩ | ⟨hsupply, -⟩
      · exact absurd hzero hne
      · have hmint := proportionalMint_pos ha hb hA hB hsupply
        right
        simp only [LiquidityPool.deposit]
        refine ⟨by positivity, by positivity, by positivity⟩
  | withdraw hamounts =>
    obtain ⟨hlp, hsupply, hle, rfl⟩ := calculateWithdrawAmounts_eq_ok hamounts
    obtain ⟨hA, hB⟩ := hbacked.reserves_pos hsupply
    simp only [LiquidityPool.Backed, LiquidityPool.withdraw]
    rcases hle.eq_or_lt with rfl | hlt
    · -- the last LP token takes the reserves with it
      left
      simp [div_self hsupply.ne']
    · right
      have hshare : _ / pool.totalLpSupply < 1 := (div_lt_one hsupply).mpr hlt
      refine ⟨by linarith, ?_, ?_⟩
      · nlinarith
      · nlinarith
  | exchange hquote =>
    obtain ⟨-, hIn, -, -⟩ := getAmountOut_eq_ok.mp hquote
    right
    rw [LiquidityPool.exchange_totalLpSupply]
    exact ⟨hbacked.supply_pos hIn, (exchange_bounds hfee hquote).1⟩

/-- **One call does not lower the value of an LP token.** -/
theorem PoolMove.backing_le (h : PoolMove pool pool') (hfee : pool.feeBps ≤ 10000)
    (hsupply : 0 < pool.totalLpSupply) (hsupply' : 0 < pool'.totalLpSupply) :
    pool.backing ≤ pool'.backing := by
  cases h with
  | stay => exact le_rfl
  | deposit hquote =>
    obtain ⟨ha, hb, ⟨hzero, rfl⟩ | ⟨hne, hA, hB, rfl⟩⟩ := calculateLpTokensToMint_eq_ok hquote
    · exact absurd hzero hsupply.ne'
    · -- both reserves and the supply grow by the same factor
      have hmint := proportionalMint_pos ha hb hA hB hsupply
      apply le_of_eq
      simp only [LiquidityPool.backing, LiquidityPool.deposit]
      have hne' : pool.totalLpSupply + proportionalMint _ _ pool.reserveA pool.reserveB
        pool.totalLpSupply ≠ 0 := (add_pos hsupply hmint).ne'
      field_simp
  | withdraw hamounts =>
    obtain ⟨hlp, -, hle, rfl⟩ := calculateWithdrawAmounts_eq_ok hamounts
    apply le_of_eq
    simp only [LiquidityPool.withdraw] at hsupply'
    simp only [LiquidityPool.backing, LiquidityPool.withdraw]
    have hne := hsupply'.ne'
    field_simp
  | exchange hquote =>
    unfold LiquidityPool.backing
    rw [LiquidityPool.exchange_totalLpSupply]
    exact div_le_div_of_nonneg_right (exchange_bounds hfee hquote).2 (by positivity)

end Moves

/-! ## Runs -/

section Runs

variable [IsStrictOrderedRing K] [MathSqrt K] {d : PoolsDb K} {pool : LiquidityPool K}

/-- Along a run in which the pool keeps LP tokens, their value does not fall. -/
theorem run_backing_le (hpool : pool ∈ d.pools.rows) (hfee : pool.feeBps ≤ 10000)
    {calls : List (PoolCall K)}
    (hsupply : Throughout step
      (fun d => ∀ p, d.pools.find pool.id = some p → 0 < p.totalLpSupply) d calls) :
    ∃ pool', (run step d calls).pools.find pool.id = some pool' ∧ pool.backing ≤ pool'.backing := by
  induction calls generalizing d pool with
  | nil => exact ⟨pool, Table.find_of_mem hpool, le_rfl⟩
  | cons call calls ih =>
    obtain ⟨hd, hrest⟩ := hsupply
    obtain ⟨pool₁, hfind, hmove⟩ := step_move hpool call
    have hsupply₁ : 0 < pool₁.totalLpSupply := by
      cases calls with
      | nil => exact hrest _ hfind
      | cons _ _ => exact hrest.1 _ hfind
    rw [← hmove.id_eq] at hrest
    obtain ⟨pool', hfind', hle⟩ :=
      ih (Table.mem_of_find hfind) (hmove.feeBps_eq ▸ hfee) hrest
    refine ⟨pool', by rw [run_cons, ← hmove.id_eq]; exact hfind', ?_⟩
    exact (hmove.backing_le hfee (hd _ (Table.find_of_mem hpool)) hsupply₁).trans hle

theorem run_backed [LawfulSqrt K] (hpool : pool ∈ d.pools.rows) (hfee : pool.feeBps ≤ 10000)
    (hbacked : pool.Backed) (calls : List (PoolCall K)) :
    ∃ pool', (run step d calls).pools.find pool.id = some pool' ∧ pool'.id = pool.id ∧
      pool'.feeBps ≤ 10000 ∧ pool'.Backed := by
  obtain ⟨pool', hfind, hfee', hbacked'⟩ := run_pool
    (I := fun p : LiquidityPool K => p.feeBps ≤ 10000 ∧ p.Backed)
    (fun p p' hmove h => ⟨hmove.feeBps_eq ▸ h.1, hmove.backed h.1 h.2⟩) hpool ⟨hfee, hbacked⟩ calls
  exact ⟨pool', hfind, Table.key_of_find hfind, hfee', hbacked'⟩

omit [IsStrictOrderedRing K] [MathSqrt K] in
theorem swap_ok {dto : SwapDto K} {result : SwapResult K} {d' : PoolsDb K}
    (hpool : pool ∈ d.pools.rows) (h : (swap pool.id dto).eval sql d = (.ok result, d')) :
    ∃ quote, getAmountOut dto.amountIn (pool.reserveIn (d.paysTokenA pool dto.tokenIn))
        (pool.reserveOut (d.paysTokenA pool dto.tokenIn)) pool.feeBps = .ok quote ∧
      result.swap.amountOut = quote.amountOut ∧ result.swap.feePaid = quote.feeAmount ∧
      d'.pools.find pool.id =
        some (pool.exchange (d.paysTokenA pool dto.tokenIn) dto.amountIn quote) := by
  rcases eval_swap (d := d) pool.id dto with ⟨e, he⟩ |
    ⟨loaded, tokenOut, quote, swaps, haccepted, heval⟩
  · rw [he] at h
    cases h
  · obtain rfl := Option.some.inj (haccepted.found.symm.trans (Table.find_of_mem hpool))
    have hquote := haccepted.quoted
    rw [heval] at h
    obtain ⟨hresult, rfl⟩ := Prod.mk.inj h
    obtain rfl := Except.ok.inj hresult
    refine ⟨quote, hquote, rfl, rfl, ?_⟩
    simp only
    rw [← LiquidityPool.exchange_id loaded (d.paysTokenA loaded dto.tokenIn) dto.amountIn quote]
    exact Table.find_save_self ..

end Runs

/-- **Reserves back the LP tokens**, with exact numbers such as the reals. In every run of the
service on a pool that starts empty, with a fee of at most 10000 basis points: the reserves are
nonnegative, and positive while there are LP tokens; from there on the value of an LP token does not
fall as long as there are any; and a swap does not lower the product of the reserves and pays less
than the reserve it is paid from. -/
theorem reserves_back_lp [IsStrictOrderedRing K] [MathSqrt K] [LawfulSqrt K] (d : PoolsDb K)
    (pool : LiquidityPool K) (hpool : pool ∈ d.pools.rows)
    (hempty : pool.reserveA = 0 ∧ pool.reserveB = 0 ∧ pool.totalLpSupply = 0)
    (hfee : pool.feeBps ≤ 10000) (calls : List (PoolCall K)) :
    ∃ reached, (run step d calls).pools.find pool.id = some reached ∧
      0 ≤ reached.reserveA ∧ 0 ≤ reached.reserveB ∧
      (0 < reached.totalLpSupply → 0 < reached.reserveA ∧ 0 < reached.reserveB) ∧
      (∀ later, Throughout step
          (fun d => ∀ p, d.pools.find pool.id = some p → 0 < p.totalLpSupply)
          (run step d calls) later →
        ∃ pool', (run step (run step d calls) later).pools.find pool.id = some pool' ∧
          reached.backing ≤ pool'.backing) ∧
      ∀ dto result d', (swap pool.id dto).eval sql (run step d calls) = (.ok result, d') →
        (∃ pool', d'.pools.find pool.id = some pool' ∧
          reached.reserveA * reached.reserveB ≤ pool'.reserveA * pool'.reserveB) ∧
        result.swap.amountOut <
          reached.reserveOut ((run step d calls).paysTokenA reached dto.tokenIn) := by
  obtain ⟨reached, hfind, hid, hfee', hbacked⟩ :=
    run_backed hpool hfee (.inl ⟨hempty.2.2, hempty.1, hempty.2.1⟩) calls
  have hmem := Table.mem_of_find hfind
  obtain ⟨hA, hB⟩ := hbacked.reserves_nonneg
  refine ⟨reached, hfind, hA, hB, hbacked.reserves_pos, fun later hsupply => ?_, ?_⟩
  · rw [← hid] at hsupply ⊢
    exact run_backing_le hmem hfee' hsupply
  · intro dto result d' heval
    rw [← hid] at heval ⊢
    obtain ⟨quote, hquote, hout, -, hfind'⟩ := swap_ok hmem heval
    refine ⟨⟨_, hfind', (exchange_bounds hfee' hquote).2⟩, ?_⟩
    obtain ⟨hx, hIn, hOut, rfl⟩ := getAmountOut_eq_ok.mp hquote
    rw [hout]
    exact (quoteSound hfee' hx hIn hOut).amountOut_lt

/-- A database with two assets and no pools. -/
def market (K : Type) : PoolsDb K where
  pools := Table.empty
  positions := Table.empty
  swaps := []
  withdrawals := []
  assets := (Table.empty.save ⟨1, "BTC"⟩).save ⟨2, "ETH"⟩

/-- The market with a pool, without liquidity. -/
def openedPool : PoolsDb ℚ :=
  { market ℚ with pools := Table.empty.save { newPool ⟨1, 2, "stellar", none⟩ with id := 1 } }

/-- Two providers, swaps in both directions, and a withdrawal. -/
def trades : List (PoolCall ℚ) :=
  [.addLiquidity 1 ⟨7, 100, 400⟩, .addLiquidity 1 ⟨8, 50, 200⟩, .swap 1 ⟨9, "BTC", 10, none⟩,
    .removeLiquidity 1 ⟨8, 40⟩, .swap 1 ⟨9, "ETH", 20, none⟩]

/-- After the trades there are LP tokens, and there are some after a swap and an emergency
withdrawal, too. -/
theorem reserves_back_lp_traded : ∃ reached,
    (run step openedPool trades).pools.find 1 = some reached ∧ 0 < reached.reserveA ∧ 0 < reached.reserveB ∧
      (∃ pool', (run step (run step openedPool trades) [.swap 1 ⟨9, "BTC", 5, none⟩,
          .emergencyWithdraw 1 ⟨7, 30, "outage", none⟩]).pools.find 1 = some pool' ∧ reached.backing ≤ pool'.backing) ∧
      ∃ result d', (swap 1 ⟨9, "BTC", 5, none⟩).eval sql (run step openedPool trades) = (.ok result, d') ∧
        result.swap.amountOut < reached.reserveB := by
  obtain ⟨reached, hfind, -, -, hpos, hlater, hswap⟩ := reserves_back_lp openedPool
    { newPool ⟨1, 2, "stellar", none⟩ with id := 1 } (Table.mem_save_self _ _) ⟨rfl, rfl, rfl⟩ (by decide) trades
  have hchecked : ((run step openedPool trades).pools.find 1).all fun p =>
      0 < p.totalLpSupply ∧ (run step openedPool trades).paysTokenA p "BTC" := by
    decide +kernel
  rw [hfind, Option.all_some, decide_eq_true_iff] at hchecked
  have hsupplies : Throughout step (fun d => ∀ p ∈ d.pools.find 1, 0 < p.totalLpSupply) (run step openedPool trades)
      [.swap 1 ⟨9, "BTC", 5, none⟩, .emergencyWithdraw 1 ⟨7, 30, "outage", none⟩] :=
    ⟨by decide +kernel, by decide +kernel, by rw [Throughout]; decide +kernel⟩
  have hok : ((swap 1 ⟨9, "BTC", 5, none⟩).eval sql (run step openedPool trades)).1.isOk := by decide +kernel
  refine ⟨reached, hfind, (hpos hchecked.1).1, (hpos hchecked.1).2, hlater _ hsupplies, ?_⟩
  cases heval : (swap 1 ⟨9, "BTC", 5, none⟩).eval sql (run step openedPool trades) with
  | mk result d' =>
    rw [heval] at hok
    cases result with
    | error e => cases hok
    | ok result =>
      refine ⟨result, d', rfl, ?_⟩
      have hout := (hswap _ _ _ heval).2
      rwa [hchecked.2] at hout

/-! ## The fee a pool is created with -/

/-- A swap is sound: whenever the service computes its quote, the quote is sound, and when it
accepts the swap, it records these amounts and both reserves stay positive. -/
structure SwapSound (d : PoolsDb K) (pool : LiquidityPool K) (dto : SwapDto K) : Prop where
  quoted : ∀ quote, getAmountOut dto.amountIn (pool.reserveIn (d.paysTokenA pool dto.tokenIn))
      (pool.reserveOut (d.paysTokenA pool dto.tokenIn)) pool.feeBps = .ok quote →
    QuoteSound dto.amountIn (pool.reserveIn (d.paysTokenA pool dto.tokenIn))
      (pool.reserveOut (d.paysTokenA pool dto.tokenIn)) pool.feeBps quote
  accepted : ∀ result d', (swap pool.id dto).eval sql d = (.ok result, d') →
    (0 ≤ result.swap.amountOut ∧
      result.swap.amountOut < pool.reserveOut (d.paysTokenA pool dto.tokenIn)) ∧
    (0 ≤ result.swap.feePaid ∧ result.swap.feePaid ≤ dto.amountIn) ∧
    ∃ pool', d'.pools.find pool.id = some pool' ∧ 0 < pool'.reserveA ∧ 0 < pool'.reserveB

/-- Every swap of a positive amount on a pool is sound, in every state a run of the service reaches
from `d`. -/
def SwapsSound [MathSqrt K] (d : PoolsDb K) (poolId : ℕ) : Prop :=
  ∀ calls pool, (run step d calls).pools.find poolId = some pool →
    ∀ dto : SwapDto K, 0 < dto.amountIn → SwapSound (run step d calls) pool dto

section Fee

variable [IsStrictOrderedRing K] {d : PoolsDb K} {pool : LiquidityPool K}

theorem swapSound (hpool : pool ∈ d.pools.rows) (hfee : pool.feeBps ≤ 10000) (dto : SwapDto K) :
    SwapSound d pool dto := by
  constructor
  · intro quote hquote
    obtain ⟨hx, hIn, hOut, rfl⟩ := getAmountOut_eq_ok.mp hquote
    exact quoteSound hfee hx hIn hOut
  · intro result d' heval
    obtain ⟨quote, hquote, hout, hpaid, hfind⟩ := swap_ok hpool heval
    have hreserves := (exchange_bounds hfee hquote).1
    obtain ⟨hx, hIn, hOut, rfl⟩ := getAmountOut_eq_ok.mp hquote
    have hsound := quoteSound hfee hx hIn hOut
    rw [hout, hpaid]
    exact ⟨⟨hsound.amountOut_nonneg, hsound.amountOut_lt⟩,
      ⟨hsound.feeAmount_nonneg, hsound.feeAmount_le⟩, _, hfind, hreserves⟩

/-- Beyond 10000 basis points the multiplier is negative, and so is what a small swap on a pool with
reserves of 1 is paid. -/
theorem amountOut_of_excess_fee {feeBps : ℕ} (hfee : 10000 < feeBps) :
    (swapQuote (1 / (2 * ((feeBps : K) / 10000 - 1))) 1 1 feeBps).amountOut = -1 := by
  have hcast : (10000 : K) < feeBps := by exact_mod_cast hfee
  have hexcess : (0 : K) < (feeBps : K) / 10000 - 1 := by
    rw [sub_pos, lt_div_iff₀ (by norm_num)]
    linarith
  have hpaid : amountInWithFee (1 / (2 * ((feeBps : K) / 10000 - 1))) feeBps = -1 / 2 := by
    unfold amountInWithFee feeMultiplier
    field_simp
    ring
  simp only [swapQuote, hpaid]
  norm_num

/-- The pool a request creates, with its deposit of one unit of each token. -/
theorem unit_deposit [MathSqrt K] {d₀ d₁ : PoolsDb K} {dto : CreatePoolDto}
    {created : LiquidityPool K} (h : (createPool dto).eval sql d₀ = (.ok created, d₁)) :
    ∃ pool tokenA,
      (step d₁ (.addLiquidity created.id ⟨0, 1, 1⟩)).pools.find created.id = some pool ∧
      (step d₁ (.addLiquidity created.id ⟨0, 1, 1⟩)).assets.find pool.tokenAId = some tokenA ∧
      pool.reserveA = 1 ∧ pool.reserveB = 1 ∧ pool.feeBps = dto.feeBps.getD 30 := by
  rcases eval_createPool (d := d₀) dto with ⟨e, he⟩ | ⟨⟨hA, -⟩, heval⟩
  · rw [he] at h
    cases h
  obtain ⟨hcreated, rfl⟩ := Prod.mk.inj (heval.symm.trans h)
  obtain rfl := Except.ok.inj hcreated
  obtain ⟨tokenA, hA⟩ := Option.ne_none_iff_exists'.mp hA
  set created : LiquidityPool K := { newPool dto with id := nextId d₀.pools } with hcreated
  have hquote : calculateLpTokensToMint 1 1 created.reserveA created.reserveB
      created.totalLpSupply = .ok ⟨MathSqrt.sqrt (1 * 1), (1 : K), 1⟩ := by
    simp [calculateLpTokensToMint, hcreated, newPool]
  have hstep : step { d₀ with pools := d₀.pools.save created }
      (.addLiquidity created.id ⟨0, 1, 1⟩) =
      ((addLiquidity created.id ⟨0, 1, 1⟩).eval sql
        { d₀ with pools := d₀.pools.save created }).2 := by
    simp [step, PoolCall.program]
  have hmem : created ∈ (d₀.pools.save created).rows := Table.mem_save_self ..
  rw [hstep, eval_addLiquidity hmem rfl hquote]
  exact ⟨_, tokenA, Table.find_save_self .., hA, zero_add 1, zero_add 1, rfl⟩

/-- A pool whose fee exceeds 10000 has an unsound swap after its first deposit. -/
theorem excess_fee_unsound [MathSqrt K] {d : PoolsDb K} {id : ℕ} {call : PoolCall K}
    {pool : LiquidityPool K} {tokenA : VirtualAsset}
    (hfind : (step d call).pools.find id = some pool)
    (htoken : (step d call).assets.find pool.tokenAId = some tokenA) (hA : pool.reserveA = 1)
    (hB : pool.reserveB = 1) (hfee : 10000 < pool.feeBps) : ¬ SwapsSound d id := by
  intro hsound
  have hcast : (10000 : K) < pool.feeBps := by exact_mod_cast hfee
  have hexcess : (0 : K) < (pool.feeBps : K) / 10000 - 1 := by
    rw [sub_pos, lt_div_iff₀ (by norm_num)]
    linarith
  have hpays : (step d call).paysTokenA pool tokenA.symbol = true := by
    simp [PoolsDb.paysTokenA, htoken]
  have hx : (0 : K) < 1 / (2 * ((pool.feeBps : K) / 10000 - 1)) := by positivity
  have hswap := (hsound [call] pool hfind
    ⟨0, tokenA.symbol, 1 / (2 * ((pool.feeBps : K) / 10000 - 1)), none⟩ hx).quoted
  simp only [run_cons, run_nil, hpays, LiquidityPool.reserveIn, LiquidityPool.reserveOut, if_true,
    hA, hB] at hswap
  have hout := (hswap _ (getAmountOut_eq_ok.mpr ⟨hx, one_pos, one_pos, rfl⟩)).amountOut_nonneg
  rw [amountOut_of_excess_fee hfee] at hout
  linarith

end Fee

/-- **Swaps are sound exactly for fees of at most 10000 basis points.** For every pool the service
creates: every swap in every run is sound if and only if the requested fee, 30 by default, is at
most
10000. The request is only checked for a fee of at least 0. -/
theorem swaps_sound_iff (d₀ d₁ : PoolsDb ℝ) (dto : CreatePoolDto) (created : LiquidityPool ℝ)
    (h : (createPool dto).eval sql d₀ = (.ok created, d₁)) :
    SwapsSound d₁ created.id ↔ dto.feeBps.getD 30 ≤ 10000 := by
  constructor
  · intro hsound
    by_contra hfee
    obtain ⟨pool, tokenA, hfind, htoken, hA, hB, hpool⟩ := unit_deposit h
    exact excess_fee_unsound hfind htoken hA hB (hpool ▸ not_le.mp hfee) hsound
  · intro hfee calls pool hfind dto' _
    rcases eval_createPool (d := d₀) dto with ⟨e, he⟩ | ⟨-, heval⟩
    · rw [he] at h
      cases h
    obtain ⟨hcreated, rfl⟩ := Prod.mk.inj (heval.symm.trans h)
    obtain rfl := Except.ok.inj hcreated
    have hmem := Table.mem_save_self d₀.pools
      ({ newPool dto with id := nextId d₀.pools } : LiquidityPool ℝ)
    obtain ⟨pool', hfind', -, hfee', -⟩ :=
      run_backed (d := { d₀ with pools := d₀.pools.save _ }) hmem hfee (.inl ⟨rfl, rfl, rfl⟩) calls
    obtain rfl := Option.some.inj (hfind.symm.trans hfind')
    exact swapSound (Table.mem_of_find hfind) hfee' dto'

theorem swaps_sound_default : ∃ created d₁,
    (createPool ⟨1, 2, "stellar", none⟩).eval sql (market ℝ) = (.ok created, d₁) ∧
      SwapsSound d₁ created.id := by
  rcases eval_createPool (d := market ℝ) ⟨1, 2, "stellar", none⟩ with ⟨e, he⟩ | ⟨-, heval⟩
  · exfalso
    simp [createPool, market, sql, Table.find_save, newPool, Except.map, pairPool, orderBy] at he
  · exact ⟨_, _, heval, (swaps_sound_iff _ _ _ _ heval).mpr (by decide)⟩

/-- A pool of the market with a fee of 20000 basis points. -/
noncomputable def excessPool (reserve supply : ℝ) : LiquidityPool ℝ :=
  { newPool ⟨1, 2, "stellar", some 20000⟩ with
    id := 1
    reserveA := reserve
    reserveB := reserve
    totalLpSupply := supply }

/-- A pool with a fee of 20000 pays a swap of one half the amount -1. -/
theorem swap_paid_negative : ∃ created d₁,
    (createPool ⟨1, 2, "stellar", some 20000⟩).eval sql (market ℝ) = (.ok created, d₁) ∧
      ∃ result d',
        (swap created.id ⟨8, "BTC", 1 / 2, none⟩).eval sql
            (run step d₁ [.addLiquidity created.id ⟨7, 1, 1⟩]) = (.ok result, d') ∧
          result.swap.amountOut = -1 := by
  have hone : ¬ (1 : ℝ) ≤ 0 := by norm_num
  have hcreate : (createPool ⟨1, 2, "stellar", some 20000⟩).eval sql (market ℝ) =
      (.ok (excessPool 0 0), { market ℝ with pools := Table.empty.save (excessPool 0 0) }) := by
    simp [createPool, market, sql, Table.find_save, newPool, nextId, Except.map, excessPool, pairPool,
      orderBy]
  have hadd : run step { market ℝ with pools := Table.empty.save (excessPool 0 0) }
      [.addLiquidity 1 ⟨7, 1, 1⟩] =
      { market ℝ with
        pools := Table.empty.save (excessPool 1 1)
        positions := Table.empty.save ⟨1, 7, 1, 1, 1, 0, 0⟩ } := by
    simp [step, PoolCall.program, addLiquidity, getPool, market, sql, newPool, Table.find_save,
      PoolsDb.load, calculateLpTokensToMint, LiquidityPool.deposit, depositPosition, storePosition,
      PoolPosition.key, Table.save_save, MathSqrt.sqrt, excessPool, hone]
  refine ⟨_, _, hcreate, ?_⟩
  rw [show (excessPool 0 0).id = 1 from rfl, hadd]
  -- the multiplier is -1, so the divisor is 1 - 1/2
  have hquote : getAmountOut (1 / 2) ((excessPool 1 1).reserveIn true)
      ((excessPool 1 1).reserveOut true) (excessPool 1 1).feeBps =
      .ok (swapQuote (1 / 2) 1 1 20000) :=
    getAmountOut_eq_ok.mpr ⟨by norm_num, one_pos, one_pos, rfl⟩
  have hmem : excessPool 1 1 ∈ ((market ℝ).pools.save (excessPool 1 1)).rows :=
    Table.mem_save_self _ _
  have hA : (market ℝ).assets.find 1 = some ⟨1, "BTC"⟩ := rfl
  have hB : (market ℝ).assets.find 2 = some ⟨2, "ETH"⟩ := rfl
  have hdirection : (direction "BTC" ⟨1, "BTC"⟩ ⟨2, "ETH"⟩ : Session ℝ _) = pure (true, "ETH") :=
    rfl
  have hmin : ¬ belowMinimum (K := ℝ) none (swapQuote (1 / 2) 1 1 20000).amountOut := by
    simp [belowMinimum]
  refine ⟨_, _, eval_swap_of_quote (d := { market ℝ with
    pools := Table.empty.save (excessPool 1 1)
    positions := Table.empty.save ⟨1, 7, 1, 1, 1, 0, 0⟩ }) hmem rfl hA hB hdirection hquote hmin, ?_⟩
  simp only [newSwap, swapQuote, amountInWithFee, feeMultiplier]
  norm_num

end Pools
