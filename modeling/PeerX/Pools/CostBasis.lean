import PeerX.Pools.Changes

/-!
# Pools: the cost basis of a position

LP tokens are burned on two paths, which quote the same amounts and save the same pool.
`removeLiquidity` shrinks the deposited amounts of the position with its tokens; `emergencyWithdraw`
leaves them as they are, so that the impermanent loss computed afterwards compares the tokens that
are left with all that was ever deposited. Both paths agree on a position exactly when nothing is
deposited in it.
-/

namespace Pools

open Relational Concurrency

variable {K : Type} [Field K] [LinearOrder K]

/-- `LiquidityPoolService.getPosition`, with its relation `pool`. A generated identifier stands for
the unique pair that `pairOf` gives. -/
def PoolsDb.getPosition (d : PoolsDb K) (pairOf : ℕ → ℕ × ℕ) (positionId : ℕ) :
    Except (PoolError K) (PoolPosition K × Option (LiquidityPool K)) :=
  match d.positions.find (pairOf positionId) with
  | none => .error (.notFound s!"Position {positionId} not found")
  | some position => .ok (position, d.pools.find position.poolId)

def PoolsDb.getImpermanentLoss (d : PoolsDb K) (pairOf : ℕ → ℕ × ℕ) (positionId : ℕ) :
    Except (PoolError K) (ImpermanentLossResult K) :=
  match d.getPosition pairOf positionId with
  | .error e => .error e
  -- a position without its pool: `pool.reserveA` is read of null
  | .ok (_, none) => .error (.error "Cannot read properties of null (reading 'reserveA')")
  | .ok (position, some pool) => .ok (calculateImpermanentLoss position.depositedAmountA position.depositedAmountB
      pool.reserveA pool.reserveB pool.totalLpSupply position.lpAmount)

/-- The tokens and the deposits of a position shrink by one factor. -/
def KeptShare (position position' : PoolPosition K) : Prop :=
  ∃ kept, position'.lpAmount = kept * position.lpAmount ∧
    position'.depositedAmountA = kept * position.depositedAmountA ∧
    position'.depositedAmountB = kept * position.depositedAmountB

/-- The position with a key, before and after, if it is there. -/
def BasisKept (d d' : PoolsDb K) (key : ℕ × ℕ) : Prop :=
  ∀ position ∈ d.positions.find key, ∃ position' ∈ d'.positions.find key, KeptShare position position'

/-- The two paths agree: when both accept the amount, they leave the same rows except for the
record of the emergency withdrawal, the cost basis shrinks on both, and so the impermanent loss
computed afterwards is the same. -/
def BurnsAgree (d : PoolsDb K) (poolId userId : ℕ) (lpAmount : K) (reason : String) (adminApprovedBy : Option ℕ) : Prop :=
  ∀ result d₁ withdrawal d₂,
    (removeLiquidity poolId ⟨userId, lpAmount⟩).eval sql d = (.ok result, d₁) →
    (emergencyWithdraw poolId ⟨userId, lpAmount, reason, adminApprovedBy⟩).eval sql d = (.ok withdrawal, d₂) →
      d₂ = { d₁ with withdrawals := d₁.withdrawals ++ [withdrawal] } ∧
        BasisKept d d₁ (poolId, userId) ∧ BasisKept d d₂ (poolId, userId) ∧
        ∀ pairOf positionId, d₂.getImpermanentLoss pairOf positionId = d₁.getImpermanentLoss pairOf positionId

section Positions

variable {position position' position'' : PoolPosition K} {lpAmount : K}

omit [LinearOrder K]

@[simp] theorem PoolPosition.withdraw_key (position : PoolPosition K) (lpAmount : K) : (position.withdraw lpAmount).key = position.key := rfl

@[simp] theorem PoolPosition.burn_key (position : PoolPosition K) (lpAmount : K) : (position.burn lpAmount).key = position.key := rfl

/-- A removal shrinks the deposits with the tokens. -/
theorem keptShare_withdraw (hlp : position.lpAmount ≠ 0) : KeptShare position (position.withdraw lpAmount) := by
  refine ⟨1 - lpAmount / position.lpAmount, ?_, ?_, ?_⟩
  · rw [sub_mul, one_mul, div_mul_cancel₀ _ hlp]
    rfl
  · rw [mul_comm, PoolPosition.withdraw, sub_add_cancel]
  · rw [mul_comm, PoolPosition.withdraw, sub_add_cancel]

/-- The factor by which a burn shrinks the tokens is not 1, so that it shrinks no deposit but 0. -/
theorem eq_zero_of_kept {kept deposited : K} (hne : lpAmount ≠ 0)
    (hlp : position.lpAmount - lpAmount = kept * position.lpAmount) (hdeposited : deposited = kept * deposited) :
    deposited = 0 := by
  have hkept : kept ≠ 1 := by
    rintro rfl
    rw [one_mul] at hlp
    exact hne (sub_eq_self.mp hlp)
  have hzero : (1 - kept) * deposited = 0 := by
    rw [sub_mul, one_mul, ← hdeposited, sub_self]
  exact (mul_eq_zero.mp hzero).resolve_left (sub_ne_zero.mpr hkept.symm)

/-- An emergency withdrawal keeps the deposits: they shrink with the tokens only when there are
none. -/
theorem keptShare_burn_iff (hlp : position.lpAmount ≠ 0) (hne : lpAmount ≠ 0) :
    KeptShare position (position.burn lpAmount) ↔
      position.depositedAmountA = 0 ∧ position.depositedAmountB = 0 := by
  constructor
  · -- the factor of the tokens would be that of the deposits, which do not change
    rintro ⟨kept, hkept, hA, hB⟩
    exact ⟨eq_zero_of_kept hne hkept hA, eq_zero_of_kept hne hkept hB⟩
  · rintro ⟨hA, hB⟩
    refine ⟨1 - lpAmount / position.lpAmount, ?_, ?_, ?_⟩
    · rw [sub_mul, one_mul, div_mul_cancel₀ _ hlp]
      rfl
    · rw [hA, mul_zero]
      exact hA
    · rw [hB, mul_zero]
      exact hB

/-- Without deposits the two paths leave the same position. -/
theorem burn_eq_withdraw (hA : position.depositedAmountA = 0) (hB : position.depositedAmountB = 0) :
    position.burn lpAmount = position.withdraw lpAmount := by
  simp [PoolPosition.burn, PoolPosition.withdraw, hA, hB]

end Positions

section Tables

variable {d : PoolsDb K} {poolId userId : ℕ} {lpAmount : K} {pool : LiquidityPool K} {position : PoolPosition K}
  {amounts : WithdrawQuote K}

/-- A withdrawal that is accepted burns tokens of a position that has some. -/
theorem WithdrawalAccepted.pos (h : WithdrawalAccepted d poolId userId lpAmount pool position amounts) :
    0 < lpAmount ∧ 0 < position.lpAmount := by
  have hlp := (calculateWithdrawAmounts_eq_ok h.quoted).1
  exact ⟨hlp, hlp.trans_le h.enough⟩

omit [LinearOrder K] in
theorem basisKept_save_iff {pools : Table (LiquidityPool.id (K := K))} {withdrawals : List (EmergencyWithdrawal K)}
    {saved : PoolPosition K} (howned : d.positions.find (poolId, userId) = some position)
    (hkey : saved.key = position.key) :
    BasisKept d { d with pools := pools, positions := d.positions.save saved, withdrawals := withdrawals }
      (poolId, userId) ↔ KeptShare position saved := by
  have hsaved : (d.positions.save saved).find (poolId, userId) = some saved := by
    rw [← Table.key_of_find howned, ← hkey]
    exact Table.find_save_self _ _
  constructor
  · intro h
    obtain ⟨position', hposition', hkept⟩ := h position howned
    rw [hsaved] at hposition'
    rwa [← Option.some.inj hposition'] at hkept
  · intro h found hfound
    rw [howned] at hfound
    rw [← Option.some.inj hfound]
    exact ⟨saved, hsaved, h⟩

theorem removeLiquidity_of_accepted (h : WithdrawalAccepted d poolId userId lpAmount pool position amounts)
    (hstatus : pool.status ≠ .emergency) :
    (removeLiquidity poolId ⟨userId, lpAmount⟩).eval sql d =
      (.ok ⟨pool.withdraw lpAmount amounts, position.withdraw lpAmount, amounts⟩,
        { d with
          pools := d.pools.save (pool.withdraw lpAmount amounts)
          positions := d.positions.save (position.withdraw lpAmount) }) := by
  rw [removeLiquidity, Prog.eval_bind, eval_getPool, h.found]
  simp only [PoolsDb.load, hstatus, if_false, Prog.perform_bind, Prog.eval_call, sql, h.owned, requireLp,
    h.enough.not_gt, pure_bind, h.quoted, attempt_ok]
  rfl

theorem emergencyWithdraw_of_accepted (h : WithdrawalAccepted d poolId userId lpAmount pool position amounts)
    (reason : String) (adminApprovedBy : Option ℕ) :
    (emergencyWithdraw poolId ⟨userId, lpAmount, reason, adminApprovedBy⟩).eval sql d =
      (.ok (newWithdrawal poolId ⟨userId, lpAmount, reason, adminApprovedBy⟩ amounts),
        { d with
          pools := d.pools.save (pool.withdraw lpAmount amounts)
          positions := d.positions.save (position.burn lpAmount)
          withdrawals := d.withdrawals ++
            [newWithdrawal poolId ⟨userId, lpAmount, reason, adminApprovedBy⟩ amounts] }) := by
  rw [emergencyWithdraw, Prog.eval_bind, eval_getPool, h.found]
  simp only [PoolsDb.load, if_false, Prog.perform_bind, Prog.eval_call, sql, h.owned, requireLp,
    h.enough.not_gt, pure_bind, h.quoted, attempt_ok]
  rfl

/-- **When the two paths agree**: on a position in which nothing is deposited. -/
theorem burns_agree_iff (d : PoolsDb K) (poolId userId : ℕ) (lpAmount : K) (reason : String)
    (adminApprovedBy : Option ℕ) :
    BurnsAgree d poolId userId lpAmount reason adminApprovedBy ↔
      ∀ pool position amounts, WithdrawalAccepted d poolId userId lpAmount pool position amounts →
        pool.status ≠ .emergency → position.depositedAmountA = 0 ∧ position.depositedAmountB = 0 := by
  constructor
  · intro hagree pool position amounts haccepted hstatus
    obtain ⟨-, -, hemergency, -⟩ := hagree _ _ _ _ (removeLiquidity_of_accepted haccepted hstatus)
      (emergencyWithdraw_of_accepted haccepted reason adminApprovedBy)
    have hkept := (basisKept_save_iff haccepted.owned (position.burn_key lpAmount)).mp hemergency
    exact (keptShare_burn_iff haccepted.pos.2.ne' haccepted.pos.1.ne').mp hkept
  · intro hzero result d₁ withdrawal d₂ hremoval hemergency
    -- both calls passed the same checks
    obtain ⟨pool, position, amounts, haccepted, hstatus, heval⟩ :=
      (eval_removeLiquidity (d := d) poolId ⟨userId, lpAmount⟩).resolve_left <| by
        rintro ⟨e, he⟩
        rw [hremoval] at he
        cases he
    obtain ⟨hA, hB⟩ := hzero pool position amounts haccepted hstatus
    obtain ⟨-, rfl⟩ := Prod.mk.inj (hremoval.symm.trans heval)
    obtain ⟨hwithdrawal, rfl⟩ := Prod.mk.inj
      (hemergency.symm.trans (emergencyWithdraw_of_accepted haccepted reason adminApprovedBy))
    obtain rfl := Except.ok.inj hwithdrawal
    rw [burn_eq_withdraw hA hB]
    have hkept : KeptShare position (position.withdraw lpAmount) := keptShare_withdraw haccepted.pos.2.ne'
    have hkey := position.withdraw_key lpAmount
    exact ⟨rfl, (basisKept_save_iff haccepted.owned hkey).mpr hkept,
      (basisKept_save_iff haccepted.owned hkey).mpr hkept, fun _ _ => rfl⟩

end Tables

/-- A pool with 100 of each token, and its provider, who deposited as much. -/
def depositedPool : PoolsDb ℚ where
  pools := Table.empty.save
    { newPool ⟨1, 2, "stellar", none⟩ with
      id := 1
      reserveA := 100
      reserveB := 100
      totalLpSupply := 100 }
  positions := Table.empty.save ⟨1, 7, 100, 100, 100, 0, 0⟩
  swaps := []
  withdrawals := []
  assets := Table.empty

/-- **Half of the tokens are burned**: after a removal nothing is lost, after an emergency
withdrawal half of the value. -/
theorem loss_after_emergency :
    ¬ BurnsAgree depositedPool 1 7 50 "pool drained" none ∧
      (((removeLiquidity 1 ⟨7, 50⟩).eval sql depositedPool).2.getImpermanentLoss (fun _ => (1, 7)) 1).map
        (·.impermanentLossPercent) = .ok 0 ∧
      (((emergencyWithdraw 1 ⟨7, 50, "pool drained", none⟩).eval sql depositedPool).2.getImpermanentLoss
        (fun _ => (1, 7)) 1).map (·.impermanentLossPercent) = .ok 50 := by
  have hremoval : (((removeLiquidity 1 ⟨7, 50⟩).eval sql depositedPool).2.getImpermanentLoss (fun _ => (1, 7)) 1).map
      (·.impermanentLossPercent) = .ok 0 := by
    decide +kernel
  have hemergency : (((emergencyWithdraw 1 ⟨7, 50, "pool drained", none⟩).eval sql depositedPool).2.getImpermanentLoss
      (fun _ => (1, 7)) 1).map (·.impermanentLossPercent) = .ok 50 := by
    decide +kernel
  refine ⟨fun h => ?_, hremoval, hemergency⟩
  obtain ⟨-, -, -, hloss⟩ := h _ _ _ _ rfl rfl
  have hsame := congrArg (Except.map (·.impermanentLossPercent)) (hloss (fun _ => (1, 7)) 1)
  have hne : (.ok 50 : Except (PoolError ℚ) ℚ) = .ok 0 := hemergency.symm.trans (hsame.trans hremoval)
  exact absurd (Except.ok.inj hne) (by decide)

end Pools
