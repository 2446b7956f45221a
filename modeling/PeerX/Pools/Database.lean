import PeerX.Foundations.Program
import PeerX.Pools.Entities

/-!
# Pools: the database

The tables of the pool service and the repository calls it issues. Every call is a statement of its
own: the service opens no transaction and takes no lock. A save writes the whole entity. The queries
leave the order of the rows open; here positions come by user, and pools by identifier.
-/

namespace Pools

open Relational Concurrency

variable {K : Type}

/-- The tables. -/
structure PoolsDb (K : Type) where
  pools : Table (LiquidityPool.id (K := K))
  positions : Table (PoolPosition.key (K := K))
  swaps : List (PoolSwap K)
  withdrawals : List (EmergencyWithdrawal K)
  assets : Table VirtualAsset.id

/-- A pool with its relations `tokenA` and `tokenB`. -/
structure LoadedPool (K : Type) where
  pool : LiquidityPool K
  tokenA : Option VirtualAsset
  tokenB : Option VirtualAsset

/-- The rows in the order of a column. -/
def orderBy {ρ : Type} (column : ρ → ℕ) (rows : List ρ) : List ρ :=
  rows.insertionSort fun r r' => column r ≤ column r'

/-- The positions of a pool. -/
def positionsOf (positions : Table (PoolPosition.key (K := K))) (poolId : ℕ) :
    List (PoolPosition K) :=
  orderBy PoolPosition.userId (positions.rows.filter (·.poolId = poolId))

def pairPool (pools : Table (LiquidityPool.id (K := K))) (tokenAId tokenBId : ℕ)
    (chainId : String) : Option (LiquidityPool K) :=
  (orderBy LiquidityPool.id pools.rows).find? fun p =>
    p.tokenAId = tokenAId ∧ p.tokenBId = tokenBId ∧ p.chainId = chainId

/-- The next value of the generated column `id`. -/
def nextId (pools : Table (LiquidityPool.id (K := K))) : ℕ :=
  (pools.rows.map LiquidityPool.id).foldr max 0 + 1

/-- The repository calls of the pool service. -/
inductive Stmt (K : Type) : Type
  /-- `assetRepo.findOne({ where: { id } })`. -/
  | findAsset (id : ℕ)
  /-- `poolRepo.findOne({ where: { tokenAId, tokenBId, chainId } })`. -/
  | findPair (tokenAId tokenBId : ℕ) (chainId : String)
  /-- `poolRepo.findOne({ where: { id }, relations: ['tokenA', 'tokenB'] })`. -/
  | findPool (id : ℕ)
  /-- `positionRepo.findOne({ where: { poolId, userId } })`. -/
  | findPosition (poolId userId : ℕ)
  /-- `positionRepo.find({ where: { poolId } })`. -/
  | findPositions (poolId : ℕ)
  /-- `poolRepo.save(pool)` of an entity without a row. The reply is the generated identifier. -/
  | insertPool (pool : LiquidityPool K)
  /-- `poolRepo.save(pool)` of an entity with a row. -/
  | savePool (pool : LiquidityPool K)
  /-- `positionRepo.save(position)` of an entity without a row. The reply says whether the key was
  new. -/
  | insertPosition (position : PoolPosition K)
  /-- `positionRepo.save(position)` of an entity with a row. -/
  | savePosition (position : PoolPosition K)
  /-- `swapRepo.save(swap)`. -/
  | insertSwap (swap : PoolSwap K)
  /-- `emergencyRepo.save(withdrawal)`. -/
  | insertWithdrawal (withdrawal : EmergencyWithdrawal K)

abbrev Stmt.Reply : Stmt K → Type
  | .findAsset _ => Option VirtualAsset
  | .findPair _ _ _ => Option (LiquidityPool K)
  | .findPool _ => Option (LoadedPool K)
  | .findPosition _ _ => Option (PoolPosition K)
  | .findPositions _ => List (PoolPosition K)
  | .insertPool _ => ℕ
  | .savePool _ => Unit
  | .insertPosition _ => Bool
  | .savePosition _ => Unit
  | .insertSwap _ => Unit
  | .insertWithdrawal _ => Unit

/-- A pool joined with its assets. -/
def PoolsDb.load (d : PoolsDb K) (pool : LiquidityPool K) : LoadedPool K :=
  ⟨pool, d.assets.find pool.tokenAId, d.assets.find pool.tokenBId⟩

/-- The repository calls: the reply, and the tables after the call. -/
def sql : (c : Stmt K) → PoolsDb K → c.Reply × PoolsDb K
  | .findAsset id, d => (d.assets.find id, d)
  | .findPair a b chain, d => (pairPool d.pools a b chain, d)
  | .findPool id, d => ((d.pools.find id).map d.load, d)
  | .findPosition p u, d => (d.positions.find (p, u), d)
  | .findPositions p, d => (positionsOf d.positions p, d)
  | .insertPool pool, d =>
    (nextId d.pools, { d with pools := d.pools.save { pool with id := nextId d.pools } })
  | .savePool pool, d => ((), { d with pools := d.pools.save pool })
  | .insertPosition position, d =>
    ((d.positions.find position.key).isNone,
      if (d.positions.find position.key).isNone then
        { d with positions := d.positions.save position }
      else d)
  | .savePosition position, d => ((), { d with positions := d.positions.save position })
  | .insertSwap swap, d => ((), { d with swaps := d.swaps ++ [swap] })
  | .insertWithdrawal withdrawal, d =>
    ((), { d with withdrawals := d.withdrawals ++ [withdrawal] })

/-- Programs of repository calls. -/
abbrev Session (K : Type) (α : Type) := Prog (Stmt K) Stmt.Reply (PoolError K) α

/-- A repository call. -/
abbrev query (c : Stmt K) : Session K c.Reply := Prog.perform c

/-- A pure function that can throw. -/
def attempt {α : Type} : Except (PoolError K) α → Session K α
  | .ok a => pure a
  | .error e => throw e

@[simp] theorem attempt_ok {α : Type} (a : α) : (attempt (.ok a) : Session K α) = pure a := rfl

@[simp] theorem attempt_error {α : Type} (e : PoolError K) :
    (attempt (.error e) : Session K α) = throw e := rfl

theorem le_foldr_max {l : List ℕ} {n : ℕ} (h : n ∈ l) : n ≤ l.foldr max 0 := by
  induction l with
  | nil => cases h
  | cons m l ih =>
    rcases List.mem_cons.mp h with rfl | h
    · exact le_max_left ..
    · exact (ih h).trans (le_max_right ..)

theorem find_nextId (pools : Table (LiquidityPool.id (K := K))) :
    pools.find (nextId pools) = none := by
  rw [Table.find_eq_none_iff]
  intro pool hpool hid
  have hle := le_foldr_max (List.mem_map_of_mem (f := LiquidityPool.id) hpool)
  rw [hid] at hle
  unfold nextId at hle
  omega

/-- Sorting by a column with distinct values forgets the order of the rows. -/
theorem orderBy_congr {ρ : Type} {column : ρ → ℕ} {rows rows' : List ρ} (h : rows.Perm rows')
    (hinj : ∀ r ∈ rows, ∀ r' ∈ rows, column r = column r' → r = r') :
    orderBy column rows = orderBy column rows' := by
  have : Std.Total fun r r' : ρ => column r ≤ column r' := ⟨fun r r' => le_total ..⟩
  have : IsTrans ρ fun r r' : ρ => column r ≤ column r' := ⟨fun _ _ _ => le_trans⟩
  have hperm := List.perm_insertionSort (fun r r' : ρ => column r ≤ column r') rows
  refine List.Perm.eq_of_pairwise (fun r r' hr hr' hle hle' => ?_)
    (List.pairwise_insertionSort _ _) (List.pairwise_insertionSort _ _)
    (hperm.trans (h.trans (List.perm_insertionSort _ _).symm))
  exact hinj r (hperm.mem_iff.mp hr) r'
    (h.mem_iff.mpr ((List.perm_insertionSort _ _).mem_iff.mp hr')) (le_antisymm hle hle')

theorem mem_positionsOf {positions : Table (PoolPosition.key (K := K))} {poolId : ℕ}
    {p : PoolPosition K} :
    p ∈ positionsOf positions poolId ↔ p ∈ positions.rows ∧ p.poolId = poolId := by
  simp [positionsOf, orderBy]

end Pools
