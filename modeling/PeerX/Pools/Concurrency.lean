import PeerX.Foundations.Interleaving
import PeerX.Pools.Reserves

/-!
# Pools: concurrent calls

The repository calls of two calls of the service interleave: there is no transaction and no lock, so
a save overwrites whatever was saved since the entity was read. Two calls are as good as one after
the other when their accesses to the same rows come in one order.

## Main results

* `commuting`: repository calls that do not conflict commute
* `calls_serialize`: two calls whose conflicts are ordered are a serial run
* `update_lost`: two swaps of which each read the pool before the other saved it
-/

namespace Pools

open Relational Concurrency

variable {K : Type}

/-! ## Rows and areas -/

/-- A row of the tables that calls overwrite. -/
inductive Row : Type
  | pool (id : ℕ)
  | position (poolId userId : ℕ)
deriving DecidableEq

/-- The rows a repository call names: a pool, all pools, a position, or the positions of a pool. -/
inductive Area : Type
  | pools
  | pool (id : ℕ)
  | positionsOf (poolId : ℕ)
  | position (poolId userId : ℕ)
deriving DecidableEq

/-- The row belongs to the area. -/
def Area.Contains : Area → Row → Prop
  | .pools, .pool _ => True
  | .pool id, .pool id' => id = id'
  | .positionsOf poolId, .position poolId' _ => poolId = poolId'
  | .position poolId userId, .position poolId' userId' => poolId = poolId' ∧ userId = userId'
  | _, _ => False

/-- The areas have a row in common. -/
def Area.overlaps : Area → Area → Bool
  | .pools, .pools => true
  | .pools, .pool _ => true
  | .pool _, .pools => true
  | .pool id, .pool id' => id = id'
  | .positionsOf poolId, .positionsOf poolId' => poolId = poolId'
  | .positionsOf poolId, .position poolId' _ => poolId = poolId'
  | .position poolId _, .positionsOf poolId' => poolId = poolId'
  | .position poolId userId, .position poolId' userId' => poolId = poolId' ∧ userId = userId'
  | _, _ => false

theorem Area.overlaps_of_contains {x y : Area} {r : Row} (hx : x.Contains r) (hy : y.Contains r) :
    x.overlaps y := by
  cases r <;> cases x <;> cases y <;> simp_all [Area.Contains, Area.overlaps]

/-- The area a repository call reads or saves. Assets are never saved; swaps and withdrawals are
never read, and each of them gets a row of its own. -/
def Stmt.area : Stmt K → Option Area
  | .findAsset _ => none
  | .findPair _ _ _ => some .pools
  | .findPool id => some (.pool id)
  | .findPosition poolId userId => some (.position poolId userId)
  | .findPositions poolId => some (.positionsOf poolId)
  | .insertPool _ => some .pools
  | .savePool pool => some (.pool pool.id)
  | .insertPosition position => some (.position position.poolId position.userId)
  | .savePosition position => some (.position position.poolId position.userId)
  | .insertSwap _ => none
  | .insertWithdrawal _ => none

/-- The repository call saves the rows of its area. -/
def Stmt.saves : Stmt K → Bool
  | .insertPool _ => true
  | .savePool _ => true
  | .insertPosition _ => true
  | .savePosition _ => true
  | _ => false

/-- A conflict: the calls access a row, and one of them saves it. -/
def Conflict (a b : Stmt K) : Prop :=
  (a.saves ∨ b.saves) ∧ ∃ x ∈ a.area, ∃ y ∈ b.area, x.overlaps y

instance : DecidableRel (Conflict (K := K)) := fun _ _ =>
  inferInstanceAs (Decidable (_ ∧ ∃ x ∈ _, ∃ y ∈ _, Area.overlaps x y = true))

/-! ## Databases with the same rows -/

/-- The row is the same in both databases. -/
def Row.Agree (d d' : PoolsDb K) : Row → Prop
  | .pool id => d.pools.find id = d'.pools.find id
  | .position poolId userId => d.positions.find (poolId, userId) = d'.positions.find (poolId, userId)

theorem Row.Agree.refl (d : PoolsDb K) (r : Row) : Row.Agree d d r := by
  cases r <;> rfl

theorem Row.Agree.symm {d d' : PoolsDb K} {r : Row} (h : Row.Agree d d' r) : Row.Agree d' d r := by
  cases r <;> exact Eq.symm h

theorem Row.Agree.trans {d d' d'' : PoolsDb K} {r : Row} (h : Row.Agree d d' r)
    (h' : Row.Agree d' d'' r) : Row.Agree d d'' r := by
  cases r <;> exact Eq.trans h h'

/-- The same database: the same pools, positions and assets, and the same swaps and withdrawals
up to their order. -/
structure PoolsDb.Same (d d' : PoolsDb K) : Prop where
  rows : ∀ r, Row.Agree d d' r
  swaps : d.swaps.Perm d'.swaps
  withdrawals : d.withdrawals.Perm d'.withdrawals
  assets : d.assets = d'.assets

theorem PoolsDb.same_equivalence : Equivalence (PoolsDb.Same (K := K)) where
  refl d := ⟨Row.Agree.refl d, .rfl, .rfl, rfl⟩
  symm h := ⟨fun r => (h.rows r).symm, h.swaps.symm, h.withdrawals.symm, h.assets.symm⟩
  trans h h' := ⟨fun r => (h.rows r).trans (h'.rows r), h.swaps.trans h'.swaps,
    h.withdrawals.trans h'.withdrawals, h.assets.trans h'.assets⟩

/-! ## What a repository call depends on -/

section Locality

variable {d d' : PoolsDb K}

theorem pools_perm (h : ∀ r, Area.pools.Contains r → Row.Agree d d' r) :
    d.pools.rows.Perm d'.pools.rows :=
  Table.perm_of_find fun id => h (.pool id) trivial

theorem pairPool_congr (h : ∀ r, Area.pools.Contains r → Row.Agree d d' r) (a b : ℕ)
    (chain : String) : pairPool d.pools a b chain = pairPool d'.pools a b chain := by
  unfold pairPool
  rw [orderBy_congr (pools_perm h) fun _ hr _ hr' => Table.eq_of_key_eq hr hr']

theorem nextId_congr (h : ∀ r, Area.pools.Contains r → Row.Agree d d' r) :
    nextId d.pools = nextId d'.pools := by
  unfold nextId
  rw [((pools_perm h).map LiquidityPool.id).foldr_eq]

theorem positionsOf_congr {poolId : ℕ}
    (h : ∀ r, (Area.positionsOf poolId).Contains r → Row.Agree d d' r) :
    positionsOf d.positions poolId = positionsOf d'.positions poolId := by
  have hfind : ∀ userId, d.positions.find (poolId, userId) = d'.positions.find (poolId, userId) :=
    fun userId => h (.position poolId userId) rfl
  apply orderBy_congr
  · refine (List.perm_ext_iff_of_nodup (d.positions.nodup.of_map.filter _)
      (d'.positions.nodup.of_map.filter _)).mpr fun p => ?_
    simp only [List.mem_filter, decide_eq_true_eq]
    refine and_congr_left fun hp => ?_
    rw [Table.mem_rows_iff, Table.mem_rows_iff,
      show p.key = (poolId, p.userId) from Prod.ext hp rfl, hfind]
  · intro p hp q hq huser
    simp only [List.mem_filter, decide_eq_true_eq] at hp hq
    exact Table.eq_of_key_eq hp.1 hq.1 (Prod.ext (hp.2.trans hq.2.symm) huser)

/-- The reply depends on the rows of the area. -/
theorem reply_congr (c : Stmt K) (h : ∀ x ∈ c.area, ∀ r, x.Contains r → Row.Agree d d' r)
    (hassets : d.assets = d'.assets) : (sql c d).1 = (sql c d').1 := by
  cases c with
  | findAsset id => exact congrArg (Table.find · id) hassets
  | findPair a b chain => exact pairPool_congr (h _ rfl) a b chain
  | findPool id =>
    have hpool : d.pools.find id = d'.pools.find id := h _ rfl (.pool id) rfl
    have hload : d.load = d'.load := by
      funext pool
      simp only [PoolsDb.load, hassets]
    simp only [sql, hpool, hload]
  | findPosition poolId userId => exact h _ rfl (.position poolId userId) ⟨rfl, rfl⟩
  | findPositions poolId => exact positionsOf_congr (h _ rfl)
  | insertPool pool => exact nextId_congr (h _ rfl)
  | insertPosition p => exact congrArg Option.isNone (h _ rfl (.position p.poolId p.userId) ⟨rfl, rfl⟩)
  | savePool | savePosition | insertSwap | insertWithdrawal => rfl

/-- A frame: a row outside the area of a save stays as it is. -/
theorem row_frame (c : Stmt K) {r : Row} (h : c.saves → ∀ x ∈ c.area, ¬ x.Contains r) :
    Row.Agree (sql c d).2 d r := by
  cases c with
  | findAsset | findPair | findPool | findPosition | findPositions | insertSwap
  | insertWithdrawal => exact .refl _ _
  | insertPool pool =>
    cases r with
    | pool id => exact absurd trivial (h rfl _ rfl)
    | position => rfl
  | savePool pool =>
    cases r with
    | pool id => exact Table.find_save_of_ne _ fun hid => h rfl _ rfl hid.symm
    | position => rfl
  | insertPosition p =>
    cases r with
    | pool => simp only [sql]; split <;> rfl
    | position poolId userId =>
      have hne : (poolId, userId) ≠ p.key := fun hk => h rfl _ rfl
        ⟨(congrArg Prod.fst hk).symm, (congrArg Prod.snd hk).symm⟩
      simp only [sql]
      split
      · exact Table.find_save_of_ne _ hne
      · rfl
  | savePosition p =>
    cases r with
    | pool => rfl
    | position poolId userId =>
      exact Table.find_save_of_ne _ fun hk => h rfl _ rfl
        ⟨(congrArg Prod.fst hk).symm, (congrArg Prod.snd hk).symm⟩

/-- The effect depends on the rows of the area. -/
theorem effect_congr (c : Stmt K) (h : ∀ x ∈ c.area, ∀ r, x.Contains r → Row.Agree d d' r) {r : Row}
    (hr : Row.Agree d d' r) : Row.Agree (sql c d).2 (sql c d').2 r := by
  cases c with
  | findAsset | findPair | findPool | findPosition | findPositions | insertSwap
  | insertWithdrawal => cases r <;> exact hr
  | insertPool pool =>
    cases r with
    | pool id =>
      -- the generated id depends on the whole table, which the area of the statement covers
      have hid := nextId_congr (h _ rfl)
      simp only [sql, Row.Agree, Table.find_save, hid]
      split
      · rfl
      · exact hr
    | position => exact hr
  | savePool pool =>
    cases r with
    | pool id =>
      simp only [sql, Row.Agree, Table.find_save]
      split
      · rfl
      · exact hr
    | position => exact hr
  | insertPosition p =>
    -- both databases store the position, or neither does
    have hnew : d.positions.find p.key = d'.positions.find p.key :=
      h _ rfl (.position p.poolId p.userId) ⟨rfl, rfl⟩
    simp only [sql, hnew]
    split
    · cases r with
      | pool => exact hr
      | position poolId userId =>
        simp only [Row.Agree, Table.find_save]
        split
        · rfl
        · exact hr
    · exact hr
  | savePosition p =>
    cases r with
    | pool => exact hr
    | position poolId userId =>
      simp only [sql, Row.Agree, Table.find_save]
      split
      · rfl
      · exact hr

/-- The swaps a repository call records. -/
def Stmt.newSwaps : Stmt K → List (PoolSwap K)
  | .insertSwap swap => [swap]
  | _ => []

/-- The withdrawals a repository call records. -/
def Stmt.newWithdrawals : Stmt K → List (EmergencyWithdrawal K)
  | .insertWithdrawal withdrawal => [withdrawal]
  | _ => []

theorem swaps_after (c : Stmt K) : (sql c d).2.swaps = d.swaps ++ c.newSwaps := by
  cases c with
  | insertPosition p => simp only [sql, Stmt.newSwaps, List.append_nil]; split <;> rfl
  | insertSwap => rfl
  | _ => exact (List.append_nil _).symm

theorem withdrawals_after (c : Stmt K) :
    (sql c d).2.withdrawals = d.withdrawals ++ c.newWithdrawals := by
  cases c with
  | insertPosition p => simp only [sql, Stmt.newWithdrawals, List.append_nil]; split <;> rfl
  | insertWithdrawal => rfl
  | _ => exact (List.append_nil _).symm

theorem assets_after (c : Stmt K) : (sql c d).2.assets = d.assets := by
  cases c with
  | insertPosition p => simp only [sql]; split <;> rfl
  | _ => rfl

end Locality

/-! ## Calls that commute -/

/-- The rows of one call's area stay as they are under a call it does not conflict with. -/
theorem frame_of_not_conflict {a b : Stmt K} (h : ¬ Conflict a b) (d : PoolsDb K) :
    ∀ y ∈ b.area, ∀ r, y.Contains r → Row.Agree (sql a d).2 d r :=
  fun y hy _ hr => row_frame a fun hsave x hx hxr =>
    h ⟨.inl hsave, x, hx, y, hy, Area.overlaps_of_contains hxr hr⟩

theorem Conflict.symm {a b : Stmt K} (h : Conflict a b) : Conflict b a := by
  obtain ⟨hsave, x, hx, y, hy, hxy⟩ := h
  refine ⟨hsave.symm, y, hy, x, hx, ?_⟩
  cases x <;> cases y <;> simp_all [Area.overlaps]

/-- The rows after two calls that do not conflict, in either order. -/
theorem rows_comm {a b : Stmt K} (h : ¬ Conflict a b) (d : PoolsDb K) (r : Row) :
    Row.Agree (sql b (sql a d).2).2 (sql a (sql b d).2).2 r := by
  have hab := frame_of_not_conflict h d
  have hba := frame_of_not_conflict (fun hc => h hc.symm) d
  -- the row belongs to the area of at most one of the saves
  by_cases hb : b.saves ∧ ∃ y ∈ b.area, y.Contains r
  · obtain ⟨hsave, y, hy, hyr⟩ := hb
    have hframe : Row.Agree (sql a (sql b d).2).2 (sql b d).2 r :=
      row_frame a fun _ x hx hxr => h ⟨.inr hsave, x, hx, y, hy, Area.overlaps_of_contains hxr hyr⟩
    exact (effect_congr b hab (hab y hy r hyr)).trans hframe.symm
  · have hframe : ∀ d, Row.Agree (sql b d).2 d r := fun d =>
      row_frame b fun hsave y hy hyr => hb ⟨hsave, y, hy, hyr⟩
    exact (hframe (sql a d).2).trans (effect_congr a hba (hframe d)).symm

/-- **Repository calls that do not conflict commute.** -/
theorem commuting : Commuting (sql (K := K)) PoolsDb.Same Conflict where
  same := PoolsDb.same_equivalence
  congr := by
    intro c d d' h
    have hrows : ∀ x ∈ c.area, ∀ r, x.Contains r → Row.Agree d d' r := fun _ _ r _ => h.rows r
    refine ⟨reply_congr c hrows h.assets, fun r => effect_congr c hrows (h.rows r), ?_, ?_, ?_⟩
    · rw [swaps_after, swaps_after]
      exact h.swaps.append_right _
    · rw [withdrawals_after, withdrawals_after]
      exact h.withdrawals.append_right _
    · rw [assets_after, assets_after, h.assets]
  comm := by
    intro a b d h
    refine ⟨reply_congr b (frame_of_not_conflict h d) (assets_after a),
      reply_congr a (frame_of_not_conflict (fun hc => h hc.symm) d) (assets_after b),
      rows_comm h d, ?_, ?_, ?_⟩
    · simp only [swaps_after, List.append_assoc]
      exact List.perm_append_comm.append_left _
    · simp only [withdrawals_after, List.append_assoc]
      exact List.perm_append_comm.append_left _
    · simp only [assets_after]

/-! ## Two calls -/

variable [Field K] [LinearOrder K] [MathSqrt K]

/-- Two calls before their first repository call. -/
def twoCalls (calls : Fin 2 → PoolCall K) (d : PoolsDb K) :
    Config (Stmt K) Stmt.Reply (PoolError K) (PoolResult K) (Fin 2) (PoolsDb K) :=
  ⟨d, fun i => (calls i).program⟩

/-- **Two concurrent calls.** When both succeed, and every conflicting pair of their repository
calls has the one of call `i` first, the final rows and both results are those of running call `i`
and then call `j`. -/
theorem calls_serialize (d : PoolsDb K) (calls : Fin 2 → PoolCall K) (is : List (Fin 2))
    (c : Config (Stmt K) Stmt.Reply (PoolError K) (PoolResult K) (Fin 2) (PoolsDb K))
    (hrun : (twoCalls calls d).run (Machine.ofHandler sql) is = some c) (results : Fin 2 → PoolResult K)
    (hok : ∀ i, c.threads i = .ret (results i)) (i j : Fin 2) (hij : i ≠ j)
    (hord : Precedes Conflict i j ((twoCalls calls d).trace (Machine.ofHandler sql) is)) :
    ∃ d₁ d₂, (calls i).program.eval sql d = (.ok (results i), d₁) ∧
      (calls j).program.eval sql d₁ = (.ok (results j), d₂) ∧ d₂.Same c.shared := by
  have hall : ∀ l, l = i ∨ l = j := by omega
  obtain ⟨d₁, d₂, hi, hj, hsame, -⟩ := commuting.serial hij hall hrun hord (hok i) (hok j)
  exact ⟨d₁, d₂, hi, hj, hsame⟩

/-- A pool with 100 of each token, and its provider. -/
def tradedPool : PoolsDb ℚ :=
  { market ℚ with
    pools := Table.empty.save
      { newPool ⟨1, 2, "stellar", none⟩ with
        id := 1
        reserveA := 100
        reserveB := 100
        totalLpSupply := 100 }
    positions := Table.empty.save ⟨1, 7, 100, 100, 100, 0, 0⟩ }

/-- A deposit, and a swap. -/
def depositAndSwap : Fin 2 → PoolCall ℚ := ![.addLiquidity 1 ⟨7, 10, 10⟩, .swap 1 ⟨8, "BTC", 10, none⟩]

/-- The swap reads the pool when the deposit has saved it, but not yet the position. -/
theorem calls_serialize_overlapping : ∃ c, ∃ results : Fin 2 → PoolResult ℚ, ∃ d₁ d₂,
    (twoCalls depositAndSwap tradedPool).run (Machine.ofHandler sql) [0, 0, 0, 1, 0, 1, 1, 1, 1] =
      some c ∧ (depositAndSwap 0).program.eval sql tradedPool = (.ok (results 0), d₁) ∧
      (depositAndSwap 1).program.eval sql d₁ = (.ok (results 1), d₂) ∧ d₂.Same c.shared := by
  have hrun : ((twoCalls depositAndSwap tradedPool).run (Machine.ofHandler sql)
      [0, 0, 0, 1, 0, 1, 1, 1, 1]).any
        fun c => (c.threads 0).returned && (c.threads 1).returned := by
    decide +kernel
  obtain ⟨c, hc, hend⟩ := (Option.any_eq_true _ _).mp hrun
  obtain ⟨h₀, h₁⟩ := Bool.and_eq_true_iff.mp hend
  obtain ⟨a, ha⟩ := Prog.returned_iff.mp h₀
  obtain ⟨b, hb⟩ := Prog.returned_iff.mp h₁
  have hok : ∀ i, c.threads i = .ret (![a, b] i) := Fin.forall_fin_two.mpr ⟨ha, hb⟩
  obtain ⟨d₁, d₂, hi, hj, hsame⟩ := calls_serialize tradedPool depositAndSwap _ c hc ![a, b] hok 0 1
    (by decide) (by decide +kernel)
  exact ⟨c, ![a, b], d₁, d₂, hc, hi, hj, hsame⟩

/-- Two swaps of 10. -/
def swapJobs (i : Fin 2) : PoolCall ℚ := .swap 1 ⟨i, "BTC", 10, none⟩

/-- **A swap is lost.** Both swaps read the pool before either saves it; both succeed, and the pool
is not what it is after one and then the other. -/
theorem update_lost : ∃ c,
    (twoCalls swapJobs tradedPool).run (Machine.ofHandler sql) [0, 1, 0, 0, 0, 0, 1, 1, 1, 1] =
      some c ∧ (∀ i, (c.threads i).returned) ∧
      ∀ i j, i ≠ j → c.shared.pools.find 1 ≠
        (step (step tradedPool (swapJobs i)) (swapJobs j)).pools.find 1 := by
  have hrun : ((twoCalls swapJobs tradedPool).run (Machine.ofHandler sql)
      [0, 1, 0, 0, 0, 0, 1, 1, 1, 1]).any fun c => (∀ i, (c.threads i).returned) ∧
        (c.shared.pools.find 1).map (·.totalSwaps) = some 1 := by
    decide +kernel
  have hserial : ∀ i j, i ≠ j → ((step (step tradedPool (swapJobs i)) (swapJobs j)).pools.find 1).map
      (·.totalSwaps) = some 2 := by
    decide +kernel
  obtain ⟨c, hc, hprop⟩ := (Option.any_eq_true _ _).mp hrun
  obtain ⟨hend, hswaps⟩ := of_decide_eq_true hprop
  refine ⟨c, hc, hend, fun i j hij heq => ?_⟩
  rw [heq, hserial i j hij] at hswaps
  cases hswaps

end Pools
