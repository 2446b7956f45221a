import PeerX.Foundations.Commits
import PeerX.Foundations.RowHistories
import PeerX.Margin.Engine

/-!
# Users: the user service, and balance rows shared by all services

`updateBalance` and `updatePortfolioAfterTrade` read a balance row without a lock, change the entity
in memory, and save it. The save is a transaction of its own: it writes the whole entity, or inserts
it when no row was found.

The order and the margin services lock a balance row before they change it; the user service saves
the row it has read before. As long as each save of the user service finds the row it has read, a
balance row is what the calls that committed made of it, one after the other: nothing is lost.

## Main results

* `safe_session`: every call keeps the rows what the commits made of them
* `row_eq_fold`: a row after any fresh run
-/

namespace Users

open Relational Concurrency Margin

section Services

open Orders

/-- The entity the service creates for a user and an asset without a row. -/
def newBalance (userId assetId : ℕ) : UserBalance :=
  { userId, assetId, balance := 0, lockedBalance := 0 }

/-- `save(userBalance)` of a loaded entity. -/
def saveLoaded (userBalance : UserBalance) : Margin.Tx UserBalance := do
  Margin.query (.exchange (.saveBalance userBalance))
  return userBalance

/-- `save(userBalance)` of a created entity. -/
def saveCreated (userBalance : UserBalance) : Margin.Tx UserBalance := do
  if ← Margin.query (.insertBalance userBalance) then
    return userBalance
  else
    throw .duplicateKey

/-- Both functions: the row is found or created, changed in memory, and saved. -/
def updateRow (userId assetId : ℕ) (change : UserBalance → UserBalance) :
    MarginSession UserBalance := do
  match ← bare (.findBalance userId assetId) with
  | some userBalance => transaction .saved (saveLoaded (change userBalance))
  | none => transaction .saved (saveCreated (change (newBalance userId assetId)))

/-- The change of `updateBalance`. -/
def addBalance (amount : ℚ) (userBalance : UserBalance) : UserBalance :=
  { userBalance with balance := userBalance.balance + amount }

/-- The change of `updatePortfolioAfterTrade`. -/
def addTrade (tradeValue pnl : ℚ) (userBalance : UserBalance) : UserBalance :=
  { userBalance with
    totalTrades := userBalance.totalTrades + 1
    cumulativePnL := userBalance.cumulativePnL + pnl
    totalTradeVolume := userBalance.totalTradeVolume + |tradeValue| }

def updateBalance (userId assetId : ℕ) (amount : ℚ) : MarginSession UserBalance :=
  updateRow userId assetId (addBalance amount)

def updatePortfolioAfterTrade (userId assetId : ℕ) (tradeValue pnl : ℚ) :
    MarginSession UserBalance :=
  updateRow userId assetId (addTrade tradeValue pnl)

end Services

/-! ## Increments -/

/-- What a call does to a locked balance. A release is clamped at zero. -/
inductive LockMove : Type
  | keep
  | lock (amount : ℚ)
  | release (amount : ℚ)

/-- The locked balance after the call. -/
def LockMove.apply : LockMove → ℚ → ℚ
  | .keep, x => x
  | .lock a, x => x + a
  | .release a, x => max 0 (x - a)

/-- What the call adds to the locked balance, when no clamp takes effect. -/
def LockMove.amount : LockMove → ℚ
  | .keep => 0
  | .lock a => a
  | .release a => -a

/-- What a call adds to a balance row. -/
structure Increment where
  balance : ℚ := 0
  locked : LockMove := .keep
  totalTrades : ℕ := 0
  cumulativePnL : ℚ := 0
  totalTradeVolume : ℚ := 0

/-- The row with the increment added. -/
def Increment.apply (n : Increment) (b : Orders.UserBalance) : Orders.UserBalance :=
  { b with
    balance := b.balance + n.balance
    lockedBalance := n.locked.apply b.lockedBalance
    totalTrades := b.totalTrades + n.totalTrades
    cumulativePnL := b.cumulativePnL + n.cumulativePnL
    totalTradeVolume := b.totalTradeVolume + n.totalTradeVolume }

@[simp] theorem Increment.apply_key (n : Increment) (b : Orders.UserBalance) :
    (n.apply b).key = b.key := rfl

theorem Increment.apply_zero (b : Orders.UserBalance) : ({} : Increment).apply b = b := by
  simp [Increment.apply, LockMove.apply]

/-- The increment of a settlement. -/
def settlement (collateral equity : ℚ) : Increment :=
  { balance := equity - collateral, locked := .release collateral }

/-- The increment of an order that is placed. -/
def placed (dto : Orders.CreateOrderDto) : Increment :=
  if dto.side = .sell then { locked := .lock dto.amount } else {}

/-! ## Calls -/

/-- A call that changes a balance row. -/
inductive Call : Type
  | updateBalance (userId assetId : ℕ) (amount : ℚ)
  | updatePortfolioAfterTrade (userId assetId : ℕ) (tradeValue pnl : ℚ)
  | placeOrder (fuel id : ℕ) (now : ℤ) (userId : ℕ) (dto : Orders.CreateOrderDto)
  | cancelOrder (now : ℤ) (userId orderId : ℕ)
  | closePosition (now : ℤ) (positionId : ℕ) (currentPrice : ℚ)
  | liquidatePosition (now : ℤ) (position : MarginPosition) (pairConfig : MarginPairConfig)
      (currentPrice : ℚ)

namespace Call

/-- The session of a call. -/
def session : Call → MarginSession Unit
  | .updateBalance userId assetId amount => do
    let _ ← Users.updateBalance userId assetId amount
    return ()
  | .updatePortfolioAfterTrade userId assetId tradeValue pnl => do
    let _ ← Users.updatePortfolioAfterTrade userId assetId tradeValue pnl
    return ()
  | .placeOrder fuel id now userId dto => do
    let _ ← transaction .ordered (exchangeTx (Orders.placeOrder fuel id now userId dto))
    return ()
  | .cancelOrder now userId orderId => do
    let _ ← transaction .ordered (exchangeTx (Orders.cancelOrder now userId orderId))
    return ()
  | .closePosition now positionId currentPrice => do
    let _ ← transaction .closed (Margin.closePosition now positionId currentPrice)
    return ()
  | .liquidatePosition now position pairConfig currentPrice => do
    let _ ← transaction (fun r => .liquidated r.1 r.2)
      (Margin.liquidatePosition now position pairConfig currentPrice)
    return ()

/-- The increment of a call with the given result, to the balance row it writes. -/
def increment : Call → Outcome → Increment
  | .updateBalance _ _ amount, _ => { balance := amount }
  | .updatePortfolioAfterTrade _ _ tradeValue pnl, _ =>
    { totalTrades := 1, cumulativePnL := pnl, totalTradeVolume := |tradeValue| }
  | .placeOrder _ _ _ _ dto, _ => placed dto
  | .cancelOrder _ _ _, .ordered order => { locked := .release order.remainingAmount }
  | .closePosition _ _ currentPrice, .closed position =>
    settlement position.collateral (position.equityAt currentPrice)
  | .liquidatePosition _ _ _ currentPrice, .liquidated position _ =>
    settlement position.collateral (max 0 (position.equityAt currentPrice))
  | _, _ => {}

/-- The change the user service makes in memory. -/
def change : Call → Option (Orders.UserBalance → Orders.UserBalance)
  | .updateBalance _ _ amount => some (addBalance amount)
  | .updatePortfolioAfterTrade _ _ tradeValue pnl => some (addTrade tradeValue pnl)
  | _ => none

/-- The row that a call writes whenever it succeeds. A cancellation and a settlement write the row
if there is one. -/
def row : Call → Option (ℕ × ℕ)
  | .updateBalance userId assetId _ => some (userId, assetId)
  | .updatePortfolioAfterTrade userId assetId _ _ => some (userId, assetId)
  | .placeOrder _ _ _ userId dto => if dto.side = .sell then some (userId, dto.assetId) else none
  | _ => none

end Call

/-- The server of the three services. -/
abbrev BalanceServer (ι : Type) := Server MarginDb Write RowKey Outcome ι

/-- The configurations of the calls. -/
abbrev Serving (ι : Type) := Clients Stmt.Reply MarginDb Write RowKey Outcome MarginError Unit ι

/-- Any number of calls at the same time, before their first statement. -/
def serving {ι : Type} (calls : ι → Call) (d₀ : MarginDb) : Serving ι :=
  ⟨Server.idle d₀, fun i => (calls i).session⟩

/-- The balance row a command saves in a transaction. -/
def savedRow : Cmd Stmt Outcome → Option Orders.UserBalance
  | .stmt (.exchange (.saveBalance b)) => some b
  | _ => none

/-- A save of the user service finds the row it was read from: the change in memory takes the
stored row to the saved one. -/
def FreshSaves {ι : Type} (calls : ι → Call) (i : ι) (cmd : Cmd Stmt Outcome) (s : BalanceServer ι) :
    Prop :=
  ∀ b ∈ savedRow cmd, ∀ change ∈ (calls i).change,
    (s.committed.exchange.balances.find b.key).map change = some b

instance {ι : Type} (calls : ι → Call) (i : ι) (cmd : Cmd Stmt Outcome) (s : BalanceServer ι) :
    Decidable (FreshSaves calls i cmd s) :=
  inferInstanceAs (Decidable (∀ b ∈ savedRow cmd, ∀ change ∈ (calls i).change,
    (s.committed.exchange.balances.find b.key).map change = some b))

section Increments

variable {ι : Type}

/-- The commit wrote the balance row. -/
def Wrote (k : ℕ × ℕ) (r : Commit ι Write Outcome) : Prop :=
  ∃ w ∈ r.writes, w.target = some (.exchange (.balance k))

instance (k : ℕ × ℕ) (r : Commit ι Write Outcome) : Decidable (Wrote k r) :=
  inferInstanceAs (Decidable (∃ w ∈ r.writes, w.target = some (.exchange (.balance k))))

variable (calls : ι → Call)

/-- What the commit added to the balance row. -/
def added (k : ℕ × ℕ) (r : Commit ι Write Outcome) : Increment :=
  if Wrote k r then (calls r.thread).increment r.result else {}

/-- The balance row; zero without a row. -/
def rowOf (d : MarginDb) (k : ℕ × ℕ) : Orders.UserBalance :=
  (d.exchange.balances.find k).getD (newBalance k.1 k.2)

end Increments

/-! ## Rows -/

/-- The balance row that a key protects. -/
def balanceAt : RowKey → MarginDb → Option Orders.UserBalance
  | .exchange (.balance k), d => d.exchange.balances.find k
  | _, _ => none

/-- The key of a balance row. -/
def IsBalance (k : RowKey) : Prop := ∃ key, k = .exchange (.balance key)

theorem balanceAt_of_not {k : RowKey} (hk : ¬ IsBalance k) (d : MarginDb) : balanceAt k d = none := by
  cases k with
  | pair id => rfl
  | position id => rfl
  | exchange k =>
    cases k with
    | order id => rfl
    | balance k => exact absurd ⟨k, rfl⟩ hk

theorem balanceAt_apply (k : RowKey) (w : Write) (d : MarginDb) :
    balanceAt k (w.apply d) = balanceAt k d ∨ ∃ b, w = .exchange (.balance b) ∧
      k = .exchange (.balance b.key) ∧ balanceAt k (w.apply d) = some b := by
  by_cases hk : IsBalance k
  swap
  · exact .inl (by rw [balanceAt_of_not hk, balanceAt_of_not hk])
  obtain ⟨k, rfl⟩ := hk
  cases w with
  | exchange w =>
    cases w with
    | balance b =>
      by_cases hkey : k = b.key
      · subst hkey
        exact .inr ⟨b, rfl, rfl, Table.find_save_self _ _⟩
      · exact .inl (Table.find_save_of_ne _ hkey)
    | order o => exact .inl rfl
    | trade t => exact .inl rfl
    | fill f => exact .inl rfl
  | pair c => exact .inl rfl
  | position p => exact .inl rfl
  | accrual a => exact .inl rfl
  | shortfall r => exact .inl rfl

/-- A balance row is protected by its lock. -/
def balanceRows : sql.Rows (Option Orders.UserBalance) where
  obs := balanceAt
  frame := by
    intro w d k hw
    rcases balanceAt_apply k w d with h | ⟨b, rfl, rfl, -⟩
    · exact h
    · exact absurd rfl hw
  congr := by
    intro w d d' k h
    rcases balanceAt_apply k w d with hd | ⟨b, rfl, rfl, hd⟩
    · rcases balanceAt_apply k w d' with hd' | ⟨b, rfl, rfl, -⟩
      · exact hd.trans (h.trans hd'.symm)
      · exact (Table.find_save_self _ _).trans (Table.find_save_self _ _).symm
    · exact (Table.find_save_self _ _).trans (Table.find_save_self _ _).symm

/-! ## The history of a row -/

section History

variable {ι : Type} (calls : ι → Call) (d₀ : MarginDb)

/-- What a commit makes of a balance row. -/
def effect (k : ℕ × ℕ) (x : Option Orders.UserBalance) (r : Commit ι Write Outcome) :
    Option Orders.UserBalance :=
  if Wrote k r then some (((calls r.thread).increment r.result).apply
    (x.getD (newBalance k.1 k.2))) else x

/-- What is true of a balance row with its history: it is what the commits made of it. -/
def balanceSpec : RowSpec ι Write Outcome RowKey (Option Orders.UserBalance) where
  good
    | .exchange (.balance k), h, x => x = h.foldl (effect calls k) (d₀.exchange.balances.find k)
    | _, _, _ => True
  move _ _ _ := True
  move_refl _ _ := trivial
  move_trans _ _ _ _ _ _ := trivial

/-- The transaction added the increment to the balance row it wrote. -/
def Adds (n : Increment) : RowKey → Option Orders.UserBalance → Option Orders.UserBalance → Prop
  | .exchange (.balance k), x, x' => x' = some (n.apply (x.getD (newBalance k.1 k.2)))
  | _, _, _ => True

theorem tracks_adds (n : Increment) : Tracks balanceRows IsBalance (Adds n) := by
  intro k hk d d'
  cases k with
  | pair id => trivial
  | position id => trivial
  | exchange k =>
    cases k with
    | order id => trivial
    | balance k => exact absurd ⟨k, rfl⟩ hk

/-- A commit that adds its increment keeps the rows what the commits made of them. -/
theorem keeps_adds (r : Commit ι Write Outcome) : (balanceSpec calls d₀).Keeps sql r
    (Adds ((calls r.thread).increment r.result)) := by
  intro k h x hgood
  cases k with
  | pair id => exact ⟨fun _ => trivial, fun _ _ _ => ⟨trivial, trivial⟩⟩
  | position id => exact ⟨fun _ => trivial, fun _ _ _ => ⟨trivial, trivial⟩⟩
  | exchange k =>
    cases k with
    | order id => exact ⟨fun _ => trivial, fun _ _ _ => ⟨trivial, trivial⟩⟩
    | balance k =>
      obtain rfl : x = h.foldl (effect calls k) (d₀.exchange.balances.find k) := hgood
      constructor
      · intro hfree
        have hnot : ¬ Wrote k r := fun ⟨w, hw, ht⟩ => hfree w hw ht
        simp [balanceSpec, effect, hnot]
      · rintro x' ⟨w, hw, ht⟩ rfl
        have hyes : Wrote k r := ⟨w, hw, ht⟩
        refine ⟨?_, trivial⟩
        simp [balanceSpec, effect, hyes]

end History

/-! ## Transactions -/

section Transactions

variable {ι α : Type} [DecidableEq ι] {calls : ι → Call} {d₀ : MarginDb} {s : BalanceServer ι}
  {i : ι} {b : Orders.UserBalance} {n : Increment}

/-- A program that keeps the rows, as the body of a transaction. -/
abbrev StmtSafe (calls : ι → Call) (d₀ : MarginDb) (i : ι)
    (Q : Except MarginError α → BalanceServer ι → Prop) (p : Margin.Tx α) (s : BalanceServer ι) :
    Prop :=
  (stmtProtocol ((balanceSpec calls d₀).protocol balanceRows)).Safe (sql.statements Outcome ι) i Q p s

/-- The transaction holds the balance row `b`, and wrote no balance row so far. -/
abbrev HoldsBalance (s : BalanceServer ι) (i : ι) (b : Orders.UserBalance) : Prop :=
  HoldsRow balanceRows IsBalance s i (.exchange (.balance b.key)) (some b)

/-- The transaction wrote no balance row so far. -/
abbrev Fresh (s : BalanceServer ι) (i : ι) : Prop := Untouched sql IsBalance s i

/-- The transaction added the increment to the balance rows it wrote. -/
abbrev Added (n : Increment) (s : BalanceServer ι) (i : ι) : Prop := Edited balanceRows (Adds n) s i

omit [DecidableEq ι] in
theorem Fresh.added (h : Fresh s i) (n : Increment) : Added n s i :=
  edited_of_untouched h (tracks_adds n)

/-- A statement of the order services that saves no balance row. -/
def SavesNoBalance (c : Orders.Stmt) : Prop := ∀ b, c ≠ .saveBalance b

theorem leaves_exchange {c : Orders.Stmt} (hc : SavesNoBalance c) :
    sql.Leaves IsBalance (.exchange c) := by
  intro d w hw k hk ht
  obtain ⟨w', hw', rfl⟩ := List.mem_map.mp hw
  obtain ⟨key, rfl⟩ := hk
  obtain ⟨k', hk', hkey⟩ := Option.map_eq_some_iff.mp ht
  cases hkey
  cases c with
  | saveBalance b => exact hc b rfl
  | insertOrder o =>
    obtain ⟨-, rfl⟩ : _ ∧ w' = .order o := by simpa [Orders.Stmt.writes] using hw'
    cases hk'
  | saveOrder o =>
    obtain rfl : w' = .order o := by simpa [Orders.Stmt.writes] using hw'
    cases hk'
  | insertTrade t =>
    obtain rfl : w' = .trade t := by simpa [Orders.Stmt.writes] using hw'
    cases hk'
  | pushFill f =>
    obtain rfl : w' = .fill f := by simpa [Orders.Stmt.writes] using hw'
    cases hk'
  | findOrder | lockOrder | lockBalance | lockMaker | findDormant | findAssets =>
    simp [Orders.Stmt.writes] at hw'

/-- The lock of a balance row. -/
theorem safe_lockBalance {userId assetId : ℕ} {Q : Except MarginError α → BalanceServer ι → Prop}
    {f : Option Orders.UserBalance → Margin.Tx α} (h : Fresh s i)
    (hnone : ∀ s' : BalanceServer ι, Fresh s' i → StmtSafe calls d₀ i Q (f none) s')
    (hsome : ∀ b (s' : BalanceServer ι), b.key = (userId, assetId) → HoldsBalance s' i b →
      StmtSafe calls d₀ i Q (f (some b)) s') :
    StmtSafe calls d₀ i Q (.call (.exchange (.lockBalance userId assetId)) f) s := by
  have hleaves : sql.Leaves IsBalance (.exchange (.lockBalance userId assetId)) :=
    leaves_exchange fun b => by simp
  refine safe_history_stmt fun s₁ hr _ => ?_
  have huntouched := h.of_holding hr
  cases hb : (s₁.view sql i).exchange.balances.find (userId, assetId) with
  | none =>
    rw [show sql.reply (.exchange (.lockBalance userId assetId)) (s₁.view sql i) = none from hb]
    exact hnone _ (huntouched.afterStmt hleaves)
  | some b =>
    rw [show sql.reply (.exchange (.lockBalance userId assetId)) (s₁.view sql i) = some b from hb]
    have hkey : b.key = (userId, assetId) := Table.key_of_find hb
    have hlock : RowKey.exchange (.balance (userId, assetId)) ∈
        sql.locks (.exchange (.lockBalance userId assetId)) (s₁.view sql i) := by
      show _ ∈ (if ((s₁.view sql i).exchange.balances.find (userId, assetId)).isSome then
        [Orders.RowKey.balance (userId, assetId)] else []).map RowKey.exchange
      simp [hb]
    have hheld := holdsRow_of_lock (O := balanceRows)
      (k := .exchange (.balance (userId, assetId))) huntouched ⟨_, rfl⟩ hleaves hlock
    rw [show balanceRows.obs (.exchange (.balance (userId, assetId))) (s₁.view sql i) = some b from hb,
      ← hkey] at hheld
    exact hsome b _ hkey hheld

theorem target_saveBalance {b' : Orders.UserBalance} {d : MarginDb} :
    ∀ w ∈ sql.writes (.exchange (.saveBalance b')) d, ∀ k', IsBalance k' → sql.target w = some k' →
      k' = .exchange (.balance b'.key) := by
  intro w hw k' _ ht
  obtain rfl : w = .exchange (.balance b') := by
    simpa [sql, Stmt.writes, Orders.Stmt.writes] using hw
  exact (Option.some.inj ht).symm

/-- The save of the held balance row. -/
theorem safe_saveBalance {Q : Except MarginError α → BalanceServer ι → Prop} {f : Unit → Margin.Tx α}
    {b' : Orders.UserBalance} (h : HoldsBalance s i b) (hb : b' = n.apply b)
    (hk : ∀ s' : BalanceServer ι, Added n s' i → StmtSafe calls d₀ i Q (f ()) s') :
    StmtSafe calls d₀ i Q (.call (.exchange (.saveBalance b')) f) s := by
  subst hb
  refine safe_history_stmt fun s₁ hr _ => hk _ ?_
  refine (h.of_holding hr).edited_afterStmt ⟨_, rfl⟩ (tracks_adds n) target_saveBalance ?_
  show ((s₁.view sql i).exchange.balances.save (n.apply b)).find (n.apply b).key = some (n.apply b)
  exact Table.find_save_self _ _

theorem safe_rest {p : Margin.Tx α} (hp : p.Only (sql.Leaves IsBalance)) (h : Added n s i) :
    StmtSafe calls d₀ i (fun _ s' => Added n s' i) p s :=
  safe_history_leaves hp (tracks_adds n) h

/-! ### Orders -/

theorem only_exchangeTx {p : Orders.Tx α} (hp : p.Only SavesNoBalance) :
    (exchangeTx p).Only (sql.Leaves IsBalance) :=
  Prog.only_embed hp fun _ hc => leaves_exchange hc

theorem only_matchLoop (now : ℤ) (n : ℕ) (taker : Orders.Order) (fills : List Orders.FillResult) :
    (Orders.matchLoop now n taker fills).Only SavesNoBalance := by
  induction n generalizing taker fills with
  | zero => trivial
  | succ n ih =>
    unfold Orders.matchLoop
    split
    · refine ⟨fun b => by simp, fun maker => ?_⟩
      cases maker with
      | none => trivial
      | some maker =>
        exact ⟨fun b => by simp, fun _ => ⟨fun b => by simp, fun _ => ⟨fun b => by simp, fun _ =>
          ih _ _⟩⟩⟩
    · trivial

theorem only_matchTakerOrder (fuel : ℕ) (now : ℤ) (taker : Orders.Order) :
    (Orders.matchTakerOrder fuel now taker).Only SavesNoBalance :=
  Prog.only_bind (only_matchLoop now fuel taker []) fun _ => ⟨fun b => by simp, fun _ => trivial⟩

/-- What `placeOrder` does after the balance row is locked and saved. -/
theorem only_insertOrder (fuel : ℕ) (now : ℤ) (dto : Orders.CreateOrderDto) (order : Orders.Order) :
    (Prog.call (.insertOrder order) (fun fresh => if fresh then pure order
        else throw Orders.OrderError.duplicateKey) >>= fun order => if dto.type = .market ∨
      dto.type = .limit then Orders.matchTakerOrder fuel now order >>= fun r => pure r.1
        else pure order : Orders.Tx Orders.Order).Only SavesNoBalance := by
  refine Prog.only_bind ⟨fun b => by simp, fun fresh => ?_⟩ fun order => ?_
  · cases fresh
    · trivial
    · trivial
  · split
    · exact Prog.only_bind (only_matchTakerOrder fuel now order) fun _ => trivial
    · trivial

/-- `placeOrder` locks the amount of a SELL order. -/
theorem safe_placeOrder {fuel id userId : ℕ} {now : ℤ} {dto : Orders.CreateOrderDto}
    (h : Fresh s i) :
    StmtSafe calls d₀ i (fun o s' => ∀ a, o = .ok a → Added (placed dto) s' i)
      (exchangeTx (Orders.placeOrder fuel id now userId dto)) s := by
  unfold Orders.placeOrder
  rcases Orders.validateOrderShape_cases dto with hshape | ⟨e, hshape⟩
  swap
  · rw [hshape]
    exact fun a ha => by cases ha
  rw [hshape, pure_bind]
  -- after the lock nothing of the transaction writes a balance
  have hrest : ∀ s' : BalanceServer ι, Added (placed dto) s' i →
      StmtSafe calls d₀ i (fun o s' => ∀ a, o = .ok a → Added (placed dto) s' i) _ s' :=
    fun s' hs' => Protocol.safe_mono (fun o s₁ h₁ a _ => h₁) (safe_rest (only_exchangeTx
      (only_insertOrder fuel now dto (Orders.newOrder id now userId dto))) hs')
  unfold Orders.enterOrder
  rw [Prog.perform_bind]
  refine safe_lockBalance h (fun s' h' => ?_) fun b s' hkey hb => ?_
  · cases hside : dto.side with
    | buy => exact hrest s' (h'.added _)
    | sell => exact fun a ha => by cases ha
  · cases hside : dto.side with
    | buy => exact hrest s' (Fresh.added hb.untouched _)
    | sell =>
      by_cases hlt : b.availableBalance < dto.amount
      · simp only [if_true, if_pos hlt]
        exact fun a ha => by cases ha
      · -- the SELL branch saves the row that it has locked
        have hlock : b.lock dto.amount = (placed dto).apply b := by
          simp [placed, hside, Orders.UserBalance.lock, Increment.apply, LockMove.apply]
        simp only [if_true, if_neg hlt]
        exact safe_saveBalance hb hlock hrest

/-- `cancelOrder` releases what remains of a SELL order. -/
theorem safe_cancelOrder {now : ℤ} {userId orderId : ℕ} (h : Fresh s i) :
    StmtSafe calls d₀ i (fun o s' => ∀ a, o = .ok a →
        Added { locked := .release a.remainingAmount } s' i)
      (exchangeTx (Orders.cancelOrder now userId orderId)) s := by
  unfold Orders.cancelOrder
  rw [Prog.perform_bind]
  refine safe_history_stmt fun s₁ hr _ => ?_
  have h₁ : Fresh (s₁.afterStmt sql i (.exchange (.lockOrder orderId))) i :=
    (h.of_holding hr).afterStmt (leaves_exchange fun b => by simp)
  cases sql.reply (.exchange (.lockOrder orderId)) (s₁.view sql i) with
  | none => exact fun a ha => by cases ha
  | some existing =>
    by_cases howner : existing.userId ≠ userId
    · simp only [if_pos howner]
      exact fun a ha => by cases ha
    by_cases hstatus : existing.status = .filled ∨ existing.status = .cancelled
    · simp only [if_neg howner, if_pos hstatus]
      exact fun a ha => by cases ha
    simp only [if_neg howner, if_neg hstatus]
    -- the save of the order, in any state that has released the remainder
    have hsave : ∀ s' : BalanceServer ι, Added { locked := .release existing.remainingAmount } s' i →
        StmtSafe calls d₀ i (fun o s' => ∀ a, o = .ok a →
          Added { locked := .release a.remainingAmount } s' i)
          (.call (.exchange (.saveOrder (existing.asCancelled now))) fun _ =>
            pure (existing.asCancelled now)) s' := by
      intro s' hs'
      refine safe_history_stmt fun s₂ hr₂ hinv₂ => ?_
      intro a ha
      cases ha
      exact (hs'.of_holding hr₂ hinv₂.owned).afterStmt_leaves (tracks_adds _)
        (leaves_exchange fun b => by simp)
    rcases existing.side.buy_or_sell with hside | hside
    · simp only [hside, reduceCtorEq, if_false]
      exact hsave _ (h₁.added _)
    · simp only [hside, if_true, Prog.perform_bind]
      refine safe_lockBalance h₁ (fun s' h' => hsave s' (h'.added _)) fun b s' hkey hb => ?_
      have hrelease : { b with lockedBalance := max 0 (b.lockedBalance - existing.remainingAmount) } =
          ({ locked := .release existing.remainingAmount } : Increment).apply b := by
        simp [Increment.apply, LockMove.apply]
      exact safe_saveBalance hb hrelease hsave

/-! ### Settlements -/

/-- `settlePositionBalance` releases the collateral and settles the equity. -/
theorem safe_settlePositionBalance {p : MarginPosition} {quoteAssetId : ℕ} {equity : ℚ}
    (h : Fresh s i) :
    StmtSafe calls d₀ i (fun _ s' => Added (settlement p.collateral equity) s' i)
      (settlePositionBalance p quoteAssetId equity) s := by
  unfold settlePositionBalance
  refine safe_lockBalance h (fun s' h' => h'.added _) fun b s' hkey hb => ?_
  have hsettled : settledBalance b p.collateral equity =
      (settlement p.collateral equity).apply b := by
    simp [settledBalance, settlement, Increment.apply, LockMove.apply]
  exact safe_saveBalance hb hsettled fun s' hs' => hs'

theorem leaves_savePosition (p : MarginPosition) : sql.Leaves IsBalance (.savePosition p) := by
  intro d w hw k hk ht
  obtain rfl : w = .position p := by simpa [sql, Stmt.writes] using hw
  obtain ⟨key, rfl⟩ := hk
  cases ht

theorem safe_settle {f : MarginPosition → Margin.Tx α} {p p' : MarginPosition} {quoteAssetId : ℕ}
    {equity : ℚ} {Q : Except MarginError α → BalanceServer ι → Prop} (h : Fresh s i)
    (herror : ∀ e s', Q (.error e) s')
    (hf : ∀ s' : BalanceServer ι, Added (settlement p.collateral equity) s' i →
      StmtSafe calls d₀ i Q (f p') s') :
    StmtSafe calls d₀ i Q
      (settlePositionBalance p quoteAssetId equity >>= fun _ => savePosition p' >>= f) s := by
  refine Protocol.safe_bind (Protocol.safe_mono (fun o s₁ h₁ => ?_) (safe_settlePositionBalance h))
  cases o with
  | error e => exact herror e s₁
  | ok u =>
    exact safe_history_stmt fun s₂ hr₂ hinv₂ => hf _
      ((h₁.of_holding hr₂ hinv₂.owned).afterStmt_leaves (tracks_adds _) (leaves_savePosition p'))

theorem leaves_read {c : Stmt} (hc : ∀ d, c.writes d = []) : sql.Leaves IsBalance c := by
  intro d w hw
  rw [show sql.writes c d = [] from hc d] at hw
  cases hw

/-- `closePosition` settles the equity of the position. -/
theorem safe_closePosition {now : ℤ} {positionId : ℕ} {currentPrice : ℚ} (h : Fresh s i) :
    StmtSafe calls d₀ i (fun o s' => ∀ a, o = .ok a →
        Added (settlement a.collateral (a.equityAt currentPrice)) s' i)
      (closePosition now positionId currentPrice) s := by
  simp only [closePosition, Prog.perform_bind]
  refine safe_history_stmt fun s₁ hr _ => ?_
  have h₁ := (h.of_holding hr).afterStmt (leaves_read (c := .lockPosition positionId) fun _ => rfl)
  cases sql.reply (.lockPosition positionId) (s₁.view sql i) with
  | none => exact fun a ha => by cases ha
  | some p =>
    by_cases hopen : p.Open
    swap
    · simp only [hopen, not_false_eq_true, if_true]
      exact fun a ha => by cases ha
    · simp only [hopen, not_true_eq_false, if_false]
      refine safe_history_stmt fun s₂ hr₂ _ => ?_
      have h₂ := (h₁.of_holding hr₂).afterStmt
        (leaves_read (c := .findPair p.pairConfigId) fun _ => rfl)
      cases sql.reply (.findPair p.pairConfigId) (s₂.view sql i) with
      | none => exact fun a ha => by cases ha
      | some c =>
        have hsettle : StmtSafe calls d₀ i (fun o s' => ∀ a, o = .ok a →
            Added (settlement a.collateral (a.equityAt currentPrice)) s' i)
            (settlePositionBalance p c.quoteAssetId (p.equityAt currentPrice) >>= fun _ =>
              savePosition (p.asClosed now currentPrice) >>= pure) _ :=
          safe_settle h₂ (fun e s' a ha => by cases ha) fun s' hs' a ha => by
            cases ha
            exact hs'
        simp only [bind_pure] at hsettle
        exact hsettle

/-- `liquidatePosition` settles the equity, if it is positive. -/
theorem safe_liquidatePosition {now : ℤ} {position : MarginPosition}
    {pairConfig : MarginPairConfig} {currentPrice : ℚ} (h : Fresh s i) :
    StmtSafe calls d₀ i (fun o s' => ∀ a, o = .ok a →
        Added (settlement a.1.collateral (max 0 (a.1.equityAt currentPrice))) s' i)
      (liquidatePosition now position pairConfig currentPrice) s := by
  simp only [liquidatePosition, Prog.perform_bind]
  refine safe_history_stmt fun s₁ hr _ => ?_
  have h₁ := (h.of_holding hr).afterStmt (leaves_read (c := .lockPosition position.id) fun _ => rfl)
  cases sql.reply (.lockPosition position.id) (s₁.view sql i) with
  | none => exact fun a _ => Fresh.added h₁ _
  | some p =>
    by_cases hopen : p.Open
    swap
    · simp only [hopen, not_false_eq_true, if_true]
      exact fun a _ => Fresh.added h₁ _
    · simp only [hopen, not_true_eq_false, if_false]
      refine safe_settle h₁ (fun e s' a ha => by cases ha) fun s' hs' a ha => ?_
      cases ha
      exact hs'


/-! ### The user service -/

/-- The save of a row that is still the one that was read. -/
theorem safe_saveLoaded {change : Orders.UserBalance → Orders.UserBalance} (h : s.Clear i)
    (hcall : (calls i).change = some change) (hn : ∀ b, change b = n.apply b)
    (hresult : ∀ b, (calls i).increment (.saved b) = n) :
    ((balanceSpec calls d₀).protocol balanceRows).Safe
      ((sql.machine Outcome ι).restrict (FreshSaves calls)) i (fun _ s => s.Clear i)
      (transaction .saved (saveLoaded (change b))) s := by
  refine safe_history_first fun s₁ hr _ hP => ?_
  have h₁ := h.of_keeps hr.1
  obtain ⟨r, hfind, hr'⟩ := Option.map_eq_some_iff.mp (hP _ rfl change hcall)
  have hadded : Added n (s₁.afterStmt sql i (.exchange (.saveBalance (change b)))) i := by
    refine Untouched.edited_afterStmt (T := IsBalance) (untouched_of_clear h₁) (tracks_adds n)
      target_saveBalance ?_
    show ((s₁.view sql i).exchange.balances.save (change b)).find (change b).key = some (n.apply
      ((s₁.committed.exchange.balances.find (change b).key).getD _))
    rw [hfind, Option.getD_some, ← hn, hr']
    exact Table.find_save_self _ _
  have hrest : StmtSafe calls d₀ i (fun o s' => ∀ a, o = .ok a → (∃ E, Edited balanceRows E s' i ∧
      (balanceSpec calls d₀).Keeps sql ⟨i, s'.pending i, .saved a⟩ E) ∧ True) (pure (change b))
      (s₁.afterStmt sql i (.exchange (.saveBalance (change b)))) := by
    intro a _
    exact ⟨⟨_, (hresult a).symm ▸ hadded, keeps_adds calls d₀ _⟩, trivial⟩
  exact (Protocol.safe_mono (fun o s hs => hs.1) (safe_history_transaction hrest)).restrict

/-- The insert of a row that is still missing. -/
theorem safe_saveCreated {change : Orders.UserBalance → Orders.UserBalance} {k : ℕ × ℕ}
    (h : Fresh s i) (hn : ∀ b, change b = n.apply b) :
    StmtSafe calls d₀ i (fun o s' => ∀ a, o = .ok a → Added n s' i)
      (saveCreated (change (newBalance k.1 k.2))) s := by
  unfold saveCreated
  refine safe_history_stmt fun s₁ hr _ => ?_
  have h₁ : Fresh s₁ i := Untouched.of_holding h hr
  cases hfree : sql.reply (.insertBalance (change (newBalance k.1 k.2))) (s₁.view sql i) with
  | false => exact fun a ha => by cases ha
  | true =>
    -- the row is new to the transaction, and it holds no other
    have hkey : (change (newBalance k.1 k.2)).key = k := by rw [hn]; rfl
    have hnone : (s₁.view sql i).exchange.balances.find k = none := by
      have hnone := Option.isNone_iff_eq_none.mp hfree
      rwa [hkey] at hnone
    have hwrites : sql.writes (.insertBalance (change (newBalance k.1 k.2))) (s₁.view sql i) =
        [.exchange (.balance (change (newBalance k.1 k.2)))] := by
      show (if ((s₁.view sql i).exchange.balances.find _).isNone then _ else _) = _
      rw [hkey, hnone]
      rfl
    intro a _
    refine Untouched.edited_afterStmt (k := .exchange (.balance k)) h₁ (tracks_adds n) ?_ ?_
    · rw [hwrites]
      intro w hw k' _ ht
      obtain rfl := List.mem_singleton.mp hw
      rw [← hkey]
      exact (Option.some.inj ht).symm
    · have hcommitted : balanceRows.obs (.exchange (.balance k)) s₁.committed = none := by
        rw [← obs_view_of_not_touches (h₁ _ ⟨k, rfl⟩)]
        exact hnone
      rw [hwrites, hcommitted]
      show ((s₁.view sql i).exchange.balances.save (change (newBalance k.1 k.2))).find k =
        some (n.apply (newBalance k.1 k.2))
      rw [← hn, Table.find_save, hkey, if_pos rfl]

/-! ## Sessions -/

/-- A session that keeps the rows. -/
abbrev RowsSafe (calls : ι → Call) (d₀ : MarginDb) (i : ι) (p : MarginSession α) : Prop :=
  ((balanceSpec calls d₀).protocol balanceRows).SafeAtRest
    ((sql.machine Outcome ι).restrict (FreshSaves calls)) (fun s => s.Clear i) i p

theorem safe_adding {p : Margin.Tx α} {res : α → Outcome}
    (hp : ∀ s, Fresh s i → StmtSafe calls d₀ i (fun o s' => ∀ a, o = .ok a →
      Added ((calls i).increment (res a)) s' i) p s) :
    RowsSafe calls d₀ i (transaction res p) := by
  intro s hs
  refine Protocol.Safe.restrict (Protocol.safe_mono (fun o s' h => h.1)
    (safe_history_transaction (Q := fun _ => True) ?_))
  exact Protocol.safe_mono (fun o s' h a ha => ⟨⟨_, h a ha, keeps_adds calls d₀ _⟩, trivial⟩)
    (hp s (untouched_of_clear hs))

/-- Both functions of the user service. -/
theorem safe_updateRow {userId assetId : ℕ} {change : Orders.UserBalance → Orders.UserBalance}
    (hcall : (calls i).change = some change) (hn : ∀ b, change b = n.apply b)
    (hresult : ∀ b, (calls i).increment (.saved b) = n) :
    RowsSafe calls d₀ i (updateRow userId assetId change) := by
  have hread : RowsSafe calls d₀ i (bare (.findBalance userId assetId)) := fun s hs =>
    Protocol.safe_mono (fun o s' h => h.1) (safe_history_auto (Q := fun _ => True) hs
      fun s₁ hinv _ => ⟨fun k => ⟨hinv.good k, trivial⟩, trivial⟩)
  refine hread.bind fun found => ?_
  cases found with
  | some b => exact fun s hs => safe_saveLoaded hs hcall hn hresult
  | none =>
    refine safe_adding fun s hs => ?_
    simp only [hresult]
    exact safe_saveCreated (k := (userId, assetId)) hs hn

/-- **Every call** keeps the rows. -/
theorem safe_session (calls : ι → Call) (d₀ : MarginDb) (i : ι) :
    RowsSafe calls d₀ i (calls i).session := by
  cases hcall : calls i with
  | updateBalance userId assetId amount =>
    refine Protocol.SafeAtRest.bind (safe_updateRow (n := { balance := amount })
      (by rw [hcall]; rfl) (fun b => ?_) fun b => by rw [hcall]; rfl) fun _ => .ret _
    simp [addBalance, Increment.apply, LockMove.apply]
  | updatePortfolioAfterTrade userId assetId tradeValue pnl =>
    refine Protocol.SafeAtRest.bind (safe_updateRow (n :=
      { totalTrades := 1, cumulativePnL := pnl, totalTradeVolume := |tradeValue| })
      (by rw [hcall]; rfl) (fun b => ?_) fun b => by rw [hcall]; rfl) fun _ => .ret _
    simp [addTrade, Increment.apply, LockMove.apply]
  | placeOrder fuel id now userId dto =>
    refine Protocol.SafeAtRest.bind (safe_adding fun s hs => ?_) fun _ => .ret _
    rw [hcall]
    exact safe_placeOrder hs
  | cancelOrder now userId orderId =>
    refine Protocol.SafeAtRest.bind (safe_adding fun s hs => ?_) fun _ => .ret _
    rw [hcall]
    exact safe_cancelOrder hs
  | closePosition now positionId currentPrice =>
    refine Protocol.SafeAtRest.bind (safe_adding fun s hs => ?_) fun _ => .ret _
    rw [hcall]
    exact safe_closePosition hs
  | liquidatePosition now position pairConfig currentPrice =>
    refine Protocol.SafeAtRest.bind (safe_adding fun s hs => ?_) fun _ => .ret _
    rw [hcall]
    exact safe_liquidatePosition hs

/-- **A row after any fresh run** is what the commits made of it, one after the other. -/
theorem row_eq_fold {c : Serving ι} {is : List ι}
    (hr : (serving calls d₀).run (sql.machine Outcome ι) is = some c)
    (ha : (serving calls d₀).Admitted (sql.machine Outcome ι) (FreshSaves calls) is) (k : ℕ × ℕ) :
    c.shared.committed.exchange.balances.find k =
      c.shared.history.foldl (effect calls k) (d₀.exchange.balances.find k) := by
  have hsafe := Protocol.run_safe (T := (balanceSpec calls d₀).protocol balanceRows)
    (Q := fun i _ s => s.Clear i) (c := serving calls d₀)
    (fun i o s s' hs hr => hs.of_keeps hr.1) ⟨⟨Server.owned_idle d₀, fun k => ?_⟩, fun i =>
      safe_session calls d₀ i _ (Server.clear_idle d₀)⟩ (Config.run_restrict hr ha)
  · exact hsafe.1.good (.exchange (.balance k))
  · cases k with
    | pair id => trivial
    | position id => trivial
    | exchange k =>
      cases k with
      | order id => trivial
      | balance k => rfl

end Transactions

end Users
