import PeerX.Foundations.JsNumber
import PeerX.Margin.Runs
import PeerX.Users.Balances

/-!
# Users: totals of balance rows

A row that is what the committed calls made of it adds up: each of its columns is the initial one
plus what the calls added. The calls that committed are those that returned. The numbers are ones
that are held exactly.
-/

namespace Users

open Relational Concurrency Margin Arithmetic

/-! ## Sums -/

/-- The move takes off at most what is locked. -/
def LockMove.Fits : LockMove → ℚ → Prop
  | .release a, x => a ≤ x
  | _, _ => True

/-- No release of the list is clamped, from the locked balance `x` on. -/
def Unclamped : ℚ → List LockMove → Prop
  | _, [] => True
  | x, m :: ms => m.Fits x ∧ Unclamped (m.apply x) ms

theorem LockMove.apply_of_fits {m : LockMove} {x : ℚ} (h : m.Fits x) : m.apply x = x + m.amount := by
  cases m with
  | keep => exact (add_zero x).symm
  | lock a => rfl
  | release a =>
    have hle : 0 ≤ x - a := sub_nonneg.mpr h
    simp only [apply, amount]
    rw [max_eq_right hle, sub_eq_add_neg]

/-- Without a clamp the locked balance is a sum. -/
theorem foldl_of_unclamped {ms : List LockMove} {x : ℚ} (h : Unclamped x ms) :
    ms.foldl (fun x m => m.apply x) x = x + (ms.map (·.amount)).sum := by
  induction ms generalizing x with
  | nil => simp
  | cons m ms ih =>
    rw [List.foldl_cons, ih h.2, LockMove.apply_of_fits h.1, List.map_cons, List.sum_cons, add_assoc]

/-- The columns of a row are those of another one with the increments added. A release is
clamped at zero when it is made. -/
structure Totals (b₀ b : Orders.UserBalance) (ns : List Increment) : Prop where
  balance : b.balance = b₀.balance + (ns.map (·.balance)).sum
  totalTrades : b.totalTrades = b₀.totalTrades + (ns.map (·.totalTrades)).sum
  cumulativePnL : b.cumulativePnL = b₀.cumulativePnL + (ns.map (·.cumulativePnL)).sum
  totalTradeVolume : b.totalTradeVolume = b₀.totalTradeVolume + (ns.map (·.totalTradeVolume)).sum
  lockedBalance : b.lockedBalance =
    (ns.map (·.locked)).foldl (fun x m => m.apply x) b₀.lockedBalance
  unclamped : Unclamped b₀.lockedBalance (ns.map (·.locked)) →
    b.lockedBalance = b₀.lockedBalance + (ns.map (·.locked.amount)).sum

theorem foldl_apply_column {M : Type} [AddMonoid M] {f : Orders.UserBalance → M} {g : Increment → M}
    (h : ∀ b n, f (Increment.apply n b) = f b + g n) (b₀ : Orders.UserBalance) (ns : List Increment) :
    f (ns.foldl (fun b n => n.apply b) b₀) = f b₀ + (ns.map g).sum := by
  induction ns generalizing b₀ with
  | nil => simp
  | cons n ns ih => rw [List.foldl_cons, ih, h, List.map_cons, List.sum_cons, add_assoc]

theorem foldl_apply_lockedBalance (b₀ : Orders.UserBalance) (ns : List Increment) :
    (ns.foldl (fun b n => n.apply b) b₀).lockedBalance =
      (ns.map (·.locked)).foldl (fun x m => m.apply x) b₀.lockedBalance := by
  induction ns generalizing b₀ with
  | nil => rfl
  | cons n ns ih => exact ih (n.apply b₀)

theorem totals_foldl (b₀ : Orders.UserBalance) (ns : List Increment) :
    Totals b₀ (ns.foldl (fun b n => n.apply b) b₀) ns where
  balance := foldl_apply_column (fun _ _ => rfl) b₀ ns
  totalTrades := foldl_apply_column (fun _ _ => rfl) b₀ ns
  cumulativePnL := foldl_apply_column (fun _ _ => rfl) b₀ ns
  totalTradeVolume := foldl_apply_column (fun _ _ => rfl) b₀ ns
  lockedBalance := foldl_apply_lockedBalance b₀ ns
  unclamped := by
    intro h
    rw [foldl_apply_lockedBalance, foldl_of_unclamped h, List.map_map]
    rfl

/-! ## Numbers held exactly -/

/-- The columns of the row are held exactly. -/
structure RowExact (b : Orders.UserBalance) : Prop where
  balance : Carried b.balance
  lockedBalance : Carried b.lockedBalance
  cumulativePnL : Carried b.cumulativePnL
  totalTradeVolume : Carried b.totalTradeVolume

/-- What is calculated from the position and the price is held exactly. -/
structure ExactAt (position : MarginPosition) (currentPrice : ℚ) : Prop where
  price : Carried currentPrice
  entryPrice : Carried position.entryPrice
  size : Carried position.size
  collateral : Carried position.collateral
  accruedInterest : Carried position.accruedInterest
  pnl : Carried (position.pnlAt currentPrice)

/-- The numbers of the call are held exactly: those it is given, and those of the order or the
position whose lock it releases. -/
def Call.Exact : Call → Outcome → Prop
  | .updateBalance _ _ amount, _ => Carried amount
  | .updatePortfolioAfterTrade _ _ tradeValue pnl, _ => Carried tradeValue ∧ Carried pnl
  | .placeOrder _ _ _ _ dto, _ => Carried dto.amount
  | .cancelOrder _ _ _, .ordered order => Carried order.amount ∧ Carried order.filledAmount
  | .closePosition _ _ currentPrice, .closed position => ExactAt position currentPrice
  | .liquidatePosition _ _ _ currentPrice, .liquidated position _ => ExactAt position currentPrice
  | _, _ => True

/-- What the increment adds is held exactly. -/
structure Increment.Exact (n : Increment) : Prop where
  balance : Carried n.balance := by exact carried_zero
  locked : Carried n.locked.amount := by exact carried_zero
  cumulativePnL : Carried n.cumulativePnL := by exact carried_zero
  totalTradeVolume : Carried n.totalTradeVolume := by exact carried_zero

theorem release_exact {a : ℚ} (h : Carried a) : Carried (LockMove.release a).amount := by
  show Carried (-a)
  rw [← zero_sub]
  exact carried_zero.sub h

theorem settlement_exact {collateral equity : ℚ} (hc : Carried collateral) (he : Carried equity) :
    (settlement collateral equity).Exact :=
  { balance := he.sub hc, locked := release_exact hc }

theorem ExactAt.equityAt {position : MarginPosition} {currentPrice : ℚ} (h : ExactAt position currentPrice) :
    Carried (position.equityAt currentPrice) :=
  (h.collateral.add h.pnl).sub h.accruedInterest

/-- What a call adds is held exactly. -/
theorem Call.Exact.increment {call : Call} {o : Outcome} (h : call.Exact o) : (call.increment o).Exact := by
  cases call with
  | updateBalance userId assetId amount => exact { balance := h }
  | updatePortfolioAfterTrade userId assetId tradeValue pnl =>
    exact { cumulativePnL := h.2, totalTradeVolume := h.1.abs }
  | placeOrder fuel id now userId dto =>
    simp only [Call.increment, placed]
    split
    · exact { locked := h }
    · exact {}
  | cancelOrder now userId orderId =>
    cases o with
    | ordered order => exact { locked := release_exact (h.1.sub h.2) }
    | _ => exact {}
  | closePosition now positionId currentPrice =>
    cases o with
    | closed position => exact settlement_exact h.collateral h.equityAt
    | _ => exact {}
  | liquidatePosition now position pairConfig currentPrice =>
    cases o with
    | liquidated position' shortfall => exact settlement_exact h.collateral (carried_zero.max h.equityAt)
    | _ => exact {}

theorem Increment.Exact.apply {n : Increment} {b : Orders.UserBalance} (hn : n.Exact) (hb : RowExact b) :
    RowExact (n.apply b) := by
  refine ⟨hb.balance.add hn.balance, ?_, hb.cumulativePnL.add hn.cumulativePnL,
    hb.totalTradeVolume.add hn.totalTradeVolume⟩
  have hlocked := hn.locked
  simp only [Increment.apply]
  generalize n.locked = m at hlocked ⊢
  cases m with
  | keep => exact hb.lockedBalance
  | lock a => exact hb.lockedBalance.add hlocked
  | release a =>
    refine carried_zero.max ?_
    rw [sub_eq_add_neg]
    exact hb.lockedBalance.add hlocked

theorem rowExact_foldl {ns : List Increment} (hns : ∀ n ∈ ns, n.Exact) {b : Orders.UserBalance} (hb : RowExact b) :
    RowExact (ns.foldl (fun b n => n.apply b) b) := by
  induction ns generalizing b with
  | nil => exact hb
  | cons n ns ih =>
    obtain ⟨hn, hns⟩ := List.forall_mem_cons.mp hns
    exact ih hns (hn.apply hb)

theorem rowExact_rowOf {d : MarginDb} (h : ∀ b ∈ d.exchange.balances.rows, RowExact b) (k : ℕ × ℕ) :
    RowExact (rowOf d k) := by
  unfold rowOf
  cases hfind : d.exchange.balances.find k with
  | none => exact ⟨carried_zero, carried_zero, carried_zero, carried_zero⟩
  | some b => exact h b (Table.mem_of_find hfind)

section Calls

variable {ι : Type} {calls : ι → Call}

theorem getD_foldl_effect (k : ℕ × ℕ) (x : Option Orders.UserBalance)
    (h : List (Commit ι Write Outcome)) :
    (h.foldl (effect calls k) x).getD (newBalance k.1 k.2) =
      (h.map (added calls k)).foldl (fun b n => n.apply b) (x.getD (newBalance k.1 k.2)) := by
  induction h generalizing x with
  | nil => rfl
  | cons r h ih =>
    have hone : (effect calls k x r).getD (newBalance k.1 k.2) =
        (added calls k r).apply (x.getD (newBalance k.1 k.2)) := by
      unfold effect added
      split
      · rfl
      · exact (Increment.apply_zero _).symm
    rw [List.foldl_cons, ih, hone, List.map_cons, List.foldl_cons]

/-! ## What the calls commit -/

variable [DecidableEq ι] {i : ι} {α : Type}

/-- The writes include the row that the call writes whenever it succeeds. -/
def WritesRow (call : Call) (ws : List Write) : Prop :=
  ∀ k ∈ call.row, ∃ w ∈ ws, w.target = some (.exchange (.balance k))

theorem writesRow_of_none {call : Call} (h : call.row = none) (ws : List Write) :
    WritesRow call ws := by
  intro k hk
  rw [h] at hk
  cases hk

theorem writesRow_of_mem {call : Call} {b : Orders.UserBalance} (h : call.row = some b.key)
    {ws : List Write} (hb : .exchange (.balance b) ∈ ws) : WritesRow call ws := by
  intro k hk
  obtain rfl : b.key = k := Option.some.inj (h.symm.trans hk)
  exact ⟨_, hb, rfl⟩

/-- A session whose commits write the row of its call. -/
abbrev RowWritten (calls : ι → Call) (i : ι) (p : MarginSession α) : Prop :=
  (commitProtocol fun i ws (_ : Outcome) => WritesRow (calls i) ws).SafeAtRest
    (sql.machine Outcome ι) (fun s => s.pending i = []) i p

theorem rowWritten_transaction {p : Margin.Tx α} {res : α → Outcome}
    (hp : sql.Yields (fun ws o => ∀ a, o = .ok a → WritesRow (calls i) ws) [] p) :
    RowWritten calls i (transaction res p) :=
  fun _ hs => safe_commit_transaction hs hp

theorem rowWritten_updateRow {userId assetId : ℕ}
    {change : Orders.UserBalance → Orders.UserBalance} (hkey : ∀ b, (change b).key = b.key)
    (hrow : (calls i).row = some (userId, assetId)) :
    RowWritten calls i (updateRow userId assetId change) := by
  intro s hs
  refine Protocol.safe_bind (Protocol.safe_mono (fun o s₁ h₁ => ?_)
    (safe_commit_read (c := Stmt.findBalance userId assetId) hs))
  cases o with
  | error e => exact h₁.1
  | ok found =>
    obtain ⟨hpending, hread⟩ := h₁
    obtain ⟨d, hd⟩ := hread found rfl
    cases found with
    | some b =>
      have hb : b.key = (userId, assetId) := Table.key_of_find hd.symm
      have hyields : sql.Yields (fun ws (o : Except MarginError Orders.UserBalance) =>
          ∀ a, o = .ok a → WritesRow (calls i) ws) [] (saveLoaded (change b)) := by
        refine Dialect.yields_perform fun d a _ => ?_
        refine writesRow_of_mem (b := change b) (by rw [hrow, hkey, hb]) ?_
        simp [sql, Stmt.writes, Orders.Stmt.writes]
      exact rowWritten_transaction hyields _ hpending
    | none =>
      refine rowWritten_transaction (Dialect.yields_perform fun d => ?_) _ hpending
      cases hfree : sql.reply (.insertBalance (change (newBalance userId assetId))) d with
      | false => exact fun a ha => by cases ha
      | true =>
        intro a _
        have hnew : (change (newBalance userId assetId)).key = (userId, assetId) := hkey _
        refine writesRow_of_mem (b := change (newBalance userId assetId)) (by rw [hrow, hnew]) ?_
        show _ ∈ [] ++ if (d.exchange.balances.find _).isNone then _ else _
        rw [show (d.exchange.balances.find _).isNone = true from hfree]
        simp

omit [DecidableEq ι] in
theorem yields_placeOrder {fuel id userId : ℕ} {now : ℤ} {dto : Orders.CreateOrderDto}
    (hcall : calls i = .placeOrder fuel id now userId dto) :
    sql.Yields (fun ws o => ∀ a, o = .ok a → WritesRow (calls i) ws) []
      (exchangeTx (Orders.placeOrder fuel id now userId dto)) := by
  cases hside : dto.side with
  | buy =>
    refine Dialect.yields_of_forall fun ws o a _ => writesRow_of_none ?_ ws
    rw [hcall, Call.row, hside]
    rfl
  | sell =>
    have hrow : (calls i).row = some (userId, dto.assetId) := by
      rw [hcall, Call.row, if_pos hside]
    unfold Orders.placeOrder
    rcases Orders.validateOrderShape_cases dto with hshape | ⟨e, hshape⟩
    swap
    · rw [hshape]
      exact fun a ha => by cases ha
    rw [hshape, pure_bind]
    unfold Orders.enterOrder
    rw [Prog.perform_bind]
    refine ⟨trivial, fun d => ?_⟩
    cases hb : sql.reply (.exchange (.lockBalance userId dto.assetId)) d with
    | none =>
      simp only [hside, if_true]
      exact fun a ha => by cases ha
    | some b =>
      have hkey : b.key = (userId, dto.assetId) := Table.key_of_find hb
      by_cases hlt : b.availableBalance < dto.amount
      · simp only [hside, if_true, if_pos hlt]
        exact fun a ha => by cases ha
      · simp only [hside, if_true, if_neg hlt]
        -- the row is written, whatever comes after it
        refine ⟨trivial, fun d' => Dialect.yields_of_mem
          (w := .exchange (.balance (b.lock dto.amount))) ?_ fun ws o hw a _ => ?_⟩
        · simp [sql, Stmt.writes, Orders.Stmt.writes]
        · exact writesRow_of_mem (b := b.lock dto.amount) (hrow.trans (congrArg some hkey.symm)) hw

theorem rowWritten_session (calls : ι → Call) (i : ι) : RowWritten calls i (calls i).session := by
  cases hcall : calls i with
  | updateBalance userId assetId amount =>
    refine Protocol.SafeAtRest.bind (rowWritten_updateRow (fun b => rfl) ?_) fun _ => .ret _
    rw [hcall]
    rfl
  | updatePortfolioAfterTrade userId assetId tradeValue pnl =>
    refine Protocol.SafeAtRest.bind (rowWritten_updateRow (fun b => rfl) ?_) fun _ => .ret _
    rw [hcall]
    rfl
  | placeOrder fuel id now userId dto =>
    exact Protocol.SafeAtRest.bind (rowWritten_transaction (yields_placeOrder hcall)) fun _ => .ret _
  | cancelOrder now userId orderId =>
    refine Protocol.SafeAtRest.bind (rowWritten_transaction (Dialect.yields_of_forall
      fun ws o a _ => writesRow_of_none ?_ ws)) fun _ => .ret _
    rw [hcall]
    rfl
  | closePosition now positionId currentPrice =>
    refine Protocol.SafeAtRest.bind (rowWritten_transaction (Dialect.yields_of_forall
      fun ws o a _ => writesRow_of_none ?_ ws)) fun _ => .ret _
    rw [hcall]
    rfl
  | liquidatePosition now position pairConfig currentPrice =>
    refine Protocol.SafeAtRest.bind (rowWritten_transaction (Dialect.yields_of_forall
      fun ws o a _ => writesRow_of_none ?_ ws)) fun _ => .ret _
    rw [hcall]
    rfl

/-- **A call that succeeds wrote its row.** -/
theorem committed_row {d₀ : MarginDb} {is : List ι} {c : Serving ι}
    (hr : (serving calls d₀).run (sql.machine Outcome ι) is = some c) :
    ∀ r ∈ c.shared.history, ∀ k ∈ (calls r.thread).row, Wrote k r := by
  have hsafe := Protocol.run_safe
    (T := commitProtocol fun i ws (_ : Outcome) => WritesRow (calls i) ws)
    (Q := fun i _ s => s.pending i = []) (c := serving calls d₀)
    (fun i o s s' hs hk => hk.pending.trans hs)
    ⟨fun r hr => (by cases hr), fun i => rowWritten_session calls i _ rfl⟩ hr
  exact hsafe.1

omit [DecidableEq ι] in
theorem commitsOnce_session (call : Call) : CommitsOnce call.session := by
  have hupdate : ∀ userId assetId change, CommitsOnce (do
      let _ ← updateRow userId assetId change
      return () : MarginSession Unit) := by
    intro userId assetId change found
    cases found with
    | some b => exact commitsOnce_transaction _ (fun _ => ()) _
    | none => exact commitsOnce_transaction _ (fun _ => ()) _
  cases call with
  | updateBalance userId assetId amount => exact hupdate _ _ _
  | updatePortfolioAfterTrade userId assetId tradeValue pnl => exact hupdate _ _ _
  | placeOrder fuel id now userId dto => exact commitsOnce_transaction _ (fun _ => ()) _
  | cancelOrder now userId orderId => exact commitsOnce_transaction _ (fun _ => ()) _
  | closePosition now positionId currentPrice => exact commitsOnce_transaction _ (fun _ => ()) _
  | liquidatePosition now position pairConfig currentPrice =>
    exact commitsOnce_transaction _ (fun _ => ()) _

/-- **No committed change is lost**, as long as every save of the user service finds the row it was
read from: each balance row is the initial one with what the calls that returned added to it. The
numbers are held exactly, and stay so. -/
theorem changes_not_lost {d₀ : MarginDb} {is : List ι} {c : Serving ι}
    (hrows : ∀ b ∈ d₀.exchange.balances.rows, RowExact b)
    (hexact : ∀ r ∈ c.shared.history, (calls r.thread).Exact r.result)
    (hr : (serving calls d₀).run (sql.machine Outcome ι) is = some c)
    (ha : (serving calls d₀).Admitted (sql.machine Outcome ι) (FreshSaves calls) is) :
    (c.shared.history.map Commit.thread).Nodup ∧
      (∀ i, i ∈ c.shared.history.map Commit.thread ↔ (c.threads i).returned) ∧
      (∀ r ∈ c.shared.history, ∀ k ∈ (calls r.thread).row, Wrote k r) ∧
      ∀ k, RowExact (rowOf c.shared.committed k) ∧
        Totals (rowOf d₀ k) (rowOf c.shared.committed k) (c.shared.history.map (added calls k)) := by
  obtain ⟨hnodup, hreturned⟩ := run_commitsOnce (fun i => commitsOnce_session (calls i)) hr
  refine ⟨hnodup, fun i => (hreturned i).trans Prog.returned_iff.symm, committed_row hr,
    fun k => ?_⟩
  have hrow : rowOf c.shared.committed k =
      (c.shared.history.map (added calls k)).foldl (fun b n => n.apply b) (rowOf d₀ k) := by
    rw [rowOf, row_eq_fold hr ha k, getD_foldl_effect]
    rfl
  rw [hrow]
  refine ⟨rowExact_foldl (fun n hn => ?_) (rowExact_rowOf hrows k), totals_foldl _ _⟩
  obtain ⟨r, hmem, rfl⟩ := List.mem_map.mp hn
  unfold added
  split
  · exact (hexact r hmem).increment
  · exact {}

end Calls

/-- A credit, a SELL order that rests, and a trade, for one user and one asset. -/
def mixed : Fin 3 → Call
  | 0 => .updateBalance 1 2 50
  | 1 => .placeOrder 1 1 0 1 ⟨2, .sell, .limit, 40, some 10, none, none, none⟩
  | 2 => .updatePortfolioAfterTrade 1 2 30 5

/-- The order is placed before the credit and the trade read the row. -/
theorem changes_not_lost_mixed : ∃ c,
    (serving mixed shortDb).run (sql.machine Outcome (Fin 3)) [1, 1, 1, 1, 1, 1, 0, 0, 0, 2, 2, 2] =
      some c ∧
      (c.shared.history.map Commit.thread).Nodup ∧
      (∀ i, i ∈ c.shared.history.map Commit.thread ↔ (c.threads i).returned) ∧
      (∀ r ∈ c.shared.history, ∀ k ∈ (mixed r.thread).row, Wrote k r) ∧
      ∀ k, RowExact (rowOf c.shared.committed k) ∧
        Totals (rowOf shortDb k) (rowOf c.shared.committed k) (c.shared.history.map (added mixed k)) := by
  have hrows : ∀ b ∈ shortDb.exchange.balances.rows, RowExact b := by
    intro b hb
    obtain rfl := List.mem_singleton.mp hb
    exact ⟨carried_ofNat 100, carried_zero, carried_zero, carried_zero⟩
  have hrun : ((serving mixed shortDb).run (sql.machine Outcome (Fin 3))
      [1, 1, 1, 1, 1, 1, 0, 0, 0, 2, 2, 2]).isSome := by
    decide +kernel
  obtain ⟨c, hc⟩ := Option.isSome_iff_exists.mp hrun
  refine ⟨c, hc, changes_not_lost hrows (fun r _ => ?_) hc (by decide +kernel)⟩
  match r.thread with
  | 0 => exact carried_ofNat 50
  | 1 => exact carried_ofNat 40
  | 2 => exact ⟨carried_ofNat 30, carried_ofNat 5⟩

/-- **A lock is lost.** The credit has read the row before the order locks 40 of it, and saves it as
it was. -/
theorem lock_lost : ∃ c,
    (serving mixed shortDb).run (sql.machine Outcome (Fin 3)) [0, 1, 1, 1, 1, 1, 1, 0, 0, 2, 2, 2] =
      some c ∧
      (∀ i, (c.threads i).returned) ∧
      (rowOf shortDb (1, 2)).lockedBalance = 0 ∧
      (c.shared.history.map fun r => (added mixed (1, 2) r).locked.amount).sum = 40 ∧
      (rowOf c.shared.committed (1, 2)).lockedBalance = 0 ∧
      ¬ Totals (rowOf shortDb (1, 2)) (rowOf c.shared.committed (1, 2))
        (c.shared.history.map (added mixed (1, 2))) := by
  have hrun : ((serving mixed shortDb).run (sql.machine Outcome (Fin 3))
      [0, 1, 1, 1, 1, 1, 1, 0, 0, 2, 2, 2]).any fun c =>
        (∀ i, (c.threads i).returned) ∧
          (c.shared.history.map fun r => (added mixed (1, 2) r).locked.amount).sum = 40 ∧
          (rowOf c.shared.committed (1, 2)).lockedBalance = 0 ∧
          ((c.shared.history.map (added mixed (1, 2))).map (·.locked)).foldl
            (fun x m => m.apply x) (rowOf shortDb (1, 2)).lockedBalance = 40 := by
    decide +kernel
  obtain ⟨c, hc, hrest⟩ := (Option.any_eq_true _ _).mp hrun
  obtain ⟨hreturned, hsum, hlocked, hfold⟩ := of_decide_eq_true hrest
  refine ⟨c, hc, hreturned, by decide +kernel, hsum, hlocked, fun ht => ?_⟩
  have h := ht.lockedBalance
  rw [hlocked, hfold] at h
  norm_num at h

end Users
