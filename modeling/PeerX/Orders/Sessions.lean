import PeerX.Foundations.Transactions
import PeerX.Orders.Changes

/-!
# Orders: sessions under interference

The transactions of the order services, statement by statement, between the statements of other
sessions. A row policy says how a session may rewrite an order row: every row it writes is related
to the row it saw, and a new row is one it may create. Rows that are rewritten are locked first, so
what a session knows of them stays true until it writes them, and every commit rewrites the
committed rows within the policy.

## Main results

* `safe_matchTakerOrder`, `safe_placeOrder`, `safe_cancelOrder`, `safe_modifyOrder`, `safe_trigger`:
  the transactions follow the policy
* `safe_session`: so do their sessions
-/

namespace Orders

open Relational Concurrency

variable {β ι : Type} [DecidableEq ι]

/-- The server of the order services. -/
abbrev OrdersServer (β ι : Type) := Server OrdersDb Write RowKey β ι

/-- A transaction or a sweep, as a session. -/
abbrev OrdersSession (β α : Type) := Session (C := Stmt) Stmt.Reply β OrderError α

/-- A statement outside any transaction. -/
abbrev bare (c : Stmt) : OrdersSession β c.Reply := autocommit c

/-! ## Rows and writes -/

/-- A row after some writes: the last write to it, or what it was. -/
theorem find_applyAll (ws : List Write) (d : OrdersDb) (k : ℕ) :
    (∃ o, Write.order o ∈ ws ∧ o.id = k ∧ (sql.applyAll ws d).orders.find k = some o) ∨
      (∀ o, Write.order o ∈ ws → o.id ≠ k) ∧
        (sql.applyAll ws d).orders.find k = d.orders.find k := by
  induction ws generalizing d with
  | nil => exact .inr ⟨by simp, rfl⟩
  | cons w ws ih =>
    rcases ih (sql.apply w d) with ⟨o, ho, hk, hfind⟩ | ⟨hno, hfind⟩
    · exact .inl ⟨o, List.mem_cons_of_mem _ ho, hk, hfind⟩
    · rw [Dialect.applyAll_cons, hfind]
      cases w with
      | order o =>
        by_cases hk : o.id = k
        · refine .inl ⟨o, List.mem_cons_self, hk, ?_⟩
          subst hk
          exact Table.find_save_self _ _
        · refine .inr ⟨?_, Table.find_save_of_ne _ (Ne.symm hk)⟩
          intro o' ho'
          rcases List.mem_cons.mp ho' with h | h
          · cases h
            exact hk
          · exact hno o' h
      | balance b => exact .inr ⟨fun o ho => hno o (by simpa using ho), rfl⟩
      | trade t => exact .inr ⟨fun o ho => hno o (by simpa using ho), rfl⟩
      | fill f => exact .inr ⟨fun o ho => hno o (by simpa using ho), rfl⟩

theorem find_applyAll_congr {ws : List Write} {d d' : OrdersDb} {k : ℕ}
    (h : d.orders.find k = d'.orders.find k) :
    (sql.applyAll ws d).orders.find k = (sql.applyAll ws d').orders.find k := by
  induction ws generalizing d d' with
  | nil => exact h
  | cons w ws ih =>
    refine ih ?_
    cases w with
    | order o => simp only [sql, Write.apply, Table.find_save, h]
    | balance b => exact h
    | trade t => exact h
    | fill f => exact h

section View

variable {s : OrdersServer β ι} {i : ι} {k : ℕ} {r : Order}

omit [DecidableEq ι] in
/-- A row a session sees is one it wrote, or a committed one it did not write. -/
theorem find_view (h : (s.view sql i).orders.find k = some r) :
    Write.order r ∈ s.pending i ∧ r.id = k ∨
      (∀ o, Write.order o ∈ s.pending i → o.id ≠ k) ∧ s.committed.orders.find k = some r := by
  rcases find_applyAll (s.pending i) s.committed k with ⟨o, ho, hk, hfind⟩ | ⟨hno, hfind⟩
  · obtain rfl : o = r := Option.some.inj (hfind.symm.trans h)
    exact .inl ⟨ho, hk⟩
  · exact .inr ⟨hno, hfind.symm.trans h⟩

omit [DecidableEq ι] in
theorem find_view_isSome (h : (s.committed.orders.find k).isSome) :
    ((s.view sql i).orders.find k).isSome := by
  rcases find_applyAll (s.pending i) s.committed k with ⟨o, ho, hk, hfind⟩ | ⟨hno, hfind⟩
  · rw [Server.view, hfind]
    rfl
  · rw [Server.view, hfind]
    exact h

end View

/-! ## Policies -/

/-- A row policy: the rows that are in order (`ok`), the rows a session may create (`new`), and
how it may rewrite a row (`rel`). A fill between two rows in order is within every policy. -/
structure RowPolicy (ι : Type) where
  ok : Order → Prop
  new : ι → Order → Prop
  rel : ι → Order → Order → Prop
  refl : ∀ i o, rel i o o
  trans : ∀ {i a b c}, rel i a b → rel i b c → rel i a c
  new_trans : ∀ {i a b}, new i a → rel i a b → new i b
  ok_new : ∀ {i o}, new i o → ok o
  ok_rel : ∀ {i a b}, rel i a b → ok a → ok b
  filled_le : ∀ {o}, ok o → o.filledAmount ≤ o.amount
  fill : ∀ {i o a} (now : ℤ) (p : ℚ), ok o → o.Open → 0 ≤ a → a ≤ o.remainingAmount →
    (∃ t m, ok t ∧ ok m ∧ fillAmount t m = a) → rel i o (applyFill now o a p)

variable (π : RowPolicy ι)

/-- Session `i` may write `o` over the rows of `d`. -/
def RowPolicy.Allows (i : ι) (d : OrdersDb) (o : Order) : Prop :=
  match d.orders.find o.id with
  | none => π.new i o
  | some r => π.rel i r o

/-- The invariant: pending writes are to locked rows, committed rows are in order, and every
pending write is allowed over the committed rows. -/
structure RowInv (s : OrdersServer β ι) : Prop where
  owned : s.Owned sql
  committed : ∀ o ∈ s.committed.orders.rows, π.ok o
  pending : ∀ i o, Write.order o ∈ s.pending i → π.Allows i s.committed o

/-- What session `i` relies on: its writes and locks are its own, and the rows it holds stay as they
are. -/
def RowRely (i : ι) (s s' : OrdersServer β ι) : Prop :=
  Server.Keeps i s s' ∧
    ∀ k, s.holder (.order k) = some i → s'.committed.orders.find k = s.committed.orders.find k

/-- What a command of session `i` does: the others may rely on it, and it rewrites the committed
rows within the policy. -/
def RowGuar (i : ι) (s s' : OrdersServer β ι) : Prop :=
  (∀ j, j ≠ i → RowRely j s s') ∧
    ∀ k r, s.committed.orders.find k = some r →
      ∃ o, s'.committed.orders.find k = some o ∧ π.rel i r o

/-- Session `i` holds the row `k` and sees `r` in it. -/
def Knows (i : ι) (s : OrdersServer β ι) (k : ℕ) (r : Order) : Prop :=
  s.holder (.order k) = some i ∧ (s.view sql i).orders.find k = some r

/-- The taker of a session that is about to query for a maker: its row is held, and the taker is an
allowed rewriting of it with something remaining. -/
def TakerReady (i : ι) (s : OrdersServer β ι) (t : Order) : Prop :=
  ∃ stored, Knows i s t.id stored ∧ stored.side = t.side ∧ π.rel i stored t ∧ π.ok t ∧ t.Open ∧
    0 < t.remainingAmount

omit [DecidableEq ι] in
theorem RowRely.refl (i : ι) (s : OrdersServer β ι) : RowRely i s s :=
  ⟨.refl i s, fun _ _ => rfl⟩

omit [DecidableEq ι] in
theorem RowRely.trans {i : ι} {s₁ s₂ s₃ : OrdersServer β ι} (h : RowRely i s₁ s₂)
    (h' : RowRely i s₂ s₃) : RowRely i s₁ s₃ :=
  ⟨h.1.trans h'.1, fun k hk => (h'.2 k ((h.1.holder _).mpr hk)).trans (h.2 k hk)⟩

omit [DecidableEq ι] in
theorem RowGuar.refl (i : ι) (s : OrdersServer β ι) : RowGuar π i s s :=
  ⟨fun j _ => .refl j s, fun _ r hr => ⟨r, hr, π.refl i r⟩⟩

/-- The protocol of the sessions. -/
def rowProtocol : Protocol (Cmd Stmt β) ι (OrdersServer β ι) where
  inv := RowInv π
  rely := RowRely
  guar := RowGuar π
  pre := fun i cmd s => ∀ t, cmd = .stmt (.lockMaker t) → TakerReady π i s t
  rely_refl := RowRely.refl
  rely_trans := fun _ _ _ _ => RowRely.trans
  guar_rely := fun _ j _ _ hne _ _ h => h.1 j (Ne.symm hne)

variable {π} in
omit [DecidableEq ι] in
/-- The invariant of a server with no transaction open. -/
theorem rowInv_idle {d : OrdersDb} (hd : ∀ o ∈ d.orders.rows, π.ok o) :
    RowInv π (Server.idle d : OrdersServer β ι) :=
  ⟨Server.owned_idle d, hd, fun _ _ ho => by cases ho⟩

section Invariant

variable {π} {s s' : OrdersServer β ι} {i : ι}

omit [DecidableEq ι] in
/-- What a session sees is allowed over the committed rows. -/
theorem RowInv.allows_view (h : RowInv π s) {k : ℕ} {r : Order}
    (hr : (s.view sql i).orders.find k = some r) :
    match s.committed.orders.find k with
    | none => π.new i r
    | some base => π.rel i base r := by
  rcases find_view hr with ⟨hmem, rfl⟩ | ⟨-, hfind⟩
  · exact h.pending i r hmem
  · rw [hfind]
    exact π.refl i r

omit [DecidableEq ι] in
theorem RowInv.ok_committed (h : RowInv π s) {k : ℕ} {r : Order}
    (hr : s.committed.orders.find k = some r) : π.ok r :=
  h.committed r (Table.mem_of_find hr)

omit [DecidableEq ι] in
theorem RowInv.ok_view (h : RowInv π s) {k : ℕ} {r : Order}
    (hr : (s.view sql i).orders.find k = some r) : π.ok r := by
  have hallows := h.allows_view hr
  cases hb : s.committed.orders.find k with
  | none =>
    rw [hb] at hallows
    exact π.ok_new hallows
  | some base =>
    rw [hb] at hallows
    exact π.ok_rel hallows (h.ok_committed hb)

omit [DecidableEq ι] in
/-- A write allowed over what the session sees is allowed over the committed rows. -/
theorem RowInv.allows_of_view (h : RowInv π s) {o : Order}
    (ho : π.Allows i (s.view sql i) o) : π.Allows i s.committed o := by
  unfold RowPolicy.Allows at ho ⊢
  cases hv : (s.view sql i).orders.find o.id with
  | none =>
    have hc : s.committed.orders.find o.id = none := by
      by_contra hc
      have := find_view_isSome (i := i) (Option.isSome_iff_ne_none.mpr hc)
      rw [hv] at this
      cases this
    rw [hv] at ho
    rw [hc]
    exact ho
  | some r =>
    rw [hv] at ho
    have hallows := h.allows_view hv
    cases hb : s.committed.orders.find o.id with
    | none =>
      rw [hb] at hallows
      exact π.new_trans hallows ho
    | some base =>
      rw [hb] at hallows
      exact π.trans hallows ho

/-- The rows a session holds are not rewritten by others. -/
theorem rowRely_of_exec (hs : s.Owned sql) {cmd : Cmd Stmt β} {r : Cmd.Reply Stmt.Reply β cmd}
    (he : sql.exec i cmd s = some (r, s')) (j : ι) (hj : j ≠ i) : RowRely j s s' := by
  refine ⟨Server.keeps_of_exec he hj, fun k hk => ?_⟩
  refine Server.row_stable (fun d => d.orders.find k) ?_ hs hk hj he
  intro w d hw
  cases w with
  | order o =>
    refine Table.find_save_of_ne _ fun e => hw ?_
    rw [e]
    rfl
  | balance b => rfl
  | trade t => rfl
  | fill f => rfl

/-- A statement whose writes are allowed keeps the protocol. -/
theorem RowInv.afterStmt (h : RowInv π s) {c : Stmt} {r : c.Reply}
    (he : sql.exec i (.stmt c) s = some (r, s'))
    (hw : ∀ o, Write.order o ∈ c.writes (s.view sql i) → π.Allows i (s.view sql i) o) :
    RowInv π s' ∧ RowGuar π i s s' := by
  refine ⟨⟨h.owned.exec he, ?_, ?_⟩, rowRely_of_exec h.owned he, ?_⟩
  all_goals obtain ⟨-, -, rfl⟩ := exec_stmt he
  · exact h.committed
  · intro j o ho
    by_cases hj : j = i
    · subst hj
      simp only [Server.afterStmt, Function.update_self, List.mem_append] at ho
      rcases ho with ho | ho
      · exact h.pending j o ho
      · exact h.allows_of_view (hw o ho)
    · simp only [Server.afterStmt, Function.update_of_ne hj] at ho
      exact h.pending j o ho
  · exact fun k r hr => ⟨r, hr, π.refl i r⟩

omit [DecidableEq ι] in
/-- The rows of the other sessions' writes, when `i` ends its transaction. -/
theorem RowInv.pending_of_rely (h : RowInv π s) (hrely : ∀ j, j ≠ i → RowRely j s s')
    (hi : s'.pending i = []) (j : ι) (o : Order) (ho : Write.order o ∈ s'.pending j) :
    π.Allows j s'.committed o := by
  have hj : j ≠ i := by
    rintro rfl
    rw [hi] at ho
    cases ho
  obtain ⟨hkeeps, hrows⟩ := hrely j hj
  rw [hkeeps.pending] at ho
  have hheld : s.holder (.order o.id) = some j := h.owned j _ _ ho rfl
  unfold RowPolicy.Allows
  rw [hrows o.id hheld]
  exact h.pending j o ho

/-- A commit rewrites the committed rows within the policy. -/
theorem RowInv.afterCommit (h : RowInv π s) {b : β} {r : Unit}
    (he : sql.exec i (.commit b) s = some (r, s')) : RowInv π s' ∧ RowGuar π i s s' := by
  have hrely := rowRely_of_exec h.owned he
  refine ⟨⟨h.owned.exec he, ?_, ?_⟩, hrely, ?_⟩
  · intro o ho
    rw [exec_commit he] at ho
    exact h.ok_view (Table.find_of_mem ho)
  · refine h.pending_of_rely hrely ?_
    rw [exec_commit he]
    exact Function.update_self ..
  · intro k r₀ hr₀
    rw [exec_commit he]
    obtain ⟨o, ho⟩ := Option.isSome_iff_exists.mp
      (find_view_isSome (i := i) (Option.isSome_iff_exists.mpr ⟨r₀, hr₀⟩))
    have hallows := h.allows_view ho
    rw [hr₀] at hallows
    exact ⟨o, ho, hallows⟩

/-- A rollback drops the writes. -/
theorem RowInv.afterRollback (h : RowInv π s) {r : Unit}
    (he : sql.exec i (.rollback : Cmd Stmt β) s = some (r, s')) :
    RowInv π s' ∧ RowGuar π i s s' := by
  have hrely := rowRely_of_exec h.owned he
  refine ⟨⟨h.owned.exec he, ?_, ?_⟩, hrely, ?_⟩
  · rw [exec_rollback (X := sql) he]
    exact h.committed
  · refine h.pending_of_rely hrely ?_
    rw [exec_rollback (X := sql) he]
    exact Function.update_self ..
  · rw [exec_rollback (X := sql) he]
    exact fun k r hr => ⟨r, hr, π.refl i r⟩

end Invariant

/-! ## What a session knows -/

section Knowledge

variable {s s' : OrdersServer β ι} {i : ι} {k : ℕ} {r : Order}

omit [DecidableEq ι] in
theorem Knows.of_rely (h : Knows i s k r) (hr : RowRely i s s') : Knows i s' k r := by
  obtain ⟨hheld, hview⟩ := h
  refine ⟨(hr.1.holder _).mpr hheld, ?_⟩
  rw [Server.view, hr.1.pending, find_applyAll_congr (hr.2 k hheld)]
  exact hview

/-- So do the session's own statements that write other rows. -/
theorem Knows.afterStmt (h : Knows i s k r) {c : Stmt}
    (hw : ∀ o, Write.order o ∈ c.writes (s.view sql i) → o.id ≠ k) :
    Knows i (s.afterStmt sql i c) k r := by
  refine ⟨?_, ?_⟩
  · simp only [Server.afterStmt]
    split
    · rfl
    · exact h.1
  · rw [Server.view_afterStmt]
    rcases find_applyAll (c.writes (s.view sql i)) (s.view sql i) k with ⟨o, ho, hk, -⟩ | ⟨-, hfind⟩
    · exact absurd hk (hw o ho)
    · exact hfind.trans h.2

theorem knows_saved (o : Order) : Knows i (s.afterStmt sql i (.saveOrder o)) o.id o := by
  refine ⟨?_, ?_⟩
  · simp [Server.afterStmt, sql, Stmt.locks]
  · rw [Server.view_afterStmt]
    exact Table.find_save_self _ _

theorem knows_inserted {o : Order} (ho : (s.view sql i).orders.find o.id = none) :
    Knows i (s.afterStmt sql i (.insertOrder o)) o.id o := by
  refine ⟨?_, ?_⟩
  · simp [Server.afterStmt, sql, Stmt.locks]
  · rw [Server.view_afterStmt, handler_insertOrder, ho]
    exact Table.find_save_self _ _

theorem knows_locked (hr : (s.view sql i).orders.find k = some r) :
    Knows i (s.afterStmt sql i (.lockOrder k)) k r := by
  have hlock : RowKey.order k ∈ Stmt.locks (.lockOrder k) (s.view sql i) := by
    simp [Stmt.locks, hr]
  refine ⟨?_, ?_⟩
  · simp only [Server.afterStmt]
    exact if_pos hlock
  · rw [Server.view_afterStmt]
    exact hr

theorem knows_maker {t : Order} (hr : bestMaker (s.view sql i).orders t = some r) :
    Knows i (s.afterStmt sql i (.lockMaker t)) r.id r := by
  obtain ⟨hmem, hcross⟩ := bestMaker_mem hr
  refine ⟨?_, ?_⟩
  · have hlock : RowKey.order r.id ∈ Stmt.locks (.lockMaker t) (s.view sql i) :=
      List.mem_map.mpr ⟨r, mem_crossableMakers.mpr ⟨hmem, hcross⟩, rfl⟩
    simp only [Server.afterStmt]
    exact if_pos hlock
  · rw [Server.view_afterStmt]
    exact Table.find_of_mem hmem

end Knowledge

/-! ## Statements -/

/-- The statements of a transaction follow the policy, and end in `Q`. -/
abbrev StmtSafe {α : Type} (i : ι) (Q : Except OrderError α → OrdersServer β ι → Prop) (p : Tx α)
    (s : OrdersServer β ι) : Prop :=
  (stmtProtocol (rowProtocol π)).Safe (sql.statements β ι) i Q p s

/-- The end of a transaction needs nothing. -/
abbrev Anyway {α : Type} (_ : Except OrderError α) (_ : OrdersServer β ι) : Prop := True

section Statements

variable {π} {α : Type} {s : OrdersServer β ι} {i : ι}
  {Q : Except OrderError α → OrdersServer β ι → Prop}

/-- A statement: its writes are allowed over what the session sees, and a maker query is issued
for a ready taker. -/
theorem safe_stmt {c : Stmt} {f : c.Reply → Tx α}
    (hpre : ∀ s₁, RowRely i s s₁ → RowInv π s₁ → ∀ t, c = .lockMaker t → TakerReady π i s₁ t)
    (hw : ∀ s₁, RowRely i s s₁ → RowInv π s₁ → ∀ o, Write.order o ∈ c.writes (s₁.view sql i) →
      π.Allows i (s₁.view sql i) o)
    (hrest : ∀ s₁, RowRely i s s₁ → RowInv π s₁ →
      StmtSafe π i Q (f (c.reply (s₁.view sql i))) (s₁.afterStmt sql i c)) :
    StmtSafe π i Q (.call c f) s := by
  intro s₁ hrely hinv
  refine ⟨fun t ht => hpre s₁ hrely hinv t (Cmd.stmt.inj ht), fun r s₂ he => ?_⟩
  obtain ⟨hinv₂, hguar⟩ := RowInv.afterStmt hinv he (hw s₁ hrely hinv)
  obtain ⟨-, rfl, rfl⟩ := exec_stmt he
  exact ⟨hinv₂, hguar, hrest s₁ hrely hinv⟩

/-- A statement that neither writes an order nor queries for a maker. -/
def Stmt.Quiet (c : Stmt) : Prop :=
  (∀ t, c ≠ .lockMaker t) ∧ ∀ d o, Write.order o ∉ c.writes d

theorem quiet_lockBalance (u a : ℕ) : (Stmt.lockBalance u a).Quiet :=
  ⟨by simp, by simp [Stmt.writes]⟩

theorem quiet_saveBalance (b : UserBalance) : (Stmt.saveBalance b).Quiet :=
  ⟨by simp, by simp [Stmt.writes]⟩

theorem quiet_lockOrder (id : ℕ) : (Stmt.lockOrder id).Quiet := ⟨by simp, by simp [Stmt.writes]⟩

theorem quiet_insertTrade (t : Trade) : (Stmt.insertTrade t).Quiet :=
  ⟨by simp, by simp [Stmt.writes]⟩

theorem quiet_pushFill (f : FillResult) : (Stmt.pushFill f).Quiet := ⟨by simp, by simp [Stmt.writes]⟩

theorem safe_quiet {c : Stmt} (hc : c.Quiet) {f : c.Reply → Tx α}
    (hrest : ∀ s₁, RowRely i s s₁ → RowInv π s₁ →
      StmtSafe π i Q (f (c.reply (s₁.view sql i))) (s₁.afterStmt sql i c)) :
    StmtSafe π i Q (.call c f) s :=
  safe_stmt (fun _ _ _ t ht => absurd ht (hc.1 t)) (fun _ _ _ o ho => absurd ho (hc.2 _ o)) hrest

theorem Knows.afterQuiet {c : Stmt} (hc : c.Quiet) {k : ℕ} {r : Order} (h : Knows i s k r) :
    Knows i (s.afterStmt sql i c) k r :=
  h.afterStmt fun o ho => absurd ho (hc.2 _ o)

/-- A save of a known row is allowed when it rewrites what is known. -/
theorem safe_saveOrder {o stored : Order} {f : Unit → Tx α} (hk : Knows i s o.id stored)
    (hrel : π.rel i stored o)
    (hrest : ∀ s₁, RowRely i s s₁ → RowInv π s₁ →
      StmtSafe π i Q (f ()) (s₁.afterStmt sql i (.saveOrder o))) :
    StmtSafe π i Q (.call (.saveOrder o) f) s := by
  refine safe_stmt (fun _ _ _ t ht => by cases ht) (fun s₁ hrely hinv o' ho' => ?_) hrest
  obtain rfl : o' = o := by simpa [Stmt.writes] using ho'
  unfold RowPolicy.Allows
  rw [(hk.of_rely hrely).2]
  exact hrel

theorem safe_lockMaker {t stored : Order} {f : Option Order → Tx α} (hk : Knows i s t.id stored)
    (hside : stored.side = t.side) (hrel : π.rel i stored t) (hok : π.ok t) (hopen : t.Open)
    (hpos : 0 < t.remainingAmount)
    (hrest : ∀ s₁, RowRely i s s₁ → RowInv π s₁ →
      StmtSafe π i Q (f (bestMaker (s₁.view sql i).orders t)) (s₁.afterStmt sql i (.lockMaker t))) :
    StmtSafe π i Q (.call (.lockMaker t) f) s := by
  refine safe_stmt (fun s₁ hrely _ t' ht' => ?_) (fun _ _ _ o ho => ?_) hrest
  · cases ht'
    exact ⟨stored, hk.of_rely hrely, hside, hrel, hok, hopen, hpos⟩
  · simp [Stmt.writes] at ho

end Statements

/-! ## The matching loop -/

section Matching

variable {π} {s : OrdersServer β ι} {i : ι} {now : ℤ}

/-- The matching loop follows the policy: the taker's row stays as it was, and the taker is an
allowed rewriting of it. -/
theorem safe_matchLoop {n : ℕ} {t stored : Order} {fills : List FillResult}
    {Q : Except OrderError (Order × List FillResult) → OrdersServer β ι → Prop}
    (hk : Knows i s t.id stored) (hside : stored.side = t.side) (hrel : π.rel i stored t)
    (hok : π.ok t) (hopen : 0 < t.remainingAmount → t.Open)
    (hQ : ∀ t' fs s', t'.id = t.id → Knows i s' t.id stored → π.rel i stored t' →
      Q (.ok (t', fs)) s')
    (hE : ∀ e s', Q (.error e) s') : StmtSafe π i Q (matchLoop now n t fills) s := by
  induction n generalizing t fills s with
  | zero => exact hE _ _
  | succ n ih =>
    simp only [matchLoop]
    by_cases hpos : 0 < t.remainingAmount
    · rw [if_pos hpos, Prog.perform_bind]
      refine safe_lockMaker hk hside hrel hok (hopen hpos) hpos fun s₁ hrely hinv => ?_
      have hk₁ := (hk.of_rely hrely).afterStmt (c := .lockMaker t) (by simp [Stmt.writes])
      cases hbest : bestMaker (s₁.view sql i).orders t with
      | none => exact hQ _ _ _ rfl hk₁ hrel
      | some m =>
        obtain ⟨hmem, hcross⟩ := bestMaker_mem hbest
        have hm := knows_maker hbest
        have hokm : π.ok m := hinv.ok_view (Table.find_of_mem hmem)
        -- the maker is another row than the taker's
        have hne : m.id ≠ t.id := by
          intro e
          have hstored : m = stored := by
            have := hm.2.symm.trans (e ▸ hk₁.2)
            exact Option.some.inj this
          exact hcross.side_ne (hstored ▸ hside)
        have hzero : 0 ≤ fillAmount t m :=
          le_min hpos.le (sub_nonneg.mpr (π.filled_le hokm))
        -- the fill moves both rows as the policy allows
        have hrelm : π.rel i m (makerAfter now t m) :=
          π.fill now _ hokm hcross.2.2.2.1 hzero (min_le_right _ _) ⟨t, m, hok, hokm, rfl⟩
        have hrelt : π.rel i t (takerAfter now t m) :=
          π.fill now _ hok (hopen hpos) hzero (min_le_left _ _) ⟨t, m, hok, hokm, rfl⟩
        -- the maker is saved, then the trade is inserted; the taker's row is known throughout
        refine safe_saveOrder (o := makerAfter now t m) (by simpa using hm) hrelm
          fun s₂ hrely₂ _ => ?_
        have hk₂ := (hk₁.of_rely hrely₂).afterStmt (c := .saveOrder (makerAfter now t m))
          (by simpa [Stmt.writes] using hne)
        refine safe_quiet (quiet_insertTrade _) fun s₃ hrely₃ _ => ?_
        have hk₃ := (hk₂.of_rely hrely₃).afterQuiet (quiet_insertTrade
          (fillTrade (takerAfter now t m) (fillAmount t m) (fillPrice m)))
        refine safe_quiet (quiet_pushFill _) fun s₄ hrely₄ _ => ?_
        have hk₄ := (hk₃.of_rely hrely₄).afterQuiet (quiet_pushFill (fillOf now t m))
        have hid : (takerAfter now t m).id = t.id := takerAfter_id ..
        refine ih (t := takerAfter now t m) (hid.symm ▸ hk₄) (by simpa using hside)
          (π.trans hrel hrelt) (π.ok_rel hrelt hok) takerAfter_open ?_
        intro t' fs s' hid' hk' hrel'
        exact hQ t' fs s' (hid'.trans hid) (hid ▸ hk') hrel'
    · rw [if_neg hpos]
      exact hQ _ _ _ rfl hk hrel

/-- **`matchTakerOrder`** follows the policy. -/
theorem safe_matchTakerOrder {n : ℕ} {t stored : Order} (hk : Knows i s t.id stored)
    (hside : stored.side = t.side) (hrel : π.rel i stored t) (hok : π.ok t)
    (hopen : 0 < t.remainingAmount → t.Open) :
    StmtSafe π i Anyway (matchTakerOrder n now t) s := by
  refine Protocol.safe_bind (safe_matchLoop hk hside hrel hok hopen ?_ fun _ _ => trivial)
  intro t' fs s' hid hk' hrel'
  refine safe_saveOrder (hid.symm ▸ hk') hrel' fun _ _ _ => trivial

end Matching

/-! ## Placing an order -/

section Placing

variable {π} {s : OrdersServer β ι} {i : ι} {now : ℤ} {id userId : ℕ} {dto : CreateOrderDto}

/-- The entry of a new order follows the policy, and ends with its row known. -/
theorem safe_enterOrder (hnew : π.new i (newOrder id now userId dto)) :
    StmtSafe π i (fun o s' => ∀ order, o = .ok order → order = newOrder id now userId dto ∧
      Knows i s' order.id order) (enterOrder id now userId dto) s := by
  set order := newOrder id now userId dto with horder
  let Q : Except OrderError Order → OrdersServer β ι → Prop := fun o s' =>
    ∀ order', o = .ok order' → order' = order ∧ Knows i s' order'.id order'
  -- the insert, in any state
  have hfresh : ∀ (fresh : Bool) (s : OrdersServer β ι), (fresh → Knows i s order.id order) →
      StmtSafe π i Q (if fresh then pure order else throw .duplicateKey) s := by
    intro fresh s hk
    cases fresh with
    | false =>
      intro order' ho
      cases ho
    | true =>
      intro order' ho
      obtain rfl : order = order' := Except.ok.inj ho
      exact ⟨rfl, hk rfl⟩
  have hinsert : ∀ s : OrdersServer β ι, StmtSafe π i Q (Prog.call (.insertOrder order) fun fresh =>
      if fresh then pure order else throw OrderError.duplicateKey) s := by
    intro s
    refine safe_stmt (fun _ _ _ t ht => by cases ht) (fun s₁ _ _ o ho => ?_) fun s₁ _ _ => ?_
    · obtain ⟨hnone, rfl⟩ : (s₁.view sql i).orders.find order.id = none ∧ o = order := by
        simpa [Stmt.writes] using ho
      unfold RowPolicy.Allows
      rw [hnone]
      exact hnew
    · exact hfresh _ _ fun hnone => knows_inserted (Option.isNone_iff_eq_none.mp hnone)
  unfold enterOrder
  rw [Prog.perform_bind]
  refine safe_quiet (quiet_lockBalance _ _) fun s₁ _ _ => ?_
  cases hside : dto.side with
  | buy => exact hinsert _
  | sell =>
    simp only [if_true]
    cases Stmt.reply (.lockBalance userId dto.assetId) (s₁.view sql i) with
    | none => exact fun order' ho => by cases ho
    | some balance =>
      by_cases hlt : balance.availableBalance < dto.amount
      · simp only [if_pos hlt]
        exact fun order' ho => by cases ho
      · simp only [if_neg hlt]
        exact safe_quiet (quiet_saveBalance _) fun s₂ _ _ => hinsert _

/-- **`placeOrder`** follows every policy that lets the session create its order. -/
theorem safe_placeOrder {n : ℕ} (hnew : π.new i (newOrder id now userId dto)) :
    StmtSafe π i Anyway (placeOrder n id now userId dto) s := by
  unfold placeOrder
  rcases validateOrderShape_cases dto with hshape | ⟨e, hshape⟩
  · rw [hshape, pure_bind]
    refine Protocol.safe_bind (Protocol.safe_mono (fun o s' ho => ?_) (safe_enterOrder hnew))
    cases o with
    | error e => trivial
    | ok order =>
      obtain ⟨rfl, hk⟩ := ho order rfl
      show StmtSafe π i Anyway (ite _ _ _) s'
      split
      · refine Protocol.safe_bind (Protocol.safe_mono (fun o s' _ => ?_)
          (safe_matchTakerOrder hk rfl (π.refl _ _) (π.ok_new hnew) fun _ => .inl rfl))
        cases o <;> trivial
      · trivial
  · rw [hshape]
    trivial

end Placing

/-! ## Cancelling, amending and triggering an order -/

section Others

variable {π} {s : OrdersServer β ι} {i : ι} {now : ℤ}

/-- **`cancelOrder`** follows every policy that lets the session cancel the order. -/
theorem safe_cancelOrder {userId orderId : ℕ}
    (hcancel : ∀ o, π.ok o → o.id = orderId → o.userId = userId → o.status ≠ .filled →
      o.status ≠ .cancelled → π.rel i o (o.asCancelled now)) :
    StmtSafe π i Anyway (cancelOrder now userId orderId) s := by
  unfold cancelOrder
  rw [Prog.perform_bind]
  refine safe_quiet (quiet_lockOrder orderId) fun s₁ _ hinv => ?_
  cases hfind : Stmt.reply (.lockOrder orderId) (s₁.view sql i) with
  | none => trivial
  | some existing =>
    replace hfind : (s₁.view sql i).orders.find orderId = some existing := hfind
    have hid : existing.id = orderId := Table.key_of_find hfind
    have hk : Knows i (s₁.afterStmt sql i (.lockOrder orderId)) orderId existing :=
      knows_locked hfind
    have hok : π.ok existing := hinv.ok_view hfind
    by_cases howner : existing.userId ≠ userId
    · simp only [if_pos howner]
      trivial
    by_cases hstatus : existing.status = .filled ∨ existing.status = .cancelled
    · simp only [if_neg howner, if_pos hstatus]
      trivial
    simp only [if_neg howner, if_neg hstatus]
    obtain ⟨hfilled, hcancelled⟩ := not_or.mp hstatus
    have hrel := hcancel existing hok hid (not_not.mp howner) hfilled hcancelled
    -- the save, in any state that still knows the row
    have hsave : ∀ s : OrdersServer β ι, Knows i s orderId existing → StmtSafe π i Anyway
        (Prog.call (.saveOrder (existing.asCancelled now)) fun _ =>
          pure (existing.asCancelled now)) s := by
      intro s hk
      refine safe_saveOrder (o := existing.asCancelled now) ?_ hrel fun _ _ _ => trivial
      exact hid.symm ▸ hk
    rcases existing.side.buy_or_sell with hside | hside
    · simp only [hside, reduceCtorEq, if_false]
      exact hsave _ hk
    · simp only [hside, if_true, Prog.perform_bind]
      refine safe_quiet (quiet_lockBalance _ _) fun s₂ hrely₂ _ => ?_
      have hk₂ := (hk.of_rely hrely₂).afterQuiet (quiet_lockBalance userId existing.assetId)
      cases Stmt.reply (.lockBalance userId existing.assetId) (s₂.view sql i) with
      | none => exact hsave _ hk₂
      | some balance =>
        refine safe_quiet (quiet_saveBalance _) fun s₃ hrely₃ _ => ?_
        exact hsave _ ((hk₂.of_rely hrely₃).afterQuiet (quiet_saveBalance _))

theorem safe_amendAmount {userId k : ℕ} {o r : Order} {amount : Option ℚ} (hk : Knows i s k r) :
    StmtSafe π i (fun out s' => ∀ o', out = .ok o' → Knows i s' k r ∧
      o' = { o with amount := amount.getD o.amount } ∧ ∀ a, amount = some a → o.filledAmount ≤ a)
      (amendAmount userId o amount) s := by
  cases amount with
  | none =>
    intro o' ho'
    cases ho'
    exact ⟨hk, rfl, by simp⟩
  | some a =>
    simp only [amendAmount]
    by_cases hlt : a < o.filledAmount
    · simp only [if_pos hlt]
      exact fun o' ho' => by cases ho'
    have hle : ∀ a', some a = some a' → o.filledAmount ≤ a' := by
      rintro a' ⟨⟩
      exact not_lt.mp hlt
    rcases o.side.buy_or_sell with hside | hside
    · -- the balance is read and saved for a sell alone
      simp only [if_neg hlt, hside, reduceCtorEq, if_false]
      intro o' ho'
      cases ho'
      exact ⟨hk, rfl, hle⟩
    · simp only [if_neg hlt, hside, if_true, Prog.perform_bind]
      refine safe_quiet (quiet_lockBalance _ _) fun s₁ hrely₁ _ => ?_
      have hk₁ := (hk.of_rely hrely₁).afterQuiet (quiet_lockBalance userId o.assetId)
      cases Stmt.reply (.lockBalance userId o.assetId) (s₁.view sql i) with
      | none => exact fun o' ho' => by cases ho'
      | some balance =>
        by_cases havail : 0 < a - o.filledAmount - o.remainingAmount ∧
            balance.availableBalance < a - o.filledAmount - o.remainingAmount
        · simp only [if_pos havail]
          exact fun o' ho' => by cases ho'
        · simp only [if_neg havail]
          refine safe_quiet (quiet_saveBalance _) fun s₂ hrely₂ _ => ?_
          intro o' ho'
          cases ho'
          exact ⟨(hk₁.of_rely hrely₂).afterQuiet (quiet_saveBalance _), rfl, hle⟩

/-- `amendOrder` follows every policy that lets the session amend the order, and ends with the
amended row known. -/
theorem safe_amendOrder {userId : ℕ} {dto : ModifyOrderDto}
    (hamend : ∀ o, π.ok o → Admits o userId dto → π.rel i o (o.amendedBy dto)) :
    StmtSafe π i (fun out s' => ∀ o', out = .ok o' → Knows i s' o'.id o' ∧ π.ok o' ∧ o'.Open)
      (amendOrder userId dto) s := by
  unfold amendOrder
  rw [Prog.perform_bind]
  refine safe_quiet (quiet_lockOrder dto.orderId) fun s₁ _ hinv => ?_
  cases hfind : Stmt.reply (.lockOrder dto.orderId) (s₁.view sql i) with
  | none => exact fun o' ho' => by cases ho'
  | some o =>
    replace hfind : (s₁.view sql i).orders.find dto.orderId = some o := hfind
    have hid : o.id = dto.orderId := Table.key_of_find hfind
    have hok : π.ok o := hinv.ok_view hfind
    -- the order of another user, or one that is not open, is not amended
    by_cases howner : o.userId ≠ userId
    · simp only [if_pos howner]
      exact fun o' ho' => by cases ho'
    by_cases hstatus : o.status ≠ .pending ∧ o.status ≠ .partiallyFilled
    · simp only [if_neg howner, if_pos hstatus]
      exact fun o' ho' => by cases ho'
    simp only [if_neg howner, if_neg hstatus]
    have hopen : o.Open := by
      unfold Order.Open
      by_contra hc
      exact hstatus (not_or.mp hc)
    -- a new amount moves the reserve under the lock of the balance
    refine Protocol.safe_bind (Protocol.safe_mono (fun out s₂ hout => ?_)
      (safe_amendAmount (knows_locked hfind)))
    rcases out with e | o₁
    · exact fun o' ho' => by cases ho'
    obtain ⟨hk, rfl, hamount⟩ := hout o₁ rfl
    -- the other amendments issue no statement
    dsimp only
    rcases amendPrice_cases { o with amount := dto.amount.getD o.amount } dto.price with
      ⟨o₂, h₂⟩ | ⟨e, h₂⟩
    swap
    · rw [h₂]
      exact fun o' ho' => by cases ho'
    obtain ⟨rfl, hprice, -⟩ := amendPrice_ok (d := s₂.committed) (by rw [h₂]; rfl)
    rw [h₂, pure_bind]
    rcases amendStopPrice_cases _ dto.stopPrice with ⟨o₃, h₃⟩ | ⟨e, h₃⟩
    swap
    · rw [h₃]
      exact fun o' ho' => by cases ho'
    obtain ⟨rfl, hstop, -⟩ := amendStopPrice_ok (d := s₂.committed) (by rw [h₃]; rfl)
    rw [h₃, pure_bind]
    rcases amendTrailingDelta_cases _ dto.trailingDelta with ⟨o₄, h₄⟩ | ⟨e, h₄⟩
    swap
    · rw [h₄]
      exact fun o' ho' => by cases ho'
    obtain ⟨rfl, htrailing, -⟩ := amendTrailingDelta_ok (d := s₂.committed) (by rw [h₄]; rfl)
    rw [h₄, pure_bind]
    -- every check has passed: the amended order is saved
    have hadm : Admits o userId dto :=
      ⟨hid, not_not.mp howner, hopen, hamount, hprice, hstop, htrailing⟩
    have hrel : π.rel i o (o.amendedBy dto) := hamend o hok hadm
    have hk' : Knows i s₂ (o.amendedBy dto).id o := hid.symm ▸ hk
    refine safe_saveOrder (o := o.amendedBy dto) hk' hrel fun s₃ _ _ => ?_
    intro o' ho'
    obtain rfl : o.amendedBy dto = o' := Except.ok.inj ho'
    exact ⟨knows_saved _, π.ok_rel hrel hok, hopen⟩

/-- **`modifyOrder`** follows every policy that lets the session amend the order. -/
theorem safe_modifyOrder {n userId : ℕ} {dto : ModifyOrderDto}
    (hamend : ∀ o, π.ok o → Admits o userId dto → π.rel i o (o.amendedBy dto)) :
    StmtSafe π i Anyway (modifyOrder n now userId dto) s := by
  refine Protocol.safe_bind (Protocol.safe_mono (fun out s' hout => ?_) (safe_amendOrder hamend))
  rcases out with e | o'
  · trivial
  obtain ⟨hk, hok, hopen⟩ := hout o' rfl
  show StmtSafe π i Anyway (ite _ _ _) s'
  split
  · refine Protocol.safe_bind (Protocol.safe_mono (fun o s' _ => ?_)
      (safe_matchTakerOrder hk rfl (π.refl _ _) hok fun _ => hopen))
    cases o <;> trivial
  · trivial

/-- **`trigger`** follows every policy that lets the session mark a PENDING order TRIGGERED and hand
it to the loop as PENDING. -/
theorem safe_trigger {n orderId : ℕ}
    (hmark : ∀ o : Order, π.ok o → o.status = .pending →
      π.rel i o { o with status := .triggered, triggeredAt := some now })
    (hunmark : ∀ o : Order, π.ok o → o.status = .pending →
      π.rel i { o with status := .triggered, triggeredAt := some now }
        { o with status := .pending, triggeredAt := some now }) :
    StmtSafe π i Anyway (trigger n now orderId) s := by
  unfold trigger armStopOrder
  rw [Prog.perform_bind, Prog.call_bind]
  refine safe_quiet (quiet_lockOrder orderId) fun s₁ _ hinv => ?_
  cases hfind : Stmt.reply (.lockOrder orderId) (s₁.view sql i) with
  | none => trivial
  | some fresh =>
    replace hfind : (s₁.view sql i).orders.find orderId = some fresh := hfind
    by_cases hstatus : fresh.status ≠ .pending
    · simp only [if_pos hstatus]
      trivial
    have hpending : fresh.status = .pending := not_not.mp hstatus
    have hok : π.ok fresh := hinv.ok_view hfind
    have hid : fresh.id = orderId := Table.key_of_find hfind
    simp only [if_neg hstatus]
    have hk : Knows i (s₁.afterStmt sql i (.lockOrder orderId)) fresh.id fresh :=
      hid.symm ▸ knows_locked hfind
    have hmarked := hmark fresh hok hpending
    set marked : Order := { fresh with status := .triggered, triggeredAt := some now } with hset
    refine safe_saveOrder (o := marked) hk hmarked fun s₂ _ _ => ?_
    -- the row is TRIGGERED, and the taker is the order as PENDING
    set taker : Order := { marked with status := .pending } with htaker
    have hrel : π.rel i marked taker := hunmark fresh hok hpending
    have hkt : Knows i (s₂.afterStmt sql i (.saveOrder marked)) taker.id marked :=
      knows_saved marked
    show StmtSafe π i Anyway (matchTakerOrder n now taker >>= fun r => pure (some r.1)) _
    refine Protocol.safe_bind (Protocol.safe_mono (fun o s' _ => ?_)
      (safe_matchTakerOrder hkt rfl hrel (π.ok_rel hrel (π.ok_rel hmarked hok))
        fun _ => .inl rfl))
    cases o <;> trivial

end Others

/-! ## Sessions -/

/-- A session of the protocol. -/
abbrev SessionSafe {α : Type} (i : ι) (p : OrdersSession β α) (s : OrdersServer β ι) : Prop :=
  (rowProtocol π).Safe (sql.machine β ι) i Anyway p s

/-- **A transaction** whose statements follow the policy follows it to its end. -/
theorem safe_session {π : RowPolicy ι} {i : ι} {α : Type} {p : Tx α} {s : OrdersServer β ι}
    {res : α → β} (hp : StmtSafe π i Anyway p s) : SessionSafe π i (transaction res p) s := by
  refine safe_transaction hp (fun a s _ => ?_) fun e s _ => ?_
  · intro s₁ _ hinv
    refine ⟨fun t ht => (by cases ht), fun r s₂ he => ?_⟩
    obtain ⟨hinv₂, hguar⟩ := RowInv.afterCommit hinv he
    exact ⟨hinv₂, hguar, trivial⟩
  · intro s₁ _ hinv
    refine ⟨fun t ht => (by cases ht), fun r s₂ he => ?_⟩
    obtain ⟨hinv₂, hguar⟩ := RowInv.afterRollback hinv he
    exact ⟨hinv₂, hguar, trivial⟩

theorem safe_read {π : RowPolicy ι} {i : ι} {c : Stmt} {s : OrdersServer β ι}
    {Q : Except OrderError c.Reply → OrdersServer β ι → Prop} (hc : ∀ d, c.writes d = [])
    (hQ : ∀ s₁, RowInv π s₁ → Q (.ok (c.reply s₁.committed)) s₁) :
    (rowProtocol π).Safe (sql.machine β ι) i Q (bare c) s := by
  intro s₁ _ hinv
  refine ⟨fun t ht => (by cases ht), fun r s₂ he => ?_⟩
  obtain ⟨-, rfl, rfl⟩ := exec_auto he
  have hsame : s₁.afterAuto sql c = s₁ := by
    show ({ s₁ with committed := sql.applyAll (c.writes s₁.committed) s₁.committed } :
      OrdersServer β ι) = s₁
    rw [hc]
    rfl
  rw [hsame]
  exact ⟨hinv, .refl π i s₁, hQ s₁ hinv⟩

end Orders
