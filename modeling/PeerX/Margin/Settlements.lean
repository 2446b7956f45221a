import PeerX.Foundations.RowHistories
import PeerX.Foundations.Commits
import PeerX.Margin.Engine
import PeerX.Margin.Runs

/-!
# Margin: settlements

`closePosition` and `liquidatePosition` lock the position and read its status again before they
settle it; the monitor and the interest service save positions as they were loaded, outside any
transaction. As long as each such save of an open position finds the stored position open, a
position is settled at most once, and a position that is closed or liquidated is not opened again.

## Main results

* `safe_closePosition`, `safe_liquidatePosition`: a settlement closes a position that was open
* `settled_at_most_once`: settlements and statuses under every schedule
-/

namespace Margin

open Relational Concurrency

/-! ## Calls -/

/-- A call of the margin services. -/
inductive Call : Type
  | closePosition (now : ℤ) (positionId : ℕ) (currentPrice : ℚ)
  | liquidatePosition (now : ℤ) (position : MarginPosition) (pairConfig : MarginPairConfig)
      (currentPrice : ℚ)
  | evaluatePosition (now : ℤ) (position : MarginPosition) (pairConfig : MarginPairConfig)
      (currentPrice : ℚ)
  | monitorPositions (clock : ℕ → ℤ)
  | accrueDailyInterest (clock : ℕ → ℤ) (today : ℕ)

def Call.session : Call → MarginSession Unit
  | .closePosition now positionId currentPrice => do
    let _ ← transaction .closed (Margin.closePosition now positionId currentPrice)
    return ()
  | .liquidatePosition now position pairConfig currentPrice => do
    let _ ← transaction (fun r => .liquidated r.1 r.2)
      (Margin.liquidatePosition now position pairConfig currentPrice)
    return ()
  | .evaluatePosition now position pairConfig currentPrice =>
    Margin.evaluatePosition now position pairConfig currentPrice
  | .monitorPositions clock => Margin.monitorPositions clock
  | .accrueDailyInterest clock today => autocommitted (Margin.accrueDailyInterest clock today)

/-- The server of the margin services. -/
abbrev MarginServer (ι : Type) := Server MarginDb Write RowKey Outcome ι

/-- The configurations of the calls. -/
abbrev Serving (ι : Type) := Clients Stmt.Reply MarginDb Write RowKey Outcome MarginError Unit ι

/-- Any number of calls at the same time, before their first statement. -/
def serving {ι : Type} (calls : ι → Call) (d₀ : MarginDb) : Serving ι :=
  ⟨Server.idle d₀, fun i => (calls i).session⟩

/-- The transaction wrote the position. Both services do so right after `settlePositionBalance`. -/
def settles {ι : Type} (id : ℕ) (r : Commit ι Write Outcome) : Bool :=
  r.writes.any fun w => w.target = some (.position id)

/-- The committed transactions that settled the position. -/
def settlements {ι : Type} (id : ℕ) (h : List (Commit ι Write Outcome)) :
    List (Commit ι Write Outcome) :=
  h.filter (settles id)

/-- The position a command saves outside any transaction. -/
def savedAlone : Cmd Stmt Outcome → Option MarginPosition
  | .auto (.savePosition p) => some p
  | _ => none

/-- An open position saved outside a transaction finds the stored position open. -/
def SavesOpen {ι : Type} (_ : ι) (cmd : Cmd Stmt Outcome) (s : MarginServer ι) : Prop :=
  ∀ p ∈ savedAlone cmd, p.Open → ∀ q ∈ s.committed.positions.find p.id, q.Open

instance {ι : Type} (i : ι) (cmd : Cmd Stmt Outcome) (s : MarginServer ι) :
    Decidable (SavesOpen i cmd s) :=
  inferInstanceAs (Decidable (∀ p ∈ savedAlone cmd, p.Open →
    ∀ q ∈ s.committed.positions.find p.id, q.Open))

/-! ## Sessions -/

section Sessions

variable {ι α : Type} {T : Protocol (Cmd Stmt Outcome) ι (MarginServer ι)}
  {M : Machine (Cmd Stmt Outcome) (Cmd.Reply Stmt.Reply Outcome) ι (MarginServer ι)}
  {rest : MarginServer ι → Prop} {s : MarginServer ι} {i : ι}

variable (T M rest i) in
/-- What the sessions are made of meets the protocol. -/
structure PartsSafe : Prop where
  bare : ∀ c, T.SafeAtRest M rest i (bare c)
  closePosition : ∀ now positionId currentPrice, T.SafeAtRest M rest i
    (transaction .closed (closePosition now positionId currentPrice))
  liquidatePosition : ∀ now position pairConfig currentPrice, T.SafeAtRest M rest i
    (transaction (fun r => .liquidated r.1 r.2)
      (liquidatePosition now position pairConfig currentPrice))

namespace PartsSafe

/-- The statements of a program, each outside any transaction. -/
theorem autocommitted (h : PartsSafe T M rest i) (p : Tx α) :
    T.SafeAtRest M rest i (autocommitted p) := by
  induction p with
  | ret a => exact fun _ hs => hs
  | fail e => exact fun _ hs => hs
  | call c k ih => exact (h.bare c).bind ih

theorem saveAlone (h : PartsSafe T M rest i) (p : MarginPosition) :
    T.SafeAtRest M rest i (saveAlone p) := by
  refine (h.bare _).bind fun saved => ?_
  cases saved
  · exact fun _ hs => hs
  · exact .ret _

theorem liquidate (h : PartsSafe T M rest i) (now : ℤ) (position : MarginPosition)
    (pairConfig : MarginPairConfig) (currentPrice : ℚ) :
    T.SafeAtRest M rest i (liquidate now position pairConfig currentPrice) := by
  refine (h.liquidatePosition now position pairConfig currentPrice).bind fun r => ?_
  obtain ⟨p, shortfall⟩ := r
  dsimp only
  split
  · exact h.bare _
  · exact .ret _

theorem evaluatePosition (h : PartsSafe T M rest i) (now : ℤ) (position : MarginPosition)
    (pairConfig : MarginPairConfig) (currentPrice : ℚ) :
    T.SafeAtRest M rest i (evaluatePosition now position pairConfig currentPrice) := by
  refine (h.saveAlone _).bind fun _ => ?_
  split
  · exact h.liquidate _ _ _ _
  · split
    · exact h.saveAlone _
    · split
      · exact h.saveAlone _
      · exact .ret _

theorem monitorPosition (h : PartsSafe T M rest i) (clock : ℕ → ℤ) (pairs : List MarginPairConfig)
    (assets : List Orders.VirtualAsset) (position : MarginPosition) :
    T.SafeAtRest M rest i (monitorPosition clock pairs assets position) := by
  unfold Margin.monitorPosition
  split
  · exact .ret _
  · split
    · exact .ret _
    · split
      · exact .ret _
      · exact (h.evaluatePosition _ _ _ _).tryCatch fun e => .ret _

theorem monitorLoop (h : PartsSafe T M rest i) (clock : ℕ → ℤ) (pairs : List MarginPairConfig)
    (assets : List Orders.VirtualAsset) (positions : List MarginPosition) :
    T.SafeAtRest M rest i (monitorLoop clock pairs assets positions) := by
  induction positions with
  | nil => exact .ret _
  | cons position positions ih => exact (h.monitorPosition _ _ _ _).bind fun _ => ih

theorem monitorPositions (h : PartsSafe T M rest i) (clock : ℕ → ℤ) :
    T.SafeAtRest M rest i (monitorPositions clock) := by
  refine (h.bare _).bind fun positions => ?_
  split
  · exact .ret _
  · refine (h.bare _).bind fun pairs => ?_
    exact (h.bare _).bind fun assets => h.monitorLoop _ _ _ _

/-- Every call meets the protocol when its parts do. -/
theorem session (h : PartsSafe T M rest i) (call : Call) : T.SafeAtRest M rest i call.session := by
  cases call with
  | closePosition now positionId currentPrice =>
    exact (h.closePosition _ _ _).bind fun _ => .ret _
  | liquidatePosition now position pairConfig currentPrice =>
    exact (h.liquidatePosition _ _ _ _).bind fun _ => .ret _
  | evaluatePosition now position pairConfig currentPrice => exact h.evaluatePosition _ _ _ _
  | monitorPositions clock => exact h.monitorPositions clock
  | accrueDailyInterest clock today => exact h.autocommitted _

end PartsSafe

end Sessions

/-! ## Positions -/

/-- The row of a position, which its lock protects. -/
def positionAt : RowKey → MarginDb → Option MarginPosition
  | .position id, d => d.positions.find id
  | _, _ => none

theorem positionAt_apply (k : RowKey) (w : Write) (d : MarginDb) :
    positionAt k (w.apply d) = positionAt k d ∨
      ∃ p, w = .position p ∧ k = .position p.id ∧ positionAt k (w.apply d) = some p := by
  cases k with
  | exchange k => exact .inl rfl
  | pair id => exact .inl rfl
  | position id =>
    cases w with
    | position p =>
      by_cases hid : id = p.id
      · subst hid
        exact .inr ⟨p, rfl, rfl, Table.find_save_self _ _⟩
      · exact .inl (Table.find_save_of_ne _ hid)
    | exchange w => exact .inl rfl
    | pair c => exact .inl rfl
    | accrual a => exact .inl rfl
    | shortfall r => exact .inl rfl

def RowKey.IsPosition : RowKey → Prop
  | .position _ => True
  | _ => False

/-- The row of a position is protected by its lock. -/
def positionRows : sql.Rows (Option MarginPosition) where
  obs := positionAt
  frame := by
    intro w d k hw
    rcases positionAt_apply k w d with h | ⟨p, rfl, rfl, -⟩
    · exact h
    · exact absurd rfl hw
  congr := by
    intro w d d' k h
    rcases positionAt_apply k w d with hd | ⟨p, rfl, rfl, hd⟩
    · rcases positionAt_apply k w d' with hd' | ⟨p, rfl, rfl, -⟩
      · exact hd.trans (h.trans hd'.symm)
      · exact (Table.find_save_self _ _).trans (Table.find_save_self _ _).symm
    · exact (Table.find_save_self _ _).trans (Table.find_save_self _ _).symm

/-- What is true of a position with its history: it was not settled yet, or once, and then it is not
open. A position that is not open is not opened again. -/
def settlementSpec (ι : Type) : RowSpec ι Write Outcome RowKey (Option MarginPosition) where
  good
    | .position id, h, x => (settlements id h).length = 0 ∨
        (settlements id h).length = 1 ∧ ∃ p, x = some p ∧ ¬ p.Open
    | _, _, _ => True
  move _ x y := ∀ p, x = some p → ¬ p.Open → ∃ q, y = some q ∧ ¬ q.Open
  move_refl _ _ p hp hclosed := ⟨p, hp, hclosed⟩
  move_trans := by
    intro k x y z hxy hyz p hp hclosed
    obtain ⟨q, hq, hclosed'⟩ := hxy p hp hclosed
    exact hyz q hq hclosed'

/-- What a settlement does to the rows it writes: an open position is closed. -/
def ClosesOpen : RowKey → Option MarginPosition → Option MarginPosition → Prop
  | .position _, x, x' => (∃ p, x = some p ∧ p.Open) ∧ ∃ p, x' = some p ∧ ¬ p.Open
  | _, x, x' => x = none ∧ x' = none

section Rows

variable {ι : Type}

theorem settles_iff {id : ℕ} {r : Commit ι Write Outcome} :
    settles id r ↔ ∃ w ∈ r.writes, sql.target w = some (.position id) := by
  simp [settles, sql]

theorem settlements_append (id : ℕ) (h : List (Commit ι Write Outcome))
    (r : Commit ι Write Outcome) :
    settlements id (h ++ [r]) = settlements id h ++ if settles id r then [r] else [] := by
  simp [settlements, List.filter_append, List.filter_singleton]

/-- A commit that closes open positions keeps the count of the settlements. -/
theorem keeps_closesOpen (r : Commit ι Write Outcome) :
    (settlementSpec ι).Keeps sql r ClosesOpen := by
  intro k h x hgood
  cases k with
  | exchange k =>
    refine ⟨fun _ => trivial, ?_⟩
    rintro x' - ⟨rfl, rfl⟩
    exact ⟨trivial, fun p hp => by cases hp⟩
  | pair id =>
    refine ⟨fun _ => trivial, ?_⟩
    rintro x' - ⟨rfl, rfl⟩
    exact ⟨trivial, fun p hp => by cases hp⟩
  | position id =>
    constructor
    · intro hfree
      have hnot : settles id r = false := by
        rw [← Bool.not_eq_true, settles_iff]
        rintro ⟨w, hw, ht⟩
        exact hfree w hw ht
      simpa [settlementSpec, settlements_append, hnot] using hgood
    · rintro x' hwrites ⟨⟨p, rfl, hopen⟩, p', rfl, hclosed⟩
      have hyes : settles id r = true := settles_iff.mpr hwrites
      -- the position was open, so that nobody settled it before
      have hzero : (settlements id h).length = 0 := by
        rcases hgood with hzero | ⟨-, q, hq, hclosed'⟩
        · exact hzero
        · cases hq
          exact absurd hopen hclosed'
      refine ⟨.inr ⟨?_, p', rfl, hclosed⟩, fun q hq hclosed' => ?_⟩
      · simp [settlements_append, hyes, hzero]
      · cases hq
        exact absurd hopen hclosed'

variable [DecidableEq ι] {s s' : MarginServer ι} {i : ι} {p : MarginPosition} {α : Type}

/-- The transaction holds the position `p`, and wrote no position so far. -/
abbrev HoldsPosition (s : MarginServer ι) (i : ι) (p : MarginPosition) : Prop :=
  HoldsRow positionRows RowKey.IsPosition s i (.position p.id) (some p)

theorem leaves_exchange (c : Orders.Stmt) : sql.Leaves RowKey.IsPosition (.exchange c) := by
  intro d w hw k hk ht
  obtain ⟨w', -, rfl⟩ := List.mem_map.mp hw
  obtain ⟨k', -, rfl⟩ := Option.map_eq_some_iff.mp ht
  exact hk

theorem leaves_findPair (id : ℕ) : sql.Leaves RowKey.IsPosition (.findPair id) := by
  intro d w hw
  cases hw

theorem leaves_lockPosition (id : ℕ) : sql.Leaves RowKey.IsPosition (.lockPosition id) := by
  intro d w hw
  cases hw

theorem writes_position {c : Stmt} {d : MarginDb} {w : Write} {id : ℕ} (hw : w ∈ c.writes d)
    (ht : w.target = some (.position id)) :
    ∃ p, p.id = id ∧ (c = .savePosition p ∨ c = .insertPosition p ∧ d.positions.find p.id = none) := by
  cases c with
  | savePosition p =>
    obtain rfl : w = .position p := by simpa [Stmt.writes] using hw
    exact ⟨p, by simpa [Write.target] using ht, .inl rfl⟩
  | insertPosition p =>
    obtain ⟨hnone, rfl⟩ : d.positions.find p.id = none ∧ w = .position p := by
      simpa [Stmt.writes] using hw
    exact ⟨p, by simpa [Write.target] using ht, .inr ⟨rfl, hnone⟩⟩
  | exchange c => exact absurd ht (leaves_exchange c d w hw _ trivial)
  | insertBalance b =>
    obtain ⟨-, rfl⟩ : _ ∧ w = .exchange (.balance b) := by simpa [Stmt.writes] using hw
    cases ht
  | savePair c =>
    obtain ⟨-, rfl⟩ : _ ∧ w = .pair c := by simpa [Stmt.writes] using hw
    cases ht
  | insertAccrual a =>
    obtain rfl : w = .accrual a := by simpa [Stmt.writes] using hw
    cases ht
  | coverShortfall r =>
    obtain rfl : w = .shortfall r := by simpa [Stmt.writes] using hw
    cases ht
  | findBalance | findPair | findPairs | findAsset | lockPosition | findOpen | findAccrual =>
    simp [Stmt.writes] at hw

/-! ## Settlements -/

/-- A program that keeps the settlements, as the body of a transaction. -/
abbrev StmtSafe (i : ι) (Q : Except MarginError α → MarginServer ι → Prop) (p : Tx α)
    (s : MarginServer ι) : Prop :=
  (stmtProtocol ((settlementSpec ι).protocol positionRows)).Safe (sql.statements Outcome ι) i Q p s

/-- The transaction closed every position it wrote, which was open before. -/
abbrev Closing (i : ι) (_ : Except MarginError α) (s : MarginServer ι) : Prop :=
  Edited positionRows ClosesOpen s i

theorem tracks_closesOpen : Tracks positionRows RowKey.IsPosition ClosesOpen := by
  intro k hk d d'
  cases k with
  | position id => exact absurd trivial hk
  | exchange k => exact ⟨rfl, rfl⟩
  | pair id => exact ⟨rfl, rfl⟩

theorem safe_lockPosition {id : ℕ} {Q : Except MarginError α → MarginServer ι → Prop}
    {f : Option MarginPosition → Tx α} (h : s.Clear i)
    (hnone : ∀ s' : MarginServer ι, Untouched sql RowKey.IsPosition s' i → StmtSafe i Q (f none) s')
    (hsome : ∀ p (s' : MarginServer ι), p.id = id → HoldsPosition s' i p →
      StmtSafe i Q (f (some p)) s') :
    StmtSafe i Q (.call (.lockPosition id) f) s := by
  refine safe_history_stmt fun s₁ hr _ => ?_
  have huntouched : Untouched sql RowKey.IsPosition s₁ i := untouched_of_clear (h.of_keeps hr.1)
  cases hp : (s₁.view sql i).positions.find id with
  | none =>
    rw [show sql.reply (.lockPosition id) (s₁.view sql i) = none from hp]
    exact hnone _ (huntouched.afterStmt (leaves_lockPosition id))
  | some p =>
    rw [show sql.reply (.lockPosition id) (s₁.view sql i) = some p from hp]
    have hid : p.id = id := Table.key_of_find hp
    have hlock : RowKey.position id ∈ sql.locks (.lockPosition id) (s₁.view sql i) := by
      show _ ∈ if ((s₁.view sql i).positions.find id).isSome then [RowKey.position id] else []
      simp [hp]
    have hheld := holdsRow_of_lock (O := positionRows) (k := .position id) huntouched trivial
      (leaves_lockPosition id) hlock
    rw [show positionRows.obs (.position id) (s₁.view sql i) = some p from hp, ← hid] at hheld
    exact hsome p _ hid (hid ▸ hheld)

theorem safe_settlePositionBalance {q : MarginPosition} {quoteAssetId : ℕ} {equity : ℚ}
    (h : HoldsPosition s i p) :
    StmtSafe i (fun _ s' => HoldsPosition s' i p) (settlePositionBalance q quoteAssetId equity) s := by
  unfold settlePositionBalance
  refine safe_history_stmt fun s₁ hr _ => ?_
  have h₁ := (h.of_holding hr).afterStmt trivial (leaves_exchange (.lockBalance q.userId quoteAssetId))
  cases sql.reply (.exchange (.lockBalance q.userId quoteAssetId)) (s₁.view sql i) with
  | none => exact h₁
  | some b =>
    exact safe_history_stmt fun s₂ hr₂ _ => (h₁.of_holding hr₂).afterStmt trivial
      (leaves_exchange _)

/-- The save of a settled position closes it. -/
theorem safe_savePosition {p' : MarginPosition} (h : HoldsPosition s i p) (hopen : p.Open)
    (hid : p'.id = p.id) (hclosed : ¬ p'.Open) :
    StmtSafe i (Closing i) (savePosition p') s := by
  unfold savePosition
  refine safe_history_stmt fun s₁ hr _ => (h.of_holding hr).edited_afterStmt trivial
    tracks_closesOpen (fun w hw k' _ ht => ?_) ⟨⟨p, rfl, hopen⟩, p', ?_, hclosed⟩
  · obtain rfl : w = .position p' := by simpa [sql, Stmt.writes] using hw
    exact (Option.some.inj ht).symm.trans (congrArg _ hid)
  · rw [← hid]
    exact Table.find_save_self _ _

theorem safe_settle {f : MarginPosition → Tx α} {q p' : MarginPosition} {quoteAssetId : ℕ}
    {equity : ℚ} (h : HoldsPosition s i p) (hopen : p.Open) (hid : p'.id = p.id)
    (hclosed : ¬ p'.Open)
    (hf : ∀ r (s' : MarginServer ι), Edited positionRows ClosesOpen s' i →
      StmtSafe i (Closing i) (f r) s') :
    StmtSafe i (Closing i)
      (settlePositionBalance q quoteAssetId equity >>= fun _ => savePosition p' >>= f) s := by
  refine Protocol.safe_bind (Protocol.safe_mono (fun o s₁ h₁ => ?_)
    (safe_settlePositionBalance h))
  cases o with
  | error e => exact edited_of_untouched h₁.untouched tracks_closesOpen
  | ok u =>
    refine Protocol.safe_bind (Protocol.safe_mono (fun o s₂ h₂ => ?_)
      (safe_savePosition h₁ hopen hid hclosed))
    cases o with
    | error e => exact h₂
    | ok r => exact hf r s₂ h₂

/-- **`closePosition`** closes a position that was open. -/
theorem safe_closePosition {now : ℤ} {positionId : ℕ} {currentPrice : ℚ} (h : s.Clear i) :
    StmtSafe i (Closing i) (closePosition now positionId currentPrice) s := by
  simp only [closePosition, Prog.perform_bind]
  refine safe_lockPosition h (fun s' h' => edited_of_untouched h' tracks_closesOpen) fun p s' _ hp => ?_
  by_cases hopen : p.Open
  swap
  · simp only [hopen, not_false_eq_true, if_true]
    exact edited_of_untouched hp.untouched tracks_closesOpen
  · simp only [hopen, not_true_eq_false, if_false]
    refine safe_history_stmt fun s₁ hr _ => ?_
    have h₁ := (hp.of_holding hr).afterStmt trivial (leaves_findPair p.pairConfigId)
    cases sql.reply (.findPair p.pairConfigId) (s₁.view sql i) with
    | none => exact edited_of_untouched h₁.untouched tracks_closesOpen
    | some c =>
      have hsettle : StmtSafe i (Closing i)
          (settlePositionBalance p c.quoteAssetId (p.equityAt currentPrice) >>= fun _ =>
            savePosition (p.asClosed now currentPrice) >>= pure) _ :=
        safe_settle h₁ hopen (p.asClosed_id now currentPrice)
          (p.asClosed_not_open now currentPrice) fun r s' hs' => hs'
      simp only [bind_pure] at hsettle
      exact hsettle

/-- **`liquidatePosition`** closes a position that was open, whatever it was loaded as. -/
theorem safe_liquidatePosition {now : ℤ} {position : MarginPosition} {pairConfig : MarginPairConfig}
    {currentPrice : ℚ} (h : s.Clear i) :
    StmtSafe i (Closing i) (liquidatePosition now position pairConfig currentPrice) s := by
  simp only [liquidatePosition, Prog.perform_bind]
  refine safe_lockPosition h (fun s' h' => edited_of_untouched h' tracks_closesOpen) fun p s' _ hp => ?_
  by_cases hopen : p.Open
  swap
  · simp only [hopen, not_false_eq_true, if_true]
    exact edited_of_untouched hp.untouched tracks_closesOpen
  · simp only [hopen, not_true_eq_false, if_false]
    exact safe_settle hp hopen (p.asLiquidated_id now currentPrice)
      (p.asLiquidated_not_open now currentPrice) fun r s' hs' => hs'

/-! ## Statements outside a transaction -/

omit [DecidableEq ι] in
theorem kept_of_auto {c : Stmt} (hinv : HistoryInv positionRows (settlementSpec ι) s)
    (hP : SavesOpen i (.auto c) s) (k : RowKey) :
    (settlementSpec ι).good k s.history
        (positionAt k (sql.applyAll (c.writes s.committed) s.committed)) ∧
      (settlementSpec ι).move k (positionAt k s.committed)
        (positionAt k (sql.applyAll (c.writes s.committed) s.committed)) := by
  have hgood : (settlementSpec ι).good k s.history (positionAt k s.committed) := hinv.good k
  by_cases hid : ∃ id, k = .position id ∧ ∃ w ∈ c.writes s.committed, w.target = some k
  swap
  · -- no position is written at `k`
    have hsame : positionAt k (sql.applyAll (c.writes s.committed) s.committed) =
        positionAt k s.committed := by
      cases k with
      | exchange k => rfl
      | pair id => rfl
      | position id =>
        exact positionRows.frame_applyAll (fun w hw ht => hid ⟨id, rfl, w, hw, ht⟩) _
    rw [hsame]
    exact ⟨hgood, (settlementSpec ι).move_refl k _⟩
  · obtain ⟨id, rfl, w, hw, ht⟩ := hid
    obtain ⟨p, rfl, rfl | ⟨rfl, hnone⟩⟩ := writes_position hw ht
    · have hnew : positionAt (.position p.id)
          (sql.applyAll (Stmt.writes (.savePosition p) s.committed) s.committed) = some p :=
        Table.find_save_self _ _
      rw [hnew]
      -- an open entity finds the row open, so that no settled position is opened
      have hstays : ∀ q, positionAt (.position p.id) s.committed = some q → ¬ q.Open → ¬ p.Open :=
        fun q hq hclosed hopen => hclosed (hP p rfl hopen q hq)
      exact ⟨hgood.imp id fun ⟨hone, q, hq, hclosed⟩ => ⟨hone, p, rfl, hstays q hq hclosed⟩,
        fun q hq hclosed => ⟨p, rfl, hstays q hq hclosed⟩⟩
    · have hfree : positionAt (.position p.id) s.committed = none := hnone
      rw [hfree] at hgood ⊢
      refine ⟨.inl ?_, fun q hq => by cases hq⟩
      rcases hgood with hzero | ⟨-, q, hq, -⟩
      · exact hzero
      · cases hq

theorem safe_closing {p : Tx α} {res : α → Outcome} (hp : StmtSafe i (Closing i) p s) :
    ((settlementSpec ι).protocol positionRows).Safe ((sql.machine Outcome ι).restrict SavesOpen) i
      (fun _ s => s.Clear i) (transaction res p) s := by
  refine Protocol.Safe.restrict (Protocol.safe_mono (fun o s hs => hs.1)
    (safe_history_transaction (Q := fun _ => True) ?_))
  exact Protocol.safe_mono (fun o s hs a _ => ⟨⟨ClosesOpen, hs, keeps_closesOpen _⟩, trivial⟩) hp

/-- The parts of the sessions keep the settlements. -/
theorem partsSafe_settlements (i : ι) : PartsSafe ((settlementSpec ι).protocol positionRows)
    ((sql.machine Outcome ι).restrict SavesOpen) (fun s => s.Clear i) i where
  bare := fun _ _ hs => Protocol.safe_mono (fun _ _ h => h.1)
    (safe_history_auto (Q := fun _ => True) hs fun _ hinv hP => ⟨kept_of_auto hinv hP, trivial⟩)
  closePosition := fun _ _ _ _ hs => safe_closing (safe_closePosition hs)
  liquidatePosition := fun _ _ _ _ _ hs => safe_closing (safe_liquidatePosition hs)

/-! ## Runs -/

variable {calls : ι → Call} {d₀ : MarginDb} {c c' : Serving ι}

theorem allSafe_run {is : List ι} (hr : (serving calls d₀).run (sql.machine Outcome ι) is = some c)
    (ha : (serving calls d₀).Admitted (sql.machine Outcome ι) SavesOpen is) :
    ((settlementSpec ι).protocol positionRows).AllSafe ((sql.machine Outcome ι).restrict SavesOpen)
      (fun i _ s => s.Clear i) c := by
  refine Protocol.run_safe (fun i o s s' hs hr => hs.of_keeps hr.1) ?_ (Config.run_restrict hr ha)
  refine ⟨⟨Server.owned_idle d₀, fun k => ?_⟩, fun i =>
    (partsSafe_settlements i).session (calls i) _ (Server.clear_idle d₀)⟩
  cases k with
  | exchange k => trivial
  | pair id => trivial
  | position id => exact .inl rfl

/-- **A position is settled at most once**, and a position that is closed or liquidated is not
opened again, as long as every open position saved outside a transaction finds the stored position
open. -/
theorem settled_at_most_once {is js : List ι}
    (hr : (serving calls d₀).run (sql.machine Outcome ι) is = some c)
    (ha : (serving calls d₀).Admitted (sql.machine Outcome ι) SavesOpen is)
    (hr' : c.run (sql.machine Outcome ι) js = some c')
    (ha' : c.Admitted (sql.machine Outcome ι) SavesOpen js) (id : ℕ) :
    (settlements id c'.shared.history).length ≤ 1 ∧
      ∀ p ∈ c.shared.committed.positions.find id, ¬ p.Open →
        ∃ q ∈ c'.shared.committed.positions.find id, ¬ q.Open := by
  obtain ⟨hsafe, hmoved⟩ := RowSpec.run_moved (fun i o s s' hs hr => hs.of_keeps hr.1)
    (allSafe_run hr ha) (Config.run_restrict hr' ha')
  constructor
  · rcases hsafe.1.good (.position id) with hzero | ⟨hone, -⟩
    · exact hzero.le.trans zero_le_one
    · exact hone.le
  · intro p hp hclosed
    exact hmoved (.position id) p hp hclosed

end Rows

/-- A position without a gain or a loss at the current price, with its collateral locked. -/
def heldDb : MarginDb :=
  { shortDb with
    exchange :=
      ⟨.empty, Table.empty.save { userId := 1, assetId := 2, balance := 200, lockedBalance := 100 },
        [], [⟨1, 100⟩], []⟩
    positions := Table.empty.save
      (newPosition 1 ⟨1, 1, .long, 100, 1, none⟩ defaultPair 100) }

/-- A run of the monitor, and two calls that close the position. -/
def monitored : Fin 3 → Call
  | 0 => .monitorPositions fun _ => 0
  | _ => .closePosition 0 1 100

/-- The monitor ends before the position is closed, and the second close is refused. -/
theorem settled_at_most_once_monitored : ∃ c c',
    (serving monitored heldDb).run (sql.machine Outcome (Fin 3)) [0, 0, 0, 0, 1, 1, 1, 1, 1, 1] =
      some c ∧ c.run (sql.machine Outcome (Fin 3)) [2, 2] = some c' ∧
      (settlements 1 c'.shared.history).length ≤ 1 ∧
      ∀ p ∈ c.shared.committed.positions.find 1, ¬ p.Open →
        ∃ q ∈ c'.shared.committed.positions.find 1, ¬ q.Open := by
  have hrun : ((serving monitored heldDb).run (sql.machine Outcome (Fin 3))
      [0, 0, 0, 0, 1, 1, 1, 1, 1, 1]).any fun c =>
        (c.run (sql.machine Outcome (Fin 3)) [2, 2]).isSome ∧
          c.Admitted (sql.machine Outcome (Fin 3)) SavesOpen [2, 2] := by
    decide +kernel
  obtain ⟨c, hc, hrest⟩ := (Option.any_eq_true _ _).mp hrun
  obtain ⟨hsome, hadmitted⟩ := of_decide_eq_true hrest
  obtain ⟨c', hc'⟩ := Option.isSome_iff_exists.mp hsome
  exact ⟨c, c', hc, hc', settled_at_most_once hc (by decide +kernel) hc' hadmitted 1⟩

/-- **A closed position is opened and settled again.** The monitor has loaded the position before it
is closed, and saves it as it was. -/
theorem settled_twice : ∃ c c' c'',
    (serving monitored heldDb).run (sql.machine Outcome (Fin 3)) [0, 1, 1, 1, 1, 1, 1] = some c ∧
      c.run (sql.machine Outcome (Fin 3)) [0, 0, 0] = some c' ∧
      c'.run (sql.machine Outcome (Fin 3)) [2, 2, 2, 2, 2, 2] = some c'' ∧
      (c.shared.committed.positions.find 1).map (·.status) = some .closed ∧
      (c'.shared.committed.positions.find 1).map (·.status) = some .isOpen ∧
      (settlements 1 c''.shared.history).length = 2 := by
  have hrun : ((serving monitored heldDb).run (sql.machine Outcome (Fin 3))
      [0, 1, 1, 1, 1, 1, 1]).any fun c =>
        (c.shared.committed.positions.find 1).map (·.status) = some .closed ∧
          (c.run (sql.machine Outcome (Fin 3)) [0, 0, 0]).any fun c' =>
            (c'.shared.committed.positions.find 1).map (·.status) = some .isOpen ∧
              (c'.run (sql.machine Outcome (Fin 3)) [2, 2, 2, 2, 2, 2]).any fun c'' =>
                (settlements 1 c''.shared.history).length = 2 := by
    decide +kernel
  obtain ⟨c, hc, hrest⟩ := (Option.any_eq_true _ _).mp hrun
  obtain ⟨hclosed, hrest⟩ := of_decide_eq_true hrest
  obtain ⟨c', hc', hrest⟩ := (Option.any_eq_true _ _).mp hrest
  obtain ⟨hopen, hrest⟩ := of_decide_eq_true hrest
  obtain ⟨c'', hc'', htwice⟩ := (Option.any_eq_true _ _).mp hrest
  exact ⟨c, c', c'', hc, hc', hc'', hclosed, hopen, of_decide_eq_true htwice⟩

end Margin
