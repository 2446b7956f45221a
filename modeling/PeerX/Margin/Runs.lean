import PeerX.Foundations.Runs
import PeerX.Margin.Engine
import PeerX.Orders.Exchange

/-!
# Margin: runs of the margin and the order services

The system whose steps are whole transactions: the steps of the order services, a position that is
opened, closed or liquidated, and a run of the interest service. A rejected request leaves the
tables alone.
-/

namespace Margin

open Relational Concurrency
open Orders (UserBalance)

/-- The engine's call of `liquidatePosition`: the position and its pair are loaded first. -/
def liquidateLoaded (now : ℤ) (positionId : ℕ) (currentPrice : ℚ) : Tx Unit := do
  let positions ← query .findOpen
  match positions.find? (·.id = positionId) with
  | none => return ()
  | some position =>
    match ← query (.findPair position.pairConfigId) with
    | none => return ()
    | some pairConfig =>
      let _ ← liquidatePosition now position pairConfig currentPrice
      return ()

/-- A request. Only a validated body reaches `openPosition`. -/
inductive Event : Type
  | order (e : Orders.Event)
  | openPosition (id : ℕ) (dto : OpenMarginPositionDto) (valid : dto.Valid)
  | closePosition (now : ℤ) (positionId : ℕ) (currentPrice : ℚ)
  | liquidatePosition (now : ℤ) (positionId : ℕ) (currentPrice : ℚ)
  | accrueDailyInterest (clock : ℕ → ℤ) (today : ℕ)

/-- The tables after a transaction that is not overlapped by another one. -/
def MarginDb.after {α : Type} (d : MarginDb) (p : Tx α) : MarginDb := (p.atomically sql.handler d).2

/-- The tables after an event. -/
def step (d : MarginDb) : Event → MarginDb
  | .order e => { d with exchange := Orders.step d.exchange e }
  | .openPosition id dto _ => d.after (openPosition id dto)
  | .closePosition now positionId currentPrice => d.after (closePosition now positionId currentPrice)
  | .liquidatePosition now positionId currentPrice =>
    d.after (liquidateLoaded now positionId currentPrice)
  | .accrueDailyInterest clock today => d.after (accrueDailyInterest clock today)

theorem MarginDb.after_cases {α : Type} (d : MarginDb) (p : Tx α) :
    d.after p = d ∨ ∃ a, p.eval sql.handler d = (.ok a, d.after p) := by
  rcases Prog.atomically_cases sql.handler p d with ⟨a, d', heval, hatom⟩ | ⟨e, -, hatom⟩
  · right
    have hafter : d.after p = d' := by rw [MarginDb.after, hatom]
    exact ⟨a, hafter ▸ heval⟩
  · left
    rw [MarginDb.after, hatom]

theorem MarginDb.after_of_eval {α : Type} {d d' : MarginDb} {p : Tx α} {a : α}
    (h : p.eval sql.handler d = (.ok a, d')) : d.after p = d' := by
  simp [MarginDb.after, Prog.atomically, h]

/-! ## What a transaction does -/

/-- The balances after a settlement; nothing without a balance row. -/
def settledBalances (balances : Table UserBalance.key) (key : ℕ × ℕ) (collateral equity : ℚ) :
    Table UserBalance.key :=
  match balances.find key with
  | none => balances
  | some b => balances.save (settledBalance b collateral equity)

/-- The tables with other balances. -/
def MarginDb.withBalances (d : MarginDb) (balances : Table UserBalance.key) : MarginDb :=
  { d with exchange := { d.exchange with balances := balances } }

/-- The tables after the position `p`, of the quote asset `quoteAssetId`, was settled for `equity`
and saved as `p'`. -/
def MarginDb.settle (d : MarginDb) (p p' : MarginPosition) (quoteAssetId : ℕ) (equity : ℚ) :
    MarginDb :=
  { d.withBalances
      (settledBalances d.exchange.balances (p.userId, quoteAssetId) p.collateral equity) with
    positions := d.positions.save p' }

/-- The tables after a position was opened over the balance row `b`. -/
def MarginDb.enter (d : MarginDb) (p : MarginPosition) (b : UserBalance) : MarginDb :=
  { d.withBalances (d.exchange.balances.save (b.lock p.collateral)) with
    positions := d.positions.save p }

/-- The tables after a position was charged with the interest of `today`. -/
def MarginDb.charge (d : MarginDb) (p : MarginPosition) (c : MarginPairConfig) (now : ℤ)
    (today : ℕ) : MarginDb :=
  { d with
    positions := d.positions.save (p.charged c now)
    accruals := d.accruals ++ [p.accrual c today] }

/-- What `openPosition` checks. -/
structure Opens (d : MarginDb) (id : ℕ) (dto : OpenMarginPositionDto) (c : MarginPairConfig)
    (entryPrice : ℚ) (b : UserBalance) : Prop where
  pair : d.pairs.find dto.pairConfigId = some c
  enabled : c.isEnabled = true
  leverage : dto.leverage ≤ calculateEffectiveMaxLeverage c
  initialMargin : c.initialMarginRate ≤ 1 / dto.leverage + 1 / 100000000
  price : ∃ asset, d.exchange.assets.find? (·.id = c.baseAssetId) = some asset ∧
    entryPrice = dto.entryPrice.getD asset.price
  entryPrice_pos : 0 < entryPrice
  balance : d.exchange.balances.find (dto.userId, c.quoteAssetId) = some b
  available : dto.collateral ≤ b.availableBalance
  fresh : d.positions.find id = none

/-- The open position `p` is stored, with its pair `c`. -/
structure Running (d : MarginDb) (p : MarginPosition) (c : MarginPairConfig) : Prop where
  position : d.positions.find p.id = some p
  isOpen : p.Open
  pair : d.pairs.find p.pairConfigId = some c

/-- A charge of an accrual run. -/
inductive Charge (clock : ℕ → ℤ) (today : ℕ) (d : MarginDb) : MarginDb → Prop
  | intro {p : MarginPosition} {c : MarginPairConfig} (hrun : Running d p c)
      (hborrowed : 0 < p.borrowedAmount)
      (hnone : ∀ a ∈ d.accruals, ¬ (a.positionId = p.id ∧ a.accrualDate = today)) :
      Charge clock today d (d.charge p c (clock p.id) today)

/-- What an event does to the tables. -/
inductive Moved (d : MarginDb) : Event → MarginDb → Prop
  | order (e : Orders.Event) : Moved d (.order e) { d with exchange := Orders.step d.exchange e }
  | opened {id : ℕ} {dto : OpenMarginPositionDto} {valid : dto.Valid} {c : MarginPairConfig}
      {entryPrice : ℚ} {b : UserBalance} (h : Opens d id dto c entryPrice b) :
      Moved d (.openPosition id dto valid) (d.enter (newPosition id dto c entryPrice) b)
  | closed {now : ℤ} {currentPrice : ℚ} {p : MarginPosition} {c : MarginPairConfig}
      (h : Running d p c) :
      Moved d (.closePosition now p.id currentPrice)
        (d.settle p (p.asClosed now currentPrice) c.quoteAssetId (p.equityAt currentPrice))
  | liquidated {now : ℤ} {currentPrice : ℚ} {p : MarginPosition} {c : MarginPairConfig}
      (h : Running d p c) :
      Moved d (.liquidatePosition now p.id currentPrice)
        (d.settle p (p.asLiquidated now currentPrice) c.quoteAssetId
          (max 0 (p.equityAt currentPrice)))
  | accrued {clock : ℕ → ℤ} {today : ℕ} {d' : MarginDb}
      (h : Relation.ReflTransGen (Charge clock today) d d') :
      Moved d (.accrueDailyInterest clock today) d'

section Inversion

variable {d d' : MarginDb}

theorem eval_settlePositionBalance (p : MarginPosition) (quoteAssetId : ℕ) (equity : ℚ) :
    (settlePositionBalance p quoteAssetId equity).eval sql.handler d = (.ok (), d.withBalances
      (settledBalances d.exchange.balances (p.userId, quoteAssetId) p.collateral equity)) := by
  simp only [settlePositionBalance, Prog.perform_bind, Prog.eval_call, handler_lockBalance,
    settledBalances]
  cases d.exchange.balances.find (p.userId, quoteAssetId) with
  | none => rfl
  | some b => rfl

/-- The settlement and the save that follows it, run alone. -/
theorem eval_settle {α : Type} (p p' : MarginPosition) (quoteAssetId : ℕ) (equity : ℚ)
    (f : MarginPosition → Tx α) :
    (settlePositionBalance p quoteAssetId equity >>= fun _ => savePosition p' >>= f).eval sql.handler
      d = (f p').eval sql.handler (d.settle p p' quoteAssetId equity) := by
  rw [Prog.eval_bind, eval_settlePositionBalance]
  simp only [savePosition, Prog.perform_bind, Prog.call_bind, Prog.eval_call, handler_savePosition]
  rfl

/-- **An open position with its pair is closed.** -/
theorem eval_closePosition_of_open {p : MarginPosition} {c : MarginPairConfig} (h : Running d p c)
    (now : ℤ) (currentPrice : ℚ) :
    (closePosition now p.id currentPrice).eval sql.handler d =
      (.ok (p.asClosed now currentPrice),
        d.settle p (p.asClosed now currentPrice) c.quoteAssetId (p.equityAt currentPrice)) := by
  simp only [closePosition, Prog.perform_bind, Prog.eval_call, handler_lockPosition, h.position,
    h.isOpen, not_true_eq_false, if_false, handler_findPair, h.pair]
  have hsettle := eval_settle (d := d) p (p.asClosed now currentPrice) c.quoteAssetId
    (p.equityAt currentPrice) pure
  simp only [bind_pure] at hsettle
  exact hsettle

theorem closePosition_ok {now : ℤ} {positionId : ℕ} {currentPrice : ℚ} {r : MarginPosition}
    (h : (closePosition now positionId currentPrice).eval sql.handler d = (.ok r, d')) :
    ∃ p c, p.id = positionId ∧ Running d p c ∧
      d' = d.settle p (p.asClosed now currentPrice) c.quoteAssetId (p.equityAt currentPrice) := by
  cases hp : d.positions.find positionId with
  | none => simp [closePosition, hp] at h
  | some p =>
    obtain rfl : p.id = positionId := Table.key_of_find hp
    by_cases hopen : p.Open
    · cases hc : d.pairs.find p.pairConfigId with
      | none => simp [closePosition, hp, hopen, hc] at h
      | some c =>
        rw [eval_closePosition_of_open ⟨hp, hopen, hc⟩] at h
        exact ⟨p, c, rfl, ⟨hp, hopen, hc⟩, (Prod.mk.inj h).2.symm⟩
    · simp [closePosition, hp, hopen] at h

/-- An open position is liquidated, whatever it was loaded as. -/
theorem eval_liquidatePosition_loaded {p loaded : MarginPosition} (hp : d.positions.find p.id = some p)
    (hopen : p.Open) (hloaded : loaded.id = p.id) (c : MarginPairConfig) (now : ℤ) (currentPrice : ℚ) :
    (liquidatePosition now loaded c currentPrice).eval sql.handler d =
      (.ok (p.asLiquidated now currentPrice,
          if p.equityAt currentPrice < 0 then |p.equityAt currentPrice| else 0),
        d.settle p (p.asLiquidated now currentPrice) c.quoteAssetId
          (max 0 (p.equityAt currentPrice))) := by
  simp only [liquidatePosition, Prog.perform_bind, Prog.eval_call, handler_lockPosition, hloaded, hp,
    hopen, not_true_eq_false, if_false]
  rw [eval_settle]
  rfl

/-- The same for an entity that is still the stored one. -/
theorem eval_liquidatePosition_of_open {p : MarginPosition} (hp : d.positions.find p.id = some p)
    (hopen : p.Open) (c : MarginPairConfig) (now : ℤ) (currentPrice : ℚ) :
    (liquidatePosition now p c currentPrice).eval sql.handler d =
      (.ok (p.asLiquidated now currentPrice,
          if p.equityAt currentPrice < 0 then |p.equityAt currentPrice| else 0),
        d.settle p (p.asLiquidated now currentPrice) c.quoteAssetId
          (max 0 (p.equityAt currentPrice))) :=
  eval_liquidatePosition_loaded hp hopen rfl c now currentPrice

theorem liquidateLoaded_ok {now : ℤ} {positionId : ℕ} {currentPrice : ℚ} {u : Unit}
    (h : (liquidateLoaded now positionId currentPrice).eval sql.handler d = (.ok u, d')) :
    d' = d ∨ ∃ p c, p.id = positionId ∧ Running d p c ∧
      d' = d.settle p (p.asLiquidated now currentPrice) c.quoteAssetId
        (max 0 (p.equityAt currentPrice)) := by
  simp only [liquidateLoaded, Prog.perform_bind, Prog.eval_call, handler_findOpen] at h
  cases hfind : (openPositions d.positions).find? (·.id = positionId) with
  | none =>
    left
    simp only [hfind, Prog.eval_pure] at h
    exact (Prod.mk.inj h).2.symm
  | some p =>
    have hid : p.id = positionId := by simpa using List.find?_some hfind
    have hmem : p ∈ d.positions.rows ∧ p.Open := by
      simpa [openPositions] using List.mem_of_find?_eq_some hfind
    have hp : d.positions.find p.id = some p := Table.find_of_mem hmem.1
    simp only [hfind, Prog.eval_call, handler_findPair] at h
    cases hc : d.pairs.find p.pairConfigId with
    | none =>
      left
      simp only [hc, Prog.eval_pure] at h
      exact (Prod.mk.inj h).2.symm
    | some c =>
      right
      refine ⟨p, c, hid, ⟨hp, hmem.2, hc⟩, ?_⟩
      simp only [hc] at h
      rw [Prog.eval_bind, eval_liquidatePosition_of_open hp hmem.2] at h
      exact (Prod.mk.inj h).2.symm

/-- The checks of `openPosition` read the pair and the price, and write nothing. -/
theorem checkOpen_ok {dto : OpenMarginPositionDto} {c : MarginPairConfig} {entryPrice : ℚ}
    (h : (checkOpen dto).eval sql.handler d = (.ok (c, entryPrice), d')) :
    d' = d ∧ d.pairs.find dto.pairConfigId = some c ∧ c.isEnabled = true ∧
      dto.leverage ≤ calculateEffectiveMaxLeverage c ∧
      c.initialMarginRate ≤ 1 / dto.leverage + 1 / 100000000 ∧
      (∃ asset, d.exchange.assets.find? (·.id = c.baseAssetId) = some asset ∧
        entryPrice = dto.entryPrice.getD asset.price) ∧ 0 < entryPrice := by
  cases hc : d.pairs.find dto.pairConfigId with
  | none => simp [checkOpen, getById, hc] at h
  | some c' =>
    simp only [checkOpen, getById, Prog.perform_bind, Prog.call_bind, Prog.eval_call,
      handler_findPair, hc, pure_bind] at h
    -- each check that fails throws before the next statement
    by_cases henabled : c'.isEnabled = true
    swap
    · simp [henabled] at h
    by_cases hmax : calculateEffectiveMaxLeverage c' < dto.leverage
    · simp [henabled, hmax] at h
    simp only [henabled, not_true_eq_false, if_false, hmax] at h
    by_cases hinit : 1 / dto.leverage + 1 / 100000000 < c'.initialMarginRate
    · simp only [hinit, if_true, Prog.throw_bind, Prog.eval_throw] at h
      cases (Prod.mk.inj h).1
    simp only [hinit, if_false, Prog.eval_call, handler_findAsset] at h
    cases hasset : d.exchange.assets.find? (·.id = c'.baseAssetId) with
    | none => simp [hasset] at h
    | some asset =>
      simp only [hasset] at h
      by_cases hprice : dto.entryPrice.getD asset.price ≤ 0
      · simp [hprice, Except.map] at h
      · simp only [hprice, if_false, Prog.eval_pure] at h
        obtain ⟨hr, rfl⟩ := Prod.mk.inj h
        obtain ⟨rfl, rfl⟩ := Prod.mk.inj (Except.ok.inj hr)
        exact ⟨rfl, rfl, henabled, not_lt.mp hmax, not_lt.mp hinit, ⟨asset, hasset, rfl⟩,
          not_le.mp hprice⟩

theorem openPosition_ok {id : ℕ} {dto : OpenMarginPositionDto} {r : MarginPosition}
    (h : (openPosition id dto).eval sql.handler d = (.ok r, d')) :
    ∃ c entryPrice b, Opens d id dto c entryPrice b ∧ r = newPosition id dto c entryPrice ∧
      d' = d.enter (newPosition id dto c entryPrice) b := by
  obtain ⟨⟨c, entryPrice⟩, d₁, hcheck, hlock⟩ := Prog.eval_bind_ok _ h
  obtain ⟨rfl, hpair, henabled, hmax, hinit, hasset, hpos⟩ := checkOpen_ok hcheck
  refine ⟨c, entryPrice, ?_⟩
  simp only [lockCollateral, Prog.perform_bind, Prog.eval_call, handler_lockBalance] at hlock
  cases hb : d₁.exchange.balances.find
      ((newPosition id dto c entryPrice).userId, c.quoteAssetId) with
  | none => simp [hb] at hlock
  | some b =>
    simp only [hb] at hlock
    by_cases havail : b.availableBalance < (newPosition id dto c entryPrice).collateral
    · simp [havail] at hlock
    · simp only [havail, if_false, Prog.eval_call, handler_saveBalance,
        handler_insertPosition] at hlock
      by_cases hnew : (d₁.positions.find (newPosition id dto c entryPrice).id).isNone
      · simp only [hnew, if_true] at hlock
        obtain ⟨hr, hd⟩ := Prod.mk.inj hlock
        exact ⟨b, ⟨hpair, henabled, hmax, hinit, hasset, hpos, hb, not_lt.mp havail,
          Option.isNone_iff_eq_none.mp hnew⟩, (Except.ok.inj hr).symm, hd.symm⟩
      · simp [hnew] at hlock

/-- An opening that passes the checks is accepted. -/
theorem eval_openPosition_of_opens {id : ℕ} {dto : OpenMarginPositionDto} {c : MarginPairConfig} {entryPrice : ℚ}
    {b : UserBalance} (h : Opens d id dto c entryPrice b) :
    (openPosition id dto).eval sql.handler d =
      (.ok (newPosition id dto c entryPrice), d.enter (newPosition id dto c entryPrice) b) := by
  obtain ⟨asset, hasset, rfl⟩ := h.price
  have hcheck : (checkOpen dto).eval sql.handler d = (.ok (c, dto.entryPrice.getD asset.price), d) := by
    simp only [checkOpen, getById, Prog.perform_bind, Prog.call_bind, Prog.eval_call, handler_findPair, h.pair,
      pure_bind, h.enabled, not_true_eq_false, if_false, h.leverage.not_gt, h.initialMargin.not_gt, handler_findAsset,
      hasset, h.entryPrice_pos.not_ge]
    rfl
  have hfresh : d.positions.find (newPosition id dto c (dto.entryPrice.getD asset.price)).id = none := h.fresh
  have hbalance : d.exchange.balances.find
      ((newPosition id dto c (dto.entryPrice.getD asset.price)).userId, c.quoteAssetId) = some b := h.balance
  have havailable : ¬ b.availableBalance < (newPosition id dto c (dto.entryPrice.getD asset.price)).collateral :=
    h.available.not_gt
  rw [openPosition, Prog.eval_bind, hcheck]
  simp only [lockCollateral, Prog.perform_bind, Prog.eval_call, handler_lockBalance, hbalance, havailable, if_false,
    handler_saveBalance, handler_insertPosition, hfresh, Option.isNone_none, if_true]
  rfl

/-! ## Accrual runs -/

variable {clock : ℕ → ℤ} {today : ℕ}

variable (clock today) in
/-- One position of an accrual run is charged, or left alone. -/
theorem eval_accruePosition {p : MarginPosition} (hp : d.positions.find p.id = some p)
    (hopen : p.Open) : ∃ d', (accruePosition clock today p).eval sql.handler d = (.ok (), d') ∧
      (d' = d ∨ ∃ c, d.pairs.find p.pairConfigId = some c ∧
        d' = d.charge p c (clock p.id) today ∧ Charge clock today d d') := by
  by_cases hborrowed : p.borrowedAmount ≤ 0
  · exact ⟨d, by simp [accruePosition, hborrowed], .inl rfl⟩
  simp only [accruePosition, hborrowed, if_false, Prog.perform_bind, Prog.eval_call,
    handler_findPair]
  cases hc : d.pairs.find p.pairConfigId with
  | none => exact ⟨d, rfl, .inl rfl⟩
  | some c =>
    simp only [Prog.eval_call, handler_findAccrual]
    cases hfound : d.accruals.find? fun a => a.positionId = p.id ∧ a.accrualDate = today with
    | some a => exact ⟨d, rfl, .inl rfl⟩
    | none =>
      have hnone : ∀ a ∈ d.accruals, ¬ (a.positionId = p.id ∧ a.accrualDate = today) := by
        intro a ha
        simpa using List.find?_eq_none.mp hfound a ha
      exact ⟨d.charge p c (clock p.id) today, rfl, .inr ⟨c, rfl, rfl,
        .intro ⟨hp, hopen, hc⟩ (not_le.mp hborrowed) hnone⟩⟩

/-- The loop of an accrual run makes one charge after the other. -/
theorem eval_accrueLoop {l : List MarginPosition} (hnodup : (l.map (·.id)).Nodup)
    (hl : ∀ p ∈ l, d.positions.find p.id = some p ∧ p.Open) :
    ∃ d', (accrueLoop clock today l).eval sql.handler d = (.ok (), d') ∧
      Relation.ReflTransGen (Charge clock today) d d' := by
  induction l generalizing d with
  | nil => exact ⟨d, rfl, .refl⟩
  | cons p l ih =>
    obtain ⟨hp, hl⟩ := List.forall_mem_cons.mp hl
    obtain ⟨hnot, hnodup⟩ := List.nodup_cons.mp hnodup
    obtain ⟨d₁, heval, hd₁⟩ := eval_accruePosition clock today hp.1 hp.2
    -- the positions that are left are stored as they were loaded
    have hrest : ∀ q ∈ l, d₁.positions.find q.id = some q ∧ q.Open := by
      intro q hq
      rcases hd₁ with rfl | ⟨c, -, rfl, -⟩
      · exact hl q hq
      · refine ⟨?_, (hl q hq).2⟩
        have hne : q.id ≠ p.id := by
          intro he
          exact hnot (List.mem_map.mpr ⟨q, hq, he⟩)
        simp only [MarginDb.charge]
        rw [Table.find_save_of_ne _ (r := p.charged c (clock p.id)) hne]
        exact (hl q hq).1
    obtain ⟨d', heval', hd'⟩ := ih hnodup hrest
    refine ⟨d', ?_, ?_⟩
    · rw [accrueLoop, Prog.eval_bind, heval]
      exact heval'
    · rcases hd₁ with rfl | ⟨c, -, -, hcharge⟩
      · exact hd'
      · exact .head hcharge hd'

theorem openPositions_nodup (positions : Table MarginPosition.id) :
    ((openPositions positions).map (·.id)).Nodup :=
  positions.nodup.sublist (List.filter_sublist.map _)

variable (d clock today) in
/-- A run of the interest service succeeds, and makes one charge after the other. -/
theorem eval_accrueDailyInterest : ∃ d', (accrueDailyInterest clock today).eval sql.handler d =
    (.ok (), d') ∧ Relation.ReflTransGen (Charge clock today) d d' := by
  simp only [accrueDailyInterest, Prog.perform_bind, Prog.eval_call, handler_findOpen]
  refine eval_accrueLoop (openPositions_nodup d.positions) fun p hp => ?_
  have hmem : p ∈ d.positions.rows ∧ p.Open := by simpa [openPositions] using hp
  exact ⟨Table.find_of_mem hmem.1, hmem.2⟩

end Inversion

/-- **A step**: the request is rejected and the tables stay as they are, or it moves them. -/
theorem step_moved (d : MarginDb) (e : Event) : step d e = d ∨ Moved d e (step d e) := by
  cases e with
  | order e => exact .inr (.order e)
  | openPosition id dto valid =>
    rcases d.after_cases (openPosition id dto) with h | ⟨r, h⟩
    · exact .inl h
    · obtain ⟨c, entryPrice, b, hopens, -, hd⟩ := openPosition_ok h
      right
      rw [show step d (.openPosition id dto valid) = d.enter (newPosition id dto c entryPrice) b
        from hd]
      exact .opened hopens
  | closePosition now positionId currentPrice =>
    rcases d.after_cases (closePosition now positionId currentPrice) with h | ⟨r, h⟩
    · exact .inl h
    · obtain ⟨p, c, rfl, hrun, hd⟩ := closePosition_ok h
      right
      rw [show step d (.closePosition now p.id currentPrice) = _ from hd]
      exact .closed hrun
  | liquidatePosition now positionId currentPrice =>
    rcases d.after_cases (liquidateLoaded now positionId currentPrice) with h | ⟨r, h⟩
    · exact .inl h
    · -- a position that is not to be liquidated is answered without a write
      rcases liquidateLoaded_ok h with hd | ⟨p, c, rfl, hrun, hd⟩
      · exact .inl hd
      · right
        rw [show step d (.liquidatePosition now p.id currentPrice) = _ from hd]
        exact .liquidated hrun
  | accrueDailyInterest clock today =>
    obtain ⟨d', heval, hcharges⟩ := eval_accrueDailyInterest d clock today
    right
    rw [show step d (.accrueDailyInterest clock today) = d' from MarginDb.after_of_eval heval]
    exact .accrued hcharges

/-! ## Small runs -/

/-- A pair with the values of a new configuration. -/
def defaultPair : MarginPairConfig where
  id := 1
  baseAssetId := 1
  quoteAssetId := 2
  maxLeverage := 10
  initialMarginRate := 1 / 10
  maintenanceMarginRate := 1 / 20
  dailyInterestRateBps := 10
  volatilityPct := 50
  volatilityLeverageFactor := 2
  marginCallThresholdRatio := 23 / 20
  isEnabled := true

/-- One pair, whose base asset costs 100, and a hundred units of its quote asset held by user 1. -/
def shortDb : MarginDb where
  exchange :=
    ⟨.empty, Table.empty.save { userId := 1, assetId := 2, balance := 100, lockedBalance := 0 }, [],
      [⟨1, 100⟩], []⟩
  pairs := Table.empty.save defaultPair
  positions := .empty
  accruals := []
  shortfalls := []

end Margin
