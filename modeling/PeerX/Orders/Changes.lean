import PeerX.Orders.Exchange
import Mathlib.Logic.Relation

/-!
# Orders: what a transaction can change

Every transaction of the order services is a sequence of single changes of the tables: an order is
entered, cancelled, amended or touched by the stop monitor, or a taker and a maker are filled
against each other. The changes are stated on the tables in which the taker is stored as the
matching loop holds it; an invariant of the services is then a property that each change preserves.

## Main results

* `entry_of_eval`: the entry of an event is an `Entry`
* `tx_entry`: a transaction is an entry, followed by the fills of the taker it hands over
* `step_changes`: every step is a sequence of changes
-/

namespace Orders

open Relational Concurrency

/-! ## Reserved balances -/

/-- The balances after `amount` more is reserved for the order `o`: nothing for a BUY order. -/
def Reserves (d : OrdersDb) (o : Order) (amount : ℚ) (balances : Table UserBalance.key) : Prop :=
  match o.side with
  | .buy => balances = d.balances
  | .sell => ∃ b, d.balances.find (o.userId, o.assetId) = some b ∧
      (0 < amount → amount ≤ b.availableBalance) ∧ balances = d.balances.save (b.lock amount)

/-- The balances after a cancelled order `o` released its remainder, clamped at zero. -/
def Releases (d : OrdersDb) (o : Order) (balances : Table UserBalance.key) : Prop :=
  match o.side with
  | .buy => balances = d.balances
  | .sell =>
    match d.balances.find (o.userId, o.assetId) with
    | none => balances = d.balances
    | some b => balances = d.balances.save
        { b with lockedBalance := max 0 (b.lockedBalance - o.remainingAmount) }

/-! ## Entries -/

/-- A freshly created order. -/
structure Order.Fresh (o : Order) : Prop where
  status : o.status = .pending
  amount_pos : 0 < o.amount
  filledAmount : o.filledAmount = 0
  averageFillPrice : o.averageFillPrice = none
  price : o.type = .limit → o.price.isSome

/-- The order with the requested values. -/
def Order.amendedBy (o : Order) (dto : ModifyOrderDto) : Order :=
  { o with
    amount := dto.amount.getD o.amount
    price := dto.price.or o.price
    stopPrice := dto.stopPrice.or o.stopPrice
    trailingDelta := dto.trailingDelta.or o.trailingDelta }

/-- The order with a trigger time or a reference price of the stop monitor. -/
def Order.touchedBy (o : Order) (triggeredAt : Option ℤ) (reference : Option ℚ) : Order :=
  { o with triggeredAt := triggeredAt, trailingReferencePrice := reference }

/-- What `modifyOrder` checks of a request on the order `o`. -/
structure Admits (o : Order) (userId : ℕ) (dto : ModifyOrderDto) : Prop where
  id : o.id = dto.orderId
  owner : o.userId = userId
  isOpen : o.Open
  amount : ∀ a, dto.amount = some a → o.filledAmount ≤ a
  price : ∀ p, dto.price = some p → o.type = .limit
  stopPrice : ∀ p, dto.stopPrice = some p → o.type = .stopLoss ∨ o.type = .takeProfit
  trailingDelta : ∀ x, dto.trailingDelta = some x → o.type = .trailingStop

/-- The taker a placed order becomes. -/
def Order.activeTaker (o : Order) : Option Order :=
  if o.type = .market ∨ o.type = .limit then some o else none

/-- The taker a modified order becomes. -/
def Order.amendedTaker (o : Order) : Option Order := if o.type = .limit then some o else none

/-- **The entry of a transaction**: the tables with the taker stored as it is handed over, and the
taker. -/
inductive Entry (now : ℤ) (d : OrdersDb) : Request → OrdersDb → Option Order → Prop
  | enter {id userId : ℕ} {dto : CreateOrderDto} {valid : dto.Valid} {order : Order}
      {balances : Table UserBalance.key} (hnew : order = newOrder id now userId dto)
      (hid : d.orders.find order.id = none) (hfresh : order.Fresh)
      (hres : Reserves d order order.amount balances) :
      Entry now d (.place id userId dto valid)
        { d with orders := d.orders.save order, balances := balances } order.activeTaker
  | cancel {userId orderId : ℕ} {o : Order} {balances : Table UserBalance.key}
      (ho : o ∈ d.orders.rows) (hid : o.id = orderId) (howner : o.userId = userId)
      (hstatus : o.status ≠ .filled ∧ o.status ≠ .cancelled) (hrel : Releases d o balances) :
      Entry now d (.cancel userId orderId)
        { d with orders := d.orders.save (o.asCancelled now), balances := balances } none
  | amend {userId : ℕ} {dto : ModifyOrderDto} {o : Order} {balances : Table UserBalance.key}
      (ho : o ∈ d.orders.rows) (hadm : Admits o userId dto)
      (hres : dto.amount = none ∧ balances = d.balances ∨
        Reserves d o ((o.amendedBy dto).amount - o.amount) balances) :
      Entry now d (.modify userId dto)
        { d with orders := d.orders.save (o.amendedBy dto), balances := balances }
        (o.amendedBy dto).amendedTaker
  | arm {orderId : ℕ} {currentPrice : ℚ} {o : Order} (ho : o ∈ d.orders.rows)
      (hid : o.id = orderId) (hstop : o.IsStop) (hpending : o.status = .pending)
      (haction : stopAction o currentPrice = .trigger) :
      Entry now d (.stop orderId currentPrice)
        (d.settle (o.touchedBy (some now) o.trailingReferencePrice))
        (some (o.touchedBy (some now) o.trailingReferencePrice))
  | ratchet {orderId : ℕ} {currentPrice reference : ℚ} {o : Order} (ho : o ∈ d.orders.rows)
      (hid : o.id = orderId) (hstop : o.IsStop) (hpending : o.status = .pending)
      (haction : stopAction o currentPrice = .ratchet reference) :
      Entry now d (.stop orderId currentPrice)
        (d.settle (o.touchedBy o.triggeredAt (some reference))) none
  | idle {orderId : ℕ} {currentPrice : ℚ} : Entry now d (.stop orderId currentPrice) d none

/-- The row of a running taker: an order of the same side. -/
def StoredAs (d : OrdersDb) (taker : Order) : Prop :=
  ∃ stored, d.orders.find taker.id = some stored ∧ stored.side = taker.side

section Inversion

variable {d d₁ : OrdersDb} {now : ℤ}

theorem eval_validateOrderShape {dto : CreateOrderDto} {u : Unit}
    (h : (validateOrderShape dto).eval sql.handler d = (.ok u, d₁)) : d₁ = d := by
  rcases validateOrderShape_cases dto with hshape | ⟨e, hshape⟩
  · rw [hshape] at h
    exact (Prod.mk.inj h).2.symm
  · rw [hshape] at h
    cases h

theorem newOrder_fresh (id : ℕ) (now : ℤ) (userId : ℕ) {dto : CreateOrderDto} (valid : dto.Valid) :
    (newOrder id now userId dto).Fresh where
  status := rfl
  amount_pos := valid.amount_pos
  filledAmount := rfl
  averageFillPrice := rfl
  price := by
    intro ht
    replace ht : dto.type = .limit := ht
    obtain ⟨p, hp, -⟩ := valid.price_pos ht
    simp [newOrder, ht, hp]

theorem enterOrder_ok {id userId : ℕ} {dto : CreateOrderDto} {o : Order}
    (h : (enterOrder id now userId dto).eval sql.handler d = (.ok o, d₁)) :
    o = newOrder id now userId dto ∧ d.orders.find o.id = none ∧
      ∃ balances, Reserves d o o.amount balances ∧
        d₁ = { d with orders := d.orders.save o, balances := balances } := by
  unfold enterOrder at h
  simp only [Prog.perform_bind, Prog.eval_call, handler_lockBalance] at h
  -- the insert at the end succeeds only on a new key
  have hinsert : ∀ d' : OrdersDb, d'.orders = d.orders →
      ((Prog.call (.insertOrder (newOrder id now userId dto)) fun fresh =>
        if fresh = true then pure (newOrder id now userId dto)
        else throw OrderError.duplicateKey : Tx Order)).eval sql.handler d' = (.ok o, d₁) →
      o = newOrder id now userId dto ∧ d.orders.find o.id = none ∧
        d₁ = { d' with orders := d'.orders.save o } := by
    intro d' hd' h
    rw [Prog.eval_call, handler_insertOrder, hd'] at h
    by_cases hn : (d.orders.find (newOrder id now userId dto).id).isNone
    · simp only [hn, if_true, Prog.eval_pure, Prod.mk.injEq, Except.ok.injEq] at h
      obtain ⟨rfl, rfl⟩ := h
      exact ⟨rfl, Option.isNone_iff_eq_none.mp hn, by rw [hd']⟩
    · simp [hn] at h
  cases hside : dto.side with
  | buy =>
    simp only [hside, reduceCtorEq, if_false] at h
    obtain ⟨rfl, hid, rfl⟩ := hinsert d rfl h
    refine ⟨rfl, hid, d.balances, ?_, rfl⟩
    simp [Reserves, newOrder, hside]
  | sell =>
    simp only [hside, if_true] at h
    cases hb : d.balances.find (userId, dto.assetId) with
    | none => simp [hb] at h
    | some b =>
      simp only [hb] at h
      by_cases hlt : b.availableBalance < dto.amount
      · simp [hlt] at h
      · simp only [hlt, if_false, Prog.eval_call, handler_saveBalance] at h
        obtain ⟨rfl, hid, rfl⟩ :=
          hinsert { d with balances := d.balances.save (b.lock dto.amount) } rfl h
        refine ⟨rfl, hid, _, ?_, rfl⟩
        simp only [Reserves, newOrder, hside]
        exact ⟨b, hb, fun _ => not_lt.mp hlt, rfl⟩

theorem cancelOrder_ok {userId orderId : ℕ} {o' : Order}
    (h : (cancelOrder now userId orderId).eval sql.handler d = (.ok o', d₁)) :
    ∃ o balances, o ∈ d.orders.rows ∧ o.id = orderId ∧ o.userId = userId ∧
      (o.status ≠ .filled ∧ o.status ≠ .cancelled) ∧ Releases d o balances ∧
      d₁ = { d with orders := d.orders.save (o.asCancelled now), balances := balances } := by
  unfold cancelOrder at h
  simp only [Prog.perform_bind, Prog.eval_call, handler_lockOrder] at h
  cases ho : d.orders.find orderId with
  | none => simp [ho] at h
  | some o =>
    simp only [ho] at h
    by_cases howner : o.userId ≠ userId
    · simp [howner] at h
    by_cases hstatus : o.status = .filled ∨ o.status = .cancelled
    · simp [howner, hstatus] at h
    obtain rfl : o.userId = userId := not_not.mp howner
    simp only [ne_eq, not_true_eq_false, if_false, hstatus] at h
    refine ⟨o, ?_⟩
    rcases o.side.buy_or_sell with hside | hside
    · -- a buy has locked nothing
      simp only [hside, reduceCtorEq, if_false, Prog.eval_call, handler_saveOrder, Prog.eval_pure,
        Prod.mk.injEq] at h
      refine ⟨d.balances, Table.mem_of_find ho, Table.key_of_find ho, rfl, not_or.mp hstatus, ?_,
        h.2.symm⟩
      simp [Releases, hside]
    · simp only [hside, if_true, Prog.eval_call, handler_lockBalance] at h
      cases hb : d.balances.find (o.userId, o.assetId) with
      | none =>
        -- a sell without a balance row is cancelled all the same
        simp only [hb, Prog.eval_call, handler_saveOrder, Prog.eval_pure, Prod.mk.injEq] at h
        refine ⟨d.balances, Table.mem_of_find ho, Table.key_of_find ho, rfl, not_or.mp hstatus, ?_,
          h.2.symm⟩
        simp [Releases, hside, hb]
      | some b =>
        simp only [hb, Prog.eval_call, handler_saveBalance, handler_saveOrder, Prog.eval_pure,
          Prod.mk.injEq] at h
        refine ⟨_, Table.mem_of_find ho, Table.key_of_find ho, rfl, not_or.mp hstatus, ?_, h.2.symm⟩
        simp [Releases, hside, hb]

theorem amendAmount_ok {userId : ℕ} {o o' : Order} {amount : Option ℚ} (howner : o.userId = userId)
    (h : (amendAmount userId o amount).eval sql.handler d = (.ok o', d₁)) :
    o' = { o with amount := amount.getD o.amount } ∧ (∀ a, amount = some a → o.filledAmount ≤ a) ∧
      ∃ balances, (amount = none ∧ balances = d.balances ∨
        Reserves d o (o'.amount - o.amount) balances) ∧ d₁ = { d with balances := balances } := by
  cases amount with
  | none =>
    obtain ⟨rfl, rfl⟩ : o = o' ∧ d = d₁ := by simpa [amendAmount] using h
    exact ⟨rfl, by simp, d.balances, .inl ⟨rfl, rfl⟩, rfl⟩
  | some a =>
    simp only [amendAmount] at h
    by_cases hlt : a < o.filledAmount
    · simp [hlt] at h
    have hle : o.filledAmount ≤ a := not_lt.mp hlt
    simp only [if_neg hlt] at h
    rcases o.side.buy_or_sell with hside | hside
    · have hns : ¬ o.side = .sell := by simp [hside]
      simp only [if_neg hns, Prog.eval_pure, Prod.mk.injEq, Except.ok.injEq] at h
      obtain ⟨rfl, rfl⟩ := h
      refine ⟨rfl, by simpa using hle, d.balances, .inr ?_, rfl⟩
      simp [Reserves, hside]
    · simp only [if_pos hside, Prog.perform_bind, Prog.eval_call, handler_lockBalance] at h
      subst howner
      cases hb : d.balances.find (o.userId, o.assetId) with
      | none => simp [hb, Except.map] at h
      | some b =>
        simp only [hb] at h
        -- the change of the remainder is the change of the amount
        have hdelta : a - o.filledAmount - o.remainingAmount = a - o.amount := by
          unfold Order.remainingAmount
          ring
        rw [hdelta] at h
        by_cases havail : 0 < a - o.amount ∧ b.availableBalance < a - o.amount
        · simp [havail] at h
        · simp only [if_neg havail, Prog.eval_call, handler_saveBalance, Prog.eval_pure,
            Prod.mk.injEq, Except.ok.injEq] at h
          obtain ⟨rfl, rfl⟩ := h
          refine ⟨rfl, by simpa using hle, _, .inr ?_, rfl⟩
          simp only [Reserves, hside]
          exact ⟨b, hb, fun hpos => not_lt.mp fun hlt => havail ⟨hpos, hlt⟩, rfl⟩

/-- The price, stop price and trailing branches answer without a statement. -/
theorem amendPrice_cases (o : Order) (price : Option ℚ) :
    (∃ o', amendPrice o price = pure o') ∨ ∃ e, amendPrice o price = throw e := by
  unfold amendPrice
  cases price with
  | none => exact .inl ⟨o, rfl⟩
  | some p =>
    by_cases ht : o.type ≠ .limit
    · exact .inr ⟨_, by simp only [if_pos ht]; rfl⟩
    · exact .inl ⟨{ o with price := some p }, by simp only [if_neg ht]⟩

theorem amendStopPrice_cases (o : Order) (stopPrice : Option ℚ) :
    (∃ o', amendStopPrice o stopPrice = pure o') ∨ ∃ e, amendStopPrice o stopPrice = throw e := by
  unfold amendStopPrice
  cases stopPrice with
  | none => exact .inl ⟨o, rfl⟩
  | some p =>
    by_cases ht : o.type ≠ .stopLoss ∧ o.type ≠ .takeProfit
    · exact .inr ⟨_, by simp only [if_pos ht]; rfl⟩
    · exact .inl ⟨{ o with stopPrice := some p }, by simp only [if_neg ht]⟩

theorem amendTrailingDelta_cases (o : Order) (trailingDelta : Option ℚ) :
    (∃ o', amendTrailingDelta o trailingDelta = pure o') ∨
      ∃ e, amendTrailingDelta o trailingDelta = throw e := by
  unfold amendTrailingDelta
  cases trailingDelta with
  | none => exact .inl ⟨o, rfl⟩
  | some p =>
    by_cases ht : o.type ≠ .trailingStop
    · exact .inr ⟨_, by simp only [if_pos ht]; rfl⟩
    · exact .inl ⟨{ o with trailingDelta := some p }, by simp only [if_neg ht]⟩

theorem amendPrice_ok {o o' : Order} {price : Option ℚ}
    (h : (amendPrice o price).eval sql.handler d = (.ok o', d₁)) :
    o' = { o with price := price.or o.price } ∧ (∀ p, price = some p → o.type = .limit) ∧
      d₁ = d := by
  cases price with
  | none =>
    obtain ⟨rfl, rfl⟩ : o = o' ∧ d = d₁ := by simpa [amendPrice] using h
    exact ⟨rfl, by simp, rfl⟩
  | some p =>
    by_cases ht : o.type = .limit
    · obtain ⟨rfl, rfl⟩ : { o with price := some p } = o' ∧ d = d₁ := by
        simpa [amendPrice, ht] using h
      exact ⟨rfl, fun _ _ => ht, rfl⟩
    · simp [amendPrice, ht, Except.map] at h

theorem amendStopPrice_ok {o o' : Order} {stopPrice : Option ℚ}
    (h : (amendStopPrice o stopPrice).eval sql.handler d = (.ok o', d₁)) :
    o' = { o with stopPrice := stopPrice.or o.stopPrice } ∧
      (∀ p, stopPrice = some p → o.type = .stopLoss ∨ o.type = .takeProfit) ∧ d₁ = d := by
  cases stopPrice with
  | none =>
    obtain ⟨rfl, rfl⟩ : o = o' ∧ d = d₁ := by simpa [amendStopPrice] using h
    exact ⟨rfl, by simp, rfl⟩
  | some p =>
    simp only [amendStopPrice] at h
    split at h
    · simp [Except.map] at h
    · next ht =>
      obtain ⟨rfl, rfl⟩ : { o with stopPrice := some p } = o' ∧ d = d₁ := by simpa using h
      refine ⟨rfl, fun _ _ => ?_, rfl⟩
      by_contra hc
      exact ht (not_or.mp hc)

theorem amendTrailingDelta_ok {o o' : Order} {trailingDelta : Option ℚ}
    (h : (amendTrailingDelta o trailingDelta).eval sql.handler d = (.ok o', d₁)) :
    o' = { o with trailingDelta := trailingDelta.or o.trailingDelta } ∧
      (∀ x, trailingDelta = some x → o.type = .trailingStop) ∧ d₁ = d := by
  cases trailingDelta with
  | none =>
    obtain ⟨rfl, rfl⟩ : o = o' ∧ d = d₁ := by simpa [amendTrailingDelta] using h
    exact ⟨rfl, by simp, rfl⟩
  | some p =>
    simp only [amendTrailingDelta] at h
    split at h
    · simp [Except.map] at h
    · next ht =>
      obtain ⟨rfl, rfl⟩ : { o with trailingDelta := some p } = o' ∧ d = d₁ := by simpa using h
      exact ⟨rfl, fun _ _ => not_not.mp ht, rfl⟩

theorem amendOrder_ok {userId : ℕ} {dto : ModifyOrderDto} {o' : Order}
    (h : (amendOrder userId dto).eval sql.handler d = (.ok o', d₁)) :
    ∃ o balances, o ∈ d.orders.rows ∧ Admits o userId dto ∧ o' = o.amendedBy dto ∧
      (dto.amount = none ∧ balances = d.balances ∨ Reserves d o (o'.amount - o.amount) balances) ∧
      d₁ = { d with orders := d.orders.save o', balances := balances } := by
  unfold amendOrder at h
  simp only [Prog.perform_bind, Prog.eval_call, handler_lockOrder] at h
  cases ho : d.orders.find dto.orderId with
  | none => simp [ho] at h
  | some o =>
    simp only [ho] at h
    by_cases howner : o.userId ≠ userId
    · simp [howner] at h
    by_cases hstatus : o.status ≠ .pending ∧ o.status ≠ .partiallyFilled
    · simp [howner, hstatus] at h
    simp only [if_neg howner, if_neg hstatus] at h
    have hopen : o.Open := by
      unfold Order.Open
      by_contra hc
      exact hstatus (not_or.mp hc)
    -- the four branches of the amendment, one after the other
    obtain ⟨o₁, d₂, h₁, h⟩ := Prog.eval_bind_ok _ h
    obtain ⟨o₂, d₃, h₂, h⟩ := Prog.eval_bind_ok _ h
    obtain ⟨o₃, d₄, h₃, h⟩ := Prog.eval_bind_ok _ h
    obtain ⟨o₄, d₅, h₄, h⟩ := Prog.eval_bind_ok _ h
    obtain ⟨rfl, hamount, balances, hres, rfl⟩ := amendAmount_ok (not_not.mp howner) h₁
    obtain ⟨rfl, hprice, rfl⟩ := amendPrice_ok h₂
    obtain ⟨rfl, hstop, rfl⟩ := amendStopPrice_ok h₃
    obtain ⟨rfl, htrailing, rfl⟩ := amendTrailingDelta_ok h₄
    simp only [Prog.eval_call, handler_saveOrder, Prog.eval_pure, Prod.mk.injEq,
      Except.ok.injEq] at h
    obtain ⟨rfl, rfl⟩ := h
    exact ⟨o, balances, Table.mem_of_find ho,
      ⟨Table.key_of_find ho, not_not.mp howner, hopen, hamount, hprice, hstop, htrailing⟩, rfl, hres, rfl⟩

theorem armStopOrder_ok {o : Order} {t : Option Order} (ho : o ∈ d.orders.rows)
    (hpending : o.status = .pending)
    (h : (armStopOrder now o.id).eval sql.handler d = (.ok t, d₁)) :
    t = some (o.touchedBy (some now) o.trailingReferencePrice) ∧
      d₁ = d.settle { o with status := .triggered, triggeredAt := some now } := by
  unfold armStopOrder at h
  simp only [Prog.perform_bind, Prog.eval_call, handler_lockOrder, Table.find_of_mem ho] at h
  simp only [hpending, ne_eq, not_true_eq_false, if_false, Prog.eval_call, handler_saveOrder,
    Prog.eval_pure, Prod.mk.injEq, Except.ok.injEq] at h
  obtain ⟨rfl, rfl⟩ := h
  exact ⟨by simp [Order.touchedBy, hpending], rfl⟩

/-- **The entry of an event** does what `Entry` says, with the taker stored as it is handed over. -/
theorem entry_of_eval {e : Event} {t : Option Order}
    (h : e.entry.eval sql.handler d = (.ok t, d₁)) :
    ∃ s, Entry e.now d e.request s t ∧ (t = none → d₁ = s) ∧
      ∀ taker, t = some taker → d₁.settle taker = s ∧
        StoredAs d₁ taker := by
  obtain ⟨now, request⟩ := e
  cases request with
  | place id userId dto valid =>
    simp only [Event.entry] at h
    obtain ⟨_, d₂, h₁, h⟩ := Prog.eval_bind_ok _ h
    obtain ⟨order, d₃, h₂, h⟩ := Prog.eval_bind_ok _ h
    obtain rfl : d₂ = d := eval_validateOrderShape h₁
    obtain ⟨rfl, hid, balances, hres, rfl⟩ := enterOrder_ok h₂
    simp only [Prog.eval_pure, Prod.mk.injEq, Except.ok.injEq] at h
    obtain ⟨rfl, rfl⟩ := h
    refine ⟨_, .enter rfl hid (newOrder_fresh id now userId valid) hres, fun _ => rfl, ?_⟩
    -- only a limit or market order goes on to match, as the row just stored
    intro taker htaker
    split at htaker
    · obtain rfl := Option.some.inj htaker
      exact ⟨OrdersDb.settle_settle (d := { d₂ with balances := balances }) rfl, _,
        Table.find_save_self _ _, rfl⟩
    · cases htaker
  | cancel userId orderId =>
    simp only [Event.entry] at h
    obtain ⟨o', d₂, h₁, h⟩ := Prog.eval_bind_ok _ h
    obtain ⟨o, balances, ho, hid, howner, hstatus, hrel, rfl⟩ := cancelOrder_ok h₁
    simp only [Prog.eval_pure, Prod.mk.injEq, Except.ok.injEq] at h
    obtain ⟨rfl, rfl⟩ := h
    exact ⟨_, .cancel ho hid howner hstatus hrel, fun _ => rfl, by simp⟩
  | modify userId dto =>
    simp only [Event.entry] at h
    obtain ⟨o', d₂, h₁, h⟩ := Prog.eval_bind_ok _ h
    obtain ⟨o, balances, ho, hadm, rfl, hres, rfl⟩ := amendOrder_ok h₁
    simp only [Prog.eval_pure, Prod.mk.injEq, Except.ok.injEq] at h
    obtain ⟨rfl, rfl⟩ := h
    refine ⟨_, .amend ho hadm hres, fun _ => rfl, ?_⟩
    intro taker htaker
    split at htaker
    · obtain rfl := Option.some.inj htaker
      exact ⟨OrdersDb.settle_settle (d := { d with balances := balances }) rfl, _,
        Table.find_save_self _ _, rfl⟩
    · cases htaker
  | stop orderId currentPrice =>
    simp only [Event.entry, Prog.perform_bind, Prog.eval_call, handler_findDormant] at h
    cases hf : (dormantOrders d.orders).find? (·.id = orderId) with
    | none =>
      -- the scan does not see the order: nothing is written
      simp only [hf, Prog.eval_pure, Prod.mk.injEq, Except.ok.injEq] at h
      obtain ⟨rfl, rfl⟩ := h
      exact ⟨_, .idle, fun _ => rfl, by simp⟩
    | some o =>
      simp only [hf] at h
      have hid : o.id = orderId := by simpa using List.find?_some hf
      obtain ⟨ho, hdormant⟩ := List.mem_filter.mp (List.mem_of_find?_eq_some hf)
      obtain ⟨hstop, hpending⟩ : o.IsStop ∧ o.status = .pending := by simpa using hdormant
      cases haction : stopAction o currentPrice with
      | trigger =>
        simp only [haction] at h
        obtain ⟨rfl, rfl⟩ := armStopOrder_ok ho hpending h
        refine ⟨_, .arm ho hid hstop hpending haction, by simp, ?_⟩
        intro taker htaker
        obtain rfl := Option.some.inj htaker
        exact ⟨OrdersDb.settle_settle rfl, _, Table.find_save_self _ _, rfl⟩
      | ratchet reference =>
        simp only [haction, Prog.eval_call, handler_saveOrder, Prog.eval_pure, Prod.mk.injEq,
          Except.ok.injEq] at h
        obtain ⟨rfl, rfl⟩ := h
        exact ⟨_, .ratchet ho hid hstop hpending haction, fun _ => rfl, by simp⟩
      | idle =>
        simp only [haction, Prog.eval_pure, Prod.mk.injEq, Except.ok.injEq] at h
        obtain ⟨rfl, rfl⟩ := h
        exact ⟨_, .idle, fun _ => rfl, by simp⟩

end Inversion

/-! ## Changes -/

/-- The tables after one fill, the taker stored too. -/
def OrdersDb.fill (d : OrdersDb) (now : ℤ) (taker maker : Order) : OrdersDb :=
  (d.afterFill now taker maker).settle (takerAfter now taker maker)

/-- An edit: one order is entered, cancelled, amended or touched. Every amended order meets
`A`. -/
inductive Edit (now : ℤ) (A : Order → Prop) (d : OrdersDb) : OrdersDb → Prop
  | enter {o : Order} {balances : Table UserBalance.key} (hid : d.orders.find o.id = none)
      (hfresh : o.Fresh) (hres : Reserves d o o.amount balances) :
      Edit now A d { d with orders := d.orders.save o, balances := balances }
  | cancel {o : Order} {balances : Table UserBalance.key} (ho : o ∈ d.orders.rows)
      (hstatus : o.status ≠ .filled ∧ o.status ≠ .cancelled) (hrel : Releases d o balances) :
      Edit now A d { d with orders := d.orders.save (o.asCancelled now), balances := balances }
  | amend {userId : ℕ} {dto : ModifyOrderDto} {o : Order} {balances : Table UserBalance.key}
      (ho : o ∈ d.orders.rows) (hadm : Admits o userId dto) (hA : A (o.amendedBy dto))
      (hres : dto.amount = none ∧ balances = d.balances ∨
        Reserves d o ((o.amendedBy dto).amount - o.amount) balances) :
      Edit now A d { d with orders := d.orders.save (o.amendedBy dto), balances := balances }
  | touch {o : Order} (ho : o ∈ d.orders.rows) (triggeredAt : Option ℤ) (reference : Option ℚ) :
      Edit now A d (d.settle (o.touchedBy triggeredAt reference))

/-- A single change of the tables: an edit, or a fill of a taker that is stored as the matching
loop holds it. -/
inductive Change (now : ℤ) (A : Order → Prop) (d : OrdersDb) : OrdersDb → Prop
  | edit {d' : OrdersDb} (h : Edit now A d d') : Change now A d d'
  | fill {taker maker : Order} (ht : taker ∈ d.orders.rows) (hm : maker ∈ d.orders.rows)
      (hopen : taker.Open) (hpos : 0 < taker.remainingAmount) (hcross : Crossable taker maker) :
      Change now A d (d.fill now taker maker)

/-- A sequence of changes. -/
abbrev Changes (now : ℤ) (A : Order → Prop) : OrdersDb → OrdersDb → Prop :=
  Relation.ReflTransGen (Change now A)

/-- What every change preserves, every sequence of changes preserves. -/
theorem Changes.invariant {now : ℤ} {A : Order → Prop} {I : OrdersDb → Prop}
    (hI : ∀ d d', I d → Change now A d d' → I d') {d d' : OrdersDb} (h : Changes now A d d')
    (hd : I d) : I d' := by
  induction h with
  | refl => exact hd
  | tail _ hc ih => exact hI _ _ ih hc

theorem Entry.edit {now : ℤ} {A : Order → Prop} {d s : OrdersDb} {request : Request}
    {t : Option Order} (h : Entry now d request s t)
    (hA : ∀ userId dto, request = .modify userId dto → ∀ o ∈ d.orders.rows, Admits o userId dto →
      A (o.amendedBy dto)) : s = d ∨ Edit now A d s := by
  cases h with
  | enter hnew hid hfresh hres => exact .inr (.enter hid hfresh hres)
  | cancel ho hid howner hstatus hrel => exact .inr (.cancel ho hstatus hrel)
  | amend ho hadm hres => exact .inr (.amend ho hadm (hA _ _ rfl _ ho hadm) hres)
  | arm ho hid hstop hpending haction => exact .inr (.touch ho _ _)
  | ratchet ho hid hstop hpending haction => exact .inr (.touch ho _ _)
  | idle => exact .inl rfl

/-- The takers: a new MARKET or LIMIT order, an amended LIMIT order, or a triggered stop order.
The entry writes its row and no other. -/
inductive Entry.Takes (now : ℤ) (d : OrdersDb) : Request → Order → Prop
  | new {id userId : ℕ} {dto : CreateOrderDto} {valid : dto.Valid} {taker : Order}
      (hid : d.orders.find taker.id = none) (hfresh : taker.Fresh)
      (htype : taker.type = .market ∨ taker.type = .limit) :
      Takes now d (.place id userId dto valid) taker
  | amended {userId : ℕ} {dto : ModifyOrderDto} {o : Order} (ho : o ∈ d.orders.rows)
      (hadm : Admits o userId dto) (htype : o.type = .limit) :
      Takes now d (.modify userId dto) (o.amendedBy dto)
  | triggered {orderId : ℕ} {currentPrice : ℚ} {o : Order} (ho : o ∈ d.orders.rows)
      (hstop : o.IsStop) (hpending : o.status = .pending) :
      Takes now d (.stop orderId currentPrice)
        (o.touchedBy (some now) o.trailingReferencePrice)

theorem Entry.takes {now : ℤ} {d s : OrdersDb} {request : Request} {taker : Order}
    (h : Entry now d request s (some taker)) :
    Entry.Takes now d request taker ∧ s.orders = d.orders.save taker := by
  generalize ht : some taker = t at h
  cases h with
  | enter hnew hid hfresh hres =>
    unfold Order.activeTaker at ht
    split at ht
    · next htype =>
      obtain rfl := Option.some.inj ht
      exact ⟨.new hid hfresh htype, rfl⟩
    · cases ht
  | cancel => cases ht
  | amend ho hadm hres =>
    unfold Order.amendedTaker at ht
    split at ht
    · next htype =>
      obtain rfl := Option.some.inj ht
      exact ⟨.amended ho hadm htype, rfl⟩
    · cases ht
  | arm ho hid hstop hpending haction =>
    obtain rfl := Option.some.inj ht
    exact ⟨.triggered ho hstop hpending, rfl⟩
  | ratchet => cases ht
  | idle => cases ht

theorem Entry.Takes.isOpen {now : ℤ} {d : OrdersDb} {request : Request} {taker : Order}
    (h : Entry.Takes now d request taker) : taker.Open := by
  cases h with
  | new hid hfresh htype => exact .inl hfresh.status
  | amended ho hadm htype => exact hadm.isOpen
  | triggered ho hstop hpending => exact .inl hpending

@[simp] theorem takerAfter_id (now : ℤ) (taker maker : Order) :
    (takerAfter now taker maker).id = taker.id := applyFill_id ..

@[simp] theorem takerAfter_side (now : ℤ) (taker maker : Order) :
    (takerAfter now taker maker).side = taker.side := applyFill_side ..

@[simp] theorem makerAfter_id (now : ℤ) (taker maker : Order) :
    (makerAfter now taker maker).id = maker.id := applyFill_id ..

/-- A taker with something remaining after a fill is still open. -/
theorem takerAfter_open {now : ℤ} {taker maker : Order}
    (h : 0 < (takerAfter now taker maker).remainingAmount) : (takerAfter now taker maker).Open := by
  unfold takerAfter at h ⊢
  rw [applyFill_remainingAmount] at h
  exact (applyFill_open_iff ..).mpr (by linarith)

/-- A maker is another order than the taker, as it is on the other side. -/
theorem Crossable.side_ne {taker maker : Order} (h : Crossable taker maker) :
    maker.side ≠ taker.side := by
  rw [h.2.1]
  cases taker.side <;> simp [OrderSide.opposite]

theorem Crossable.id_ne {d : OrdersDb} {taker maker : Order} (h : Crossable taker maker)
    (ht : taker ∈ d.orders.rows) (hm : maker ∈ d.orders.rows) : maker.id ≠ taker.id := by
  intro e
  exact h.side_ne (congrArg Order.side (Table.eq_of_key_eq hm ht e))

/-- One iteration of the loop, on the tables with the taker stored: a fill. -/
theorem afterFill_settle {now : ℤ} {d : OrdersDb} {taker maker : Order}
    (hstored : StoredAs d taker) (hm : maker ∈ d.orders.rows) (hcross : Crossable taker maker) :
    maker ∈ (d.settle taker).orders.rows ∧ StoredAs (d.afterFill now taker maker) taker ∧
      (d.settle taker).fill now taker maker =
        (d.afterFill now taker maker).settle (takerAfter now taker maker) := by
  obtain ⟨stored, hfind, hside⟩ := hstored
  have hne : maker.id ≠ taker.id := by
    intro e
    have : maker = stored := by
      have hmaker := Table.find_of_mem hm
      rw [e, hfind] at hmaker
      exact (Option.some.inj hmaker).symm
    exact hcross.side_ne (this ▸ hside)
  refine ⟨Table.mem_save.mpr (.inr ⟨hm, hne⟩), ⟨stored, ?_, hside⟩, ?_⟩
  · simp only [OrdersDb.afterFill]
    rw [Table.find_save_of_ne _ (by simpa using hne.symm), hfind]
  · -- the two saves of the taker are on the same row, and the maker's is on another
    have hcomm : (d.orders.save taker).save (makerAfter now taker maker) =
        (d.orders.save (makerAfter now taker maker)).save taker :=
      Table.save_save_comm (by simpa using hne.symm) (by simp [hfind])
        (by simp [Table.find_of_mem hm])
    simp only [OrdersDb.fill, OrdersDb.afterFill, OrdersDb.settle]
    rw [hcomm, Table.save_save (takerAfter_id ..)]

/-- The fills of one taker, on the tables with the taker stored. -/
inductive Fills (now : ℤ) : OrdersDb → Order → OrdersDb → Order → Prop
  | done {d : OrdersDb} {taker : Order} (ht : taker ∈ d.orders.rows) : Fills now d taker d taker
  | fill {d d' : OrdersDb} {taker taker' maker : Order} (ht : taker ∈ d.orders.rows)
      (hm : maker ∈ d.orders.rows) (hopen : taker.Open) (hpos : 0 < taker.remainingAmount)
      (hcross : Crossable taker maker)
      (rest : Fills now (d.fill now taker maker) (takerAfter now taker maker) d' taker') :
      Fills now d taker d' taker'

/-- What every fill preserves holds at the end of the loop. -/
theorem Fills.invariant {now : ℤ} {I : OrdersDb → Order → Prop}
    (hI : ∀ d taker maker, taker ∈ d.orders.rows → maker ∈ d.orders.rows → taker.Open →
      0 < taker.remainingAmount → Crossable taker maker → I d taker →
      I (d.fill now taker maker) (takerAfter now taker maker))
    {d d' : OrdersDb} {taker taker' : Order} (h : Fills now d taker d' taker') (hd : I d taker) :
    I d' taker' := by
  induction h with
  | done => exact hd
  | fill ht hm hopen hpos hcross rest ih => exact ih (hI _ _ _ ht hm hopen hpos hcross hd)

theorem Fills.changes {now : ℤ} {A : Order → Prop} {d d' : OrdersDb} {taker taker' : Order}
    (h : Fills now d taker d' taker') : Changes now A d d' := by
  induction h with
  | done => exact .refl
  | fill ht hm hopen hpos hcross rest ih => exact .head (.fill ht hm hopen hpos hcross) ih

theorem Fills.mem {now : ℤ} {d d' : OrdersDb} {taker taker' : Order}
    (h : Fills now d taker d' taker') : taker' ∈ d'.orders.rows := by
  induction h with
  | done ht => exact ht
  | fill _ _ _ _ _ _ ih => exact ih

/-- The matching loop, on the tables with the taker stored. -/
theorem Matching.fills {now : ℤ} {d d' : OrdersDb} {taker taker' : Order}
    (h : Matching now d taker d' taker') (hstored : StoredAs d taker)
    (hopen : 0 < taker.remainingAmount → taker.Open) :
    Fills now (d.settle taker) taker (d'.settle taker') taker' := by
  induction h with
  | done d taker => exact .done (Table.mem_save_self _ _)
  | @fill d d' taker taker' maker hpos hbest rest ih =>
    obtain ⟨hm, hcross⟩ := bestMaker_mem hbest
    obtain ⟨hm', ⟨stored, hfind, hside⟩, e⟩ := afterFill_settle hstored hm hcross
    have hstored' : StoredAs (d.afterFill now taker maker) (takerAfter now taker maker) :=
      ⟨stored, by simpa using hfind, by simpa using hside⟩
    refine .fill (Table.mem_save_self _ _) hm' (hopen hpos) hpos hcross ?_
    rw [e]
    exact ih hstored' takerAfter_open

/-- What follows an entry, on the tables with the taker stored: nothing, or the fills of the taker
until nothing remains of it or no resting order crosses it. -/
def Matched (now : ℤ) (s : OrdersDb) (t : Option Order) (d' : OrdersDb) : Prop :=
  match t with
  | none => d' = s
  | some taker => ∃ taker', Fills now s taker d' taker' ∧
      (taker'.remainingAmount ≤ 0 ∨ NoCrossable d'.orders taker')

/-- **A transaction that succeeds** is an entry, followed by the fills of its taker. -/
theorem tx_entry {fuel : ℕ} {e : Event} {o : Option Order} {d d' : OrdersDb}
    (h : (e.tx fuel).eval sql.handler d = (.ok o, d')) :
    ∃ s t, Entry e.now d e.request s t ∧ Matched e.now s t d' := by
  rcases tx_cases h with hentry | ⟨taker, taker', d₁, d₂, hentry, hm, rfl, hexit⟩
  · obtain ⟨s, hs, hd', -⟩ := entry_of_eval hentry
    exact ⟨s, none, hs, hd' rfl⟩
  · obtain ⟨s, hs, -, htaker⟩ := entry_of_eval hentry
    obtain ⟨rfl, hstored⟩ := htaker taker rfl
    refine ⟨_, some taker, hs, taker', hm.fills hstored fun _ => hs.takes.1.isOpen, ?_⟩
    refine hexit.imp_right fun hno maker hmaker hcross => ?_
    -- the taker's own row is on its own side, and every other row is as the loop left it
    rcases Table.mem_save.mp hmaker with rfl | ⟨hmaker, -⟩
    · exact hcross.side_ne rfl
    · exact hno maker hmaker hcross

/-- A step: the tables stay as they are, or an entry is followed by the fills of its taker. -/
theorem step_entry (d : OrdersDb) (e : Event) :
    step d e = d ∨ ∃ s t, Entry e.now d e.request s t ∧ Matched e.now s t (step d e) := by
  rcases step_cases d e with h | ⟨o, h⟩
  · exact .inl h
  · exact .inr (tx_entry h)

/-- **A step is a sequence of changes.** -/
theorem step_changes {A : Order → Prop} {d : OrdersDb} {e : Event}
    (hA : ∀ userId dto, e.request = .modify userId dto → ∀ o ∈ d.orders.rows,
      Admits o userId dto → A (o.amendedBy dto)) : Changes e.now A d (step d e) := by
  rcases step_entry d e with h | ⟨s, t, hs, hmatched⟩
  · rw [h]
  · have hentry : Changes e.now A d s := by
      rcases hs.edit hA with rfl | h
      · exact .refl
      · exact .single (.edit h)
    cases t with
    | none =>
      rw [show step d e = s from hmatched]
      exact hentry
    | some taker =>
      obtain ⟨taker', hfills, -⟩ := hmatched
      exact hentry.trans hfills.changes

/-! ## Properties of every row -/

/-- A property of single orders that every edit keeps for the order it writes. -/
structure KeptByEdit (now : ℤ) (A P : Order → Prop) : Prop where
  enter : ∀ o, o.Fresh → P o
  cancel : ∀ o, P o → o.status ≠ .filled → o.status ≠ .cancelled → P (o.asCancelled now)
  amend : ∀ o userId dto, P o → Admits o userId dto → A (o.amendedBy dto) → P (o.amendedBy dto)
  touch : ∀ o triggeredAt reference, P o → P (o.touchedBy triggeredAt reference)

/-- A property of single orders that every change keeps for the orders it writes. -/
structure KeptByChange (now : ℤ) (A P : Order → Prop) : Prop extends KeptByEdit now A P where
  fill : ∀ taker maker, P taker → P maker → taker.Open → 0 < taker.remainingAmount →
    Crossable taker maker → P (takerAfter now taker maker) ∧ P (makerAfter now taker maker)

theorem KeptByEdit.edit {now : ℤ} {A P : Order → Prop} (hP : KeptByEdit now A P)
    {d d' : OrdersDb} (hd : ∀ o ∈ d.orders.rows, P o) (h : Edit now A d d') :
    ∀ o ∈ d'.orders.rows, P o := by
  intro x hx
  cases h with
  | enter hid hfresh hres =>
    rcases Table.mem_save.mp hx with rfl | ⟨hx, -⟩
    · exact hP.enter _ hfresh
    · exact hd x hx
  | cancel ho hstatus hrel =>
    rcases Table.mem_save.mp hx with rfl | ⟨hx, -⟩
    · exact hP.cancel _ (hd _ ho) hstatus.1 hstatus.2
    · exact hd x hx
  | amend ho hadm hA hres =>
    rcases Table.mem_save.mp hx with rfl | ⟨hx, -⟩
    · exact hP.amend _ _ _ (hd _ ho) hadm hA
    · exact hd x hx
  | touch ho triggeredAt reference =>
    rcases Table.mem_save.mp hx with rfl | ⟨hx, -⟩
    · exact hP.touch _ _ _ (hd _ ho)
    · exact hd x hx

theorem mem_fill {d : OrdersDb} {now : ℤ} {taker maker x : Order}
    (h : x ∈ (d.fill now taker maker).orders.rows) :
    x = takerAfter now taker maker ∨ x = makerAfter now taker maker ∨
      x ∈ d.orders.rows ∧ x.id ≠ taker.id ∧ x.id ≠ maker.id := by
  rcases Table.mem_save.mp h with rfl | ⟨h, hne⟩
  · exact .inl rfl
  · rcases Table.mem_save.mp h with rfl | ⟨h, hne'⟩
    · exact .inr (.inl rfl)
    · exact .inr (.inr ⟨h, by simpa using hne, by simpa using hne'⟩)

theorem KeptByChange.change {now : ℤ} {A P : Order → Prop} (hP : KeptByChange now A P)
    (d d' : OrdersDb) (hd : ∀ o ∈ d.orders.rows, P o) (hc : Change now A d d') :
    ∀ o ∈ d'.orders.rows, P o := by
  cases hc with
  | edit h => exact hP.edit hd h
  | fill ht hm hopen hpos hcross =>
    intro x hx
    obtain ⟨htaker, hmaker⟩ := hP.fill _ _ (hd _ ht) (hd _ hm) hopen hpos hcross
    rcases mem_fill hx with rfl | rfl | ⟨hx, -⟩
    · exact htaker
    · exact hmaker
    · exact hd x hx

/-! ## Active takers -/

/-- The request is accepted and makes `taker` an active taker. -/
def Activates (d : OrdersDb) (e : Event) (taker : Order) : Prop :=
  ∃ s, Entry e.now d e.request s (some taker)

theorem Activates.eq_newOrder {d : OrdersDb} {now : ℤ} {id userId : ℕ} {dto : CreateOrderDto}
    {valid : dto.Valid} {taker : Order}
    (h : Activates d ⟨now, .place id userId dto valid⟩ taker) :
    taker = newOrder id now userId dto := by
  obtain ⟨s, h⟩ := h
  generalize ht : some taker = t at h
  cases h with
  | enter hnew hid hfresh hres =>
    unfold Order.activeTaker at ht
    split at ht
    · exact (Option.some.inj ht).trans hnew
    · cases ht

/-- The orders a taker crosses are the ones it crossed before its own entry. -/
theorem Entry.mem_of_crossable {now : ℤ} {d s : OrdersDb} {request : Request} {taker maker : Order}
    (h : Entry now d request s (some taker)) (hm : maker ∈ s.orders.rows)
    (hcross : Crossable taker maker) : maker ∈ d.orders.rows := by
  -- the entry writes one row, and it is the taker's
  rw [h.takes.2] at hm
  rcases Table.mem_save.mp hm with rfl | ⟨hm, -⟩
  · exact absurd rfl hcross.side_ne
  · exact hm

end Orders
