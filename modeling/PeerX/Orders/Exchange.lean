import PeerX.Foundations.Runs
import PeerX.Orders.Service

/-!
# Orders: runs of the order services

The system whose steps are whole transactions: a placed, cancelled or modified order, and the
processing of one dormant order by the stop sweep. A rejected request leaves the tables alone.

Every step is an entry (`Event.entry`: what the transaction does before the matching loop) and, when
the entry hands over a taker, the matching loop.
-/

namespace Orders

open Relational Concurrency

/-- A request to the order services. Only a validated body reaches `placeOrder`. -/
inductive Request : Type
  | place (id userId : ℕ) (dto : CreateOrderDto) (valid : dto.Valid)
  | cancel (userId orderId : ℕ)
  | modify (userId : ℕ) (dto : ModifyOrderDto)
  /-- The sweep processes the dormant order `orderId` at the current price of its asset. -/
  | stop (orderId : ℕ) (currentPrice : ℚ)

/-- A request and the time it is served. -/
structure Event where
  now : ℤ
  request : Request

/-- One order of the sweep: loaded by the dormant query, then triggered, saved or left alone. -/
def sweepOrder (fuel : ℕ) (now : ℤ) (orderId : ℕ) (currentPrice : ℚ) : Tx (Option Order) := do
  let dormant ← query .findDormant
  match dormant.find? (·.id = orderId) with
  | none => return none
  | some order =>
    match stopAction order currentPrice with
    | .trigger => trigger fuel now order.id
    | .ratchet reference =>
      let order := { order with trailingReferencePrice := some reference }
      query (.saveOrder order)
      return some order
    | .idle => return none

/-- The transaction of an event. -/
def Event.tx (fuel : ℕ) (e : Event) : Tx (Option Order) :=
  match e.request with
  | .place id userId dto _ => some <$> placeOrder fuel id e.now userId dto
  | .cancel userId orderId => some <$> cancelOrder e.now userId orderId
  | .modify userId dto => some <$> modifyOrder fuel e.now userId dto
  | .stop orderId currentPrice => sweepOrder fuel e.now orderId currentPrice

/-- The tables after an event. The matching loop gets more iterations than there are orders. -/
def step (d : OrdersDb) (e : Event) : OrdersDb :=
  ((e.tx (d.orders.rows.length + 2)).atomically sql.handler d).2

/-- The tables before the first order: nothing is locked. -/
structure Initial (d : OrdersDb) : Prop where
  orders : d.orders.rows = []
  trades : d.trades = []
  fills : d.fills = []
  unlocked : ∀ b ∈ d.balances.rows, b.lockedBalance = 0

/-- The entry of an event: its transaction up to the matching loop, with the taker it hands
over, if any. -/
def Event.entry (e : Event) : Tx (Option Order) :=
  match e.request with
  | .place id userId dto _ => do
    validateOrderShape dto
    let order ← enterOrder id e.now userId dto
    return if dto.type = .market ∨ dto.type = .limit then some order else none
  | .cancel userId orderId => do
    let _ ← cancelOrder e.now userId orderId
    return none
  | .modify userId dto => do
    let existing ← amendOrder userId dto
    return if existing.type = .limit then some existing else none
  | .stop orderId currentPrice => do
    let dormant ← query .findDormant
    match dormant.find? (·.id = orderId) with
    | none => return none
    | some order =>
      match stopAction order currentPrice with
      | .trigger => armStopOrder e.now order.id
      | .ratchet reference =>
        query (.saveOrder { order with trailingReferencePrice := some reference })
        return none
      | .idle => return none

/-- The tables with the taker stored as the matching loop holds it. -/
def OrdersDb.settle (d : OrdersDb) (taker : Order) : OrdersDb :=
  { d with orders := d.orders.save taker }

theorem OrdersDb.settle_settle {d : OrdersDb} {t t' : Order} (h : t.id = t'.id) :
    (d.settle t).settle t' = d.settle t' := by
  simp only [OrdersDb.settle, Table.save_save h.symm]

/-- What follows the entry: the matching loop, when there is a taker. -/
def matchEntered (fuel : ℕ) (now : ℤ) : Option Order → Tx Unit
  | none => return ()
  | some taker => do
    let _ ← matchTakerOrder fuel now taker
    return ()

/-- The transaction of an event is its entry and the matching loop. -/
theorem tx_eq_entry (fuel : ℕ) (e : Event) :
    (fun _ => ()) <$> e.tx fuel = e.entry >>= matchEntered fuel e.now := by
  obtain ⟨now, request⟩ := e
  cases request with
  | place id userId dto valid =>
    simp only [Event.tx, Event.entry, placeOrder, map_eq_pure_bind, bind_assoc, pure_bind]
    congr 1; funext _
    congr 1; funext order
    split <;> simp [matchEntered]
  | cancel userId orderId =>
    simp [Event.tx, Event.entry, matchEntered]
  | modify userId dto =>
    simp only [Event.tx, Event.entry, modifyOrder, map_eq_pure_bind, bind_assoc, pure_bind]
    congr 1; funext existing
    split <;> simp [matchEntered]
  | stop orderId currentPrice =>
    simp only [Event.tx, Event.entry, sweepOrder, map_eq_pure_bind, bind_assoc]
    congr 1; funext dormant
    cases hf : dormant.find? (·.id = orderId) with
    | none => simp [matchEntered]
    | some order =>
      cases hs : stopAction order currentPrice with
      | trigger =>
        simp only [hs, trigger, bind_assoc]
        congr 1; funext fresh
        cases fresh <;> simp [matchEntered]
      | ratchet reference => simp [hs, matchEntered]
      | idle => simp [hs, matchEntered]

/-- A transaction that succeeds is its entry, followed by a finished matching loop when the
entry hands over a taker. -/
theorem tx_cases {fuel : ℕ} {e : Event} {o : Option Order} {d d' : OrdersDb}
    (h : (e.tx fuel).eval sql.handler d = (.ok o, d')) :
    (e.entry.eval sql.handler d = (.ok none, d')) ∨
      ∃ taker taker' d₁ d₂, e.entry.eval sql.handler d = (.ok (some taker), d₁) ∧
        Matching e.now d₁ taker d₂ taker' ∧ d' = d₂.settle taker' ∧
        (taker'.remainingAmount ≤ 0 ∨ NoCrossable d₂.orders taker') := by
  have hmap : ((fun _ => ()) <$> e.tx fuel).eval sql.handler d = (.ok (), d') := by
    rw [Prog.eval_map, h]
    rfl
  rw [tx_eq_entry] at hmap
  obtain ⟨t, d₁, hentry, hmatch⟩ := Prog.eval_bind_ok _ hmap
  cases t with
  | none =>
    obtain rfl : d₁ = d' := by simpa [matchEntered] using hmatch
    exact .inl hentry
  | some taker =>
    obtain ⟨⟨taker', fills⟩, d₃, hloop, hlast⟩ := Prog.eval_bind_ok _ hmatch
    obtain rfl : d₃ = d' := by simpa using hlast
    obtain ⟨d₂, hm, rfl, hexit⟩ := matching_of_matchTakerOrder hloop
    exact .inr ⟨taker, taker', d₁, d₂, hentry, hm, rfl, hexit⟩

/-- A step: the request is rejected and the tables stay as they are, or its transaction
succeeds. -/
theorem step_cases (d : OrdersDb) (e : Event) :
    step d e = d ∨
      ∃ o, (e.tx (d.orders.rows.length + 2)).eval sql.handler d = (.ok o, step d e) := by
  rcases Prog.atomically_cases sql.handler (e.tx (d.orders.rows.length + 2)) d with
    ⟨o, d', heval, hatom⟩ | ⟨_, -, hatom⟩
  · right
    have hstep : step d e = d' := by simp [step, hatom]
    exact ⟨o, hstep ▸ heval⟩
  · exact .inl (by simp [step, hatom])

/-- Empty tables, and ten units of asset 1 held by user 1. -/
def sellerDb : OrdersDb :=
  ⟨.empty, Table.empty.save { userId := 1, assetId := 1, balance := 10, lockedBalance := 0 }, [], [],
    []⟩

theorem sellerDb_initial : Initial sellerDb :=
  ⟨rfl, rfl, rfl, by decide +kernel⟩

/-- A LIMIT order of asset 1. -/
def placeLimit (id userId : ℕ) (side : OrderSide) (amount price : ℕ) [NeZero amount]
    [NeZero price] : Request :=
  .place id userId ⟨1, side, .limit, amount, some price, none, none, none⟩
    { amount_pos := Nat.cast_pos.mpr (NeZero.pos amount)
      price_pos := fun _ => ⟨price, rfl, Nat.cast_pos.mpr (NeZero.pos price)⟩
      stopPrice_pos := by rintro (h | h) <;> cases h
      trailingDelta_min := by intro h; cases h }

end Orders
