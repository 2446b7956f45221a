import PeerX.SocialTrading.Effects
import PeerX.Orders.Service

/-!
# Social trading: the listener and the engine

The matching engine emits `trading.trade.executed` for every fill, with the taker as the master. The
listener places a market order for each subscription to that master, and the engine matches the
copied order as it matches every other: its fills are events too, with the follower as the master. A
call of the listener runs from one query to the next, and calls take turns.
-/

namespace SocialTrading

open Relational Concurrency
open Orders (OrderSide Order OrdersDb FillResult OrderError Tx query matchLoop matchTakerOrder sql)

/-- `TradeExecutedEvent`, with what the copied order takes from it. -/
structure TradeExecuted extends TradeExecutedEvent where
  assetId : ℕ
  side : OrderSide
deriving DecidableEq

/-- The event of a fill. -/
def executed (fill : FillResult) : TradeExecuted where
  masterUserId := toString fill.takerOrder.userId
  amount := fill.fillAmount
  price := fill.fillPrice
  totalValue := fill.fillAmount * fill.fillPrice
  orderType := fill.takerOrder.type
  assetId := fill.takerOrder.assetId
  side := fill.takerOrder.side

/-- `Number.parseInt(s, 10)`; `NaN` is `none`. -/
def parseInt (s : String) : Option ℤ :=
  let source := s.toList.dropWhile Char.isWhitespace
  let negative : Bool := source.head? = some '-'
  let digits := (if negative ∨ source.head? = some '+' then source.tail else source).takeWhile Char.isDigit
  if digits = [] then none
  else
    let n : ℤ := digits.foldl (fun n c => 10 * n + (c.toNat - 48)) 0
    some (if negative then -n else n)

/-- `numericFollowerId`. The rows of the orders have no negative identifiers of users. -/
def numericFollowerId (followerUserId : String) : Option ℕ := (parseInt followerUserId).bind Int.toNat?

def followerAvailable (orders : OrdersDb) (followerUserId : String) (assetId : ℕ) : ℚ :=
  match numericFollowerId followerUserId with
  | none => 0
  | some userId => (orders.balances.find (userId, assetId)).elim 0 Orders.UserBalance.availableBalance

/-- `followerOrder`; `id` is the generated identifier. -/
def followerOrder (id : ℕ) (now : ℤ) (userId : ℕ) (event : TradeExecuted) (amount : ℚ) : Order where
  id := id
  userId := userId
  assetId := event.assetId
  side := event.side
  type := .market
  status := .pending
  amount := amount
  filledAmount := 0
  averageFillPrice := none
  price := none
  stopPrice := none
  trailingDelta := none
  trailingReferencePrice := none
  triggeredAt := none
  filledAt := none
  cancelledAt := none
  expiresAt := none
  createdAt := now

/-- The body of the transaction of `copyTradeForFollower`. -/
def mirror (fuel : ℕ) (now : ℤ) (order : Order) : Tx (List FillResult) := do
  if ← query (.insertOrder order) then
    let (_, fills) ← matchTakerOrder fuel now order
    return fills
  else
    throw .duplicateKey

/-- Where a call of `handleTradeExecuted` stands: before the subscriptions are read, in the
loop, or before the transaction of a subscription that the risk control admits. The deltas are those
of the loop. -/
inductive Stage : Type
  | waiting
  | copying (master : TraderProfile) (subs : List CopySubscription) (volumeDelta pnlDelta : ℚ)
  | placing (master : TraderProfile) (sub : CopySubscription) (decision : CopyDecision)
      (subs : List CopySubscription) (volumeDelta pnlDelta : ℚ)
  | finished

/-- A call of the listener. `cause` is the event and the subscription of the copied order that was
filled; an order of a user has none. -/
structure Handler where
  event : TradeExecuted
  cause : Option (ℕ × String)
  stage : Stage

/-- A copied order: the number of its event, the subscription, and the order. -/
structure Copy where
  event : ℕ
  subscription : String
  order : ℕ
deriving DecidableEq

/-- The tables, the calls of the listener and the copied orders. An event is numbered by the
position of its call. -/
structure Cascade where
  social : SocialDb
  orders : OrdersDb
  handlers : List Handler
  copies : List Copy

/-- The calls that some events start. -/
def started (cause : Option (ℕ × String)) (events : List TradeExecuted) : List Handler :=
  events.map fun event => ⟨event, cause, .waiting⟩

/-- The events of an order that a user placed. -/
def Cascade.start (social : SocialDb) (orders : OrdersDb) (events : List TradeExecuted) : Cascade :=
  ⟨social, orders, started none events, []⟩

/-- A turn of a call: `id` is the identifier that the next order is given, and `fails` says that the
query throws, a transaction after so many fills. -/
structure Turn where
  handler : ℕ
  id : ℕ
  now : ℤ
  fails : Option ℕ := none
deriving DecidableEq

namespace Cascade

/-- The call `k` with its stage. -/
def advance (c : Cascade) (k : ℕ) (h : Handler) (stage : Stage) : List Handler :=
  c.handlers.set k { h with stage }

/-- The stage after the queries of `subscriptionRepo` and `profileRepo`. -/
def afterReads (social : SocialDb) (event : TradeExecuted) : Stage :=
  if event.masterUserId = "" then .finished
  else if social.copiers event.masterUserId = [] then .finished
  else
    match social.profiles.find event.masterUserId with
    | none => .finished
    | some master =>
      if master.isAcceptingCopiers = false then .finished
      else .copying master (social.copiers event.masterUserId) 0 0

/-- The end of `handleTradeExecuted`. -/
def save (c : Cascade) (master : TraderProfile) (volumeDelta pnlDelta : ℚ) : SocialDb :=
  if 0 < volumeDelta ∨ 0 < pnlDelta then
    { c.social with profiles := c.social.profiles.save (master.addCopies ⟨c.social, volumeDelta, pnlDelta⟩) }
  else c.social

/-- `resolveCopyAmount` for the subscription of a call. -/
def resolve (c : Cascade) (event : TradeExecuted) (master : TraderProfile) (sub : CopySubscription) :
    Option CopySubscription × Option CopyDecision :=
  resolveCopyAmount sub event.toTradeExecutedEvent (followerAvailable c.orders sub.followerUserId event.assetId)
    master.performanceFeePct

/-- The subscription that the risk control has saved, if it has saved one. -/
def saveSubscription (social : SocialDb) (saved : Option CopySubscription) : SocialDb :=
  saved.elim social fun sub => { social with subscriptions := social.subscriptions.save sub }

/-- The transaction of a copied order, run alone: the fills, and the tables. The loop of the engine
ends within the iterations that it is given. -/
def transact (c : Cascade) (now : ℤ) (order : Order) : Except OrderError (List FillResult) × OrdersDb :=
  (mirror ((Orders.crossableMakers (c.orders.orders.save order) order).length + 1) now order).atomically sql.handler
    c.orders

/-- The transaction of the copied order of a call. The fills of one that throws have been
emitted. -/
def place (c : Cascade) (k : ℕ) (h : Handler) (turn : Turn) (master : TraderProfile) (sub : CopySubscription)
    (decision : CopyDecision) (subs : List CopySubscription) (volumeDelta pnlDelta : ℚ) : Cascade :=
  let skipped := c.advance k h (.copying master subs volumeDelta pnlDelta)
  match numericFollowerId sub.followerUserId with
  | none => { c with handlers := skipped }
  | some userId =>
    match c.transact turn.now (followerOrder turn.id turn.now userId h.event decision.amount), turn.fails with
    | (.error _, _), _ => { c with handlers := skipped }
    | (.ok fills, _), some n =>
      { c with handlers := skipped ++ started (some (k, sub.id)) ((fills.take n).map executed) }
    | (.ok fills, orders), none =>
      { c with
        orders
        handlers :=
          c.advance k h (.copying master subs (volumeDelta + decision.amount)
            (pnlDelta + if decision.feeAccrued then decision.amount * h.event.price else 0)) ++
          started (some (k, sub.id)) (fills.map executed)
        copies := c.copies ++ [⟨k, sub.id, turn.id⟩] }

/-- The call `k` runs up to its next query. A query that throws skips its subscription, and ends the
call outside the loop. The engine leaves the balances alone, so the balance of a follower is read in
the turn that saves its subscription. -/
def stepCall (c : Cascade) (k : ℕ) (h : Handler) (turn : Turn) : Cascade :=
  match h.stage, turn.fails with
  | .waiting, none => { c with handlers := c.advance k h (afterReads c.social h.event) }
  | .waiting, some _ => { c with handlers := c.advance k h .finished }
  | .copying master [] volumeDelta pnlDelta, none =>
    { c with
      social := c.save master volumeDelta pnlDelta
      handlers := c.advance k h .finished }
  | .copying _ [] _ _, some _ => { c with handlers := c.advance k h .finished }
  | .copying master (sub :: subs) volumeDelta pnlDelta, none =>
    { c with
      social := saveSubscription c.social (c.resolve h.event master sub).1
      handlers := c.advance k h <|
        (c.resolve h.event master sub).2.elim (.copying master subs volumeDelta pnlDelta) fun decision =>
          .placing master sub decision subs volumeDelta pnlDelta }
  | .copying master (_ :: subs) volumeDelta pnlDelta, some _ =>
    { c with handlers := c.advance k h (.copying master subs volumeDelta pnlDelta) }
  | .placing master sub decision subs volumeDelta pnlDelta, _ =>
    c.place k h turn master sub decision subs volumeDelta pnlDelta
  | .finished, _ => c

/-- A turn. -/
def step (c : Cascade) (turn : Turn) : Cascade :=
  match c.handlers[turn.handler]? with
  | none => c
  | some h => c.stepCall turn.handler h turn

end Cascade

/-- The cascade of an order that a user places with `OrdersService.placeOrder`. -/
def Cascade.ofOrder (social : SocialDb) (orders : OrdersDb) (fuel id : ℕ) (now : ℤ) (userId : ℕ)
    (dto : Orders.CreateOrderDto) : Cascade :=
  match (Orders.placeOrder fuel id now userId dto).atomically sql.handler orders with
  | (.error _, orders') => .start social orders' []
  | (.ok _, orders') => .start social orders' ((orders'.fills.drop orders.fills.length).map executed)

section Engine

variable {now : ℤ} {n : ℕ} {order : Order} {fills : List FillResult} {d d' : OrdersDb}

/-- The transaction of a copied order: the insert, the loop, and the save of the taker. -/
theorem eval_mirror (n : ℕ) (now : ℤ) (order : Order) (d : OrdersDb) :
    (mirror n now order).eval sql.handler d =
      if (d.orders.find order.id).isNone then
        match (matchLoop now n order []).eval sql.handler { d with orders := d.orders.save order } with
        | (.ok (taker, fills), d₁) => (.ok fills, { d₁ with orders := d₁.orders.save taker })
        | (.error e, d₁) => (.error e, d₁)
      else (.error .duplicateKey, d) := by
  rw [mirror, Prog.eval_bind, Prog.eval_perform, Orders.handler_insertOrder]
  dsimp only
  cases (d.orders.find order.id).isNone with
  | false => rfl
  | true =>
    simp only [if_true]
    rw [Prog.eval_bind, matchTakerOrder, Prog.eval_bind]
    cases (matchLoop now n order []).eval sql.handler { d with orders := d.orders.save order } with
    | mk result d₁ => cases result <;> rfl

/-- A copied order that goes through is the one order that its transaction adds. -/
theorem mirror_fills (h : (mirror n now order).eval sql.handler d = (.ok fills, d')) :
    d'.orders.rows.map Order.id = d.orders.rows.map Order.id ++ [order.id] ∧
      ∀ fill ∈ fills, fill.takerOrder.userId = order.userId := by
  rw [eval_mirror] at h
  split at h
  next hnew =>
    split at h
    next taker fills₁ d₁ hloop =>
      obtain ⟨rfl, rfl⟩ : fills₁ = fills ∧ { d₁ with orders := d₁.orders.save taker } = d' := by simpa using h
      obtain ⟨hkeys, hid, hfills⟩ := Orders.matchLoop_fills hloop
      have hrows : (d.orders.save order).rows.map Order.id = d.orders.rows.map Order.id ++ [order.id] := by
        rw [Table.rows_save_new (Option.isNone_iff_eq_none.mp hnew), List.map_append, List.map_singleton]
      -- the taker is saved over the row of the insert
      have hold : taker.id ∈ d₁.orders.rows.map Order.id := by
        rw [hkeys, hrows, hid]
        exact List.mem_append_right _ (List.mem_singleton_self _)
      obtain ⟨row, hrow, hrowid⟩ := List.mem_map.mp hold
      refine ⟨?_, fun fill hfill => (hfills fill hfill).resolve_left List.not_mem_nil⟩
      exact (Table.map_save_of_eq hrow hrowid hrowid.symm).trans (hkeys.trans hrows)
    · cases h
  · cases h

end Engine

end SocialTrading
