import PeerX.Foundations.Grouping
import PeerX.Orders.Database
import Mathlib.Tactic.Linarith
import Mathlib.Tactic.Ring

/-!
# Orders: the matching engine

`matchTakerOrder` fills a taker against resting LIMIT orders of the other side, best price first,
until nothing remains of it or no resting order crosses it. Run alone, its loop is a sequence of
fills (`Matching`), each of which empties the taker or removes one maker from the book, so it ends;
and it ends for one of the two reasons the source gives.

## Main results

* `matching_of_matchLoop`: a finished loop is a sequence of fills that ends with an empty taker or
  without a crossable order
* `matchLoop_ends`: the loop ends within one iteration more than there are crossable orders
* `snapshot_exact`: the levels of a snapshot are those of the resting orders
-/

namespace Orders

open Relational Concurrency Arithmetic Grouping

def applyFill (now : ℤ) (order : Order) (fillAmount fillPrice : ℚ) : Order :=
  let prevFilled := order.filledAmount
  let newFilled := prevFilled + fillAmount
  let prevNotional := JsNumber.num prevFilled * order.averageFillPrice.getD (.num 0)
  let order := { order with
    averageFillPrice := some ((prevNotional + JsNumber.num (fillAmount * fillPrice)) / JsNumber.num newFilled)
    filledAmount := newFilled }
  if order.amount ≤ newFilled then { order with status := .filled, filledAt := some now }
  else { order with status := .partiallyFilled }

section ApplyFill

variable (now : ℤ) (o : Order) (a p : ℚ)

@[simp] theorem applyFill_id : (applyFill now o a p).id = o.id := by
  simp only [applyFill]
  split <;> rfl

@[simp] theorem applyFill_userId : (applyFill now o a p).userId = o.userId := by
  simp only [applyFill]
  split <;> rfl

@[simp] theorem applyFill_assetId : (applyFill now o a p).assetId = o.assetId := by
  simp only [applyFill]
  split <;> rfl

@[simp] theorem applyFill_side : (applyFill now o a p).side = o.side := by
  simp only [applyFill]
  split <;> rfl

@[simp] theorem applyFill_type : (applyFill now o a p).type = o.type := by
  simp only [applyFill]
  split <;> rfl

@[simp] theorem applyFill_price : (applyFill now o a p).price = o.price := by
  simp only [applyFill]
  split <;> rfl

@[simp] theorem applyFill_trailingReferencePrice :
    (applyFill now o a p).trailingReferencePrice = o.trailingReferencePrice := by
  simp only [applyFill]
  split <;> rfl

@[simp] theorem applyFill_amount : (applyFill now o a p).amount = o.amount := by
  simp only [applyFill]
  split <;> rfl

@[simp] theorem applyFill_filledAmount :
    (applyFill now o a p).filledAmount = o.filledAmount + a := by
  simp only [applyFill]
  split <;> rfl

@[simp] theorem applyFill_averageFillPrice :
    (applyFill now o a p).averageFillPrice =
      some ((JsNumber.num o.filledAmount * o.averageFillPrice.getD (.num 0) + .num (a * p)) /
        .num (o.filledAmount + a)) := by
  simp only [applyFill]
  split <;> rfl

@[simp] theorem applyFill_remainingAmount :
    (applyFill now o a p).remainingAmount = o.remainingAmount - a := by
  simp only [Order.remainingAmount, applyFill_amount, applyFill_filledAmount]
  ring

theorem applyFill_status :
    (applyFill now o a p).status =
      if o.amount ≤ o.filledAmount + a then .filled else .partiallyFilled := by
  simp only [applyFill]
  split <;> simp

theorem applyFill_open_iff : (applyFill now o a p).Open ↔ a < o.remainingAmount := by
  unfold Order.Open Order.remainingAmount
  rw [applyFill_status]
  split
  · next h =>
    simp
    linarith
  · next h =>
    simp
    linarith

end ApplyFill

/-- The amount of a fill: the smaller remainder. -/
def fillAmount (taker maker : Order) : ℚ := min taker.remainingAmount maker.remainingAmount

/-- The price of a fill: the maker's. -/
def fillPrice (maker : Order) : ℚ := maker.price.getD 0

/-- The trade row of a fill. -/
def fillTrade (taker : Order) (amount price : ℚ) : Trade where
  userId := taker.userId
  asset := toString taker.assetId
  type := taker.side
  amount := amount
  price := price
  totalValue := amount * price
  status := "FILLED"

/-- The loop of `matchTakerOrder`, for at most the given number of iterations. -/
def matchLoop (now : ℤ) : ℕ → Order → List FillResult → Tx (Order × List FillResult)
  | 0, _, _ => throw .unfinished
  | n + 1, takerOrder, fills => do
    if 0 < takerOrder.remainingAmount then
      match ← query (.lockMaker takerOrder) with
      | none => return (takerOrder, fills)
      | some makerOrder =>
        let amount := fillAmount takerOrder makerOrder
        let price := fillPrice makerOrder
        let takerOrder := applyFill now takerOrder amount price
        let makerOrder := applyFill now makerOrder amount price
        query (.saveOrder makerOrder)
        query (.insertTrade (fillTrade takerOrder amount price))
        let fill : FillResult := ⟨takerOrder, makerOrder, amount, price⟩
        query (.pushFill fill)
        matchLoop now n takerOrder (fills ++ [fill])
    else
      return (takerOrder, fills)

/-- `OrderBookService.matchTakerOrder`: the taker as the loop left it, and the fills. -/
def matchTakerOrder (fuel : ℕ) (now : ℤ) (takerOrder : Order) : Tx (Order × List FillResult) := do
  let (takerOrder, fills) ← matchLoop now fuel takerOrder []
  query (.saveOrder takerOrder)
  return (takerOrder, fills)

/-! ## The loop run alone -/

/-- The taker after one fill. -/
def takerAfter (now : ℤ) (taker maker : Order) : Order :=
  applyFill now taker (fillAmount taker maker) (fillPrice maker)

/-- The maker after one fill. -/
def makerAfter (now : ℤ) (taker maker : Order) : Order :=
  applyFill now maker (fillAmount taker maker) (fillPrice maker)

/-- The reported fill. -/
def fillOf (now : ℤ) (taker maker : Order) : FillResult :=
  ⟨takerAfter now taker maker, makerAfter now taker maker, fillAmount taker maker, fillPrice maker⟩

/-- The database after one iteration: the maker is saved, the taker is not. -/
def OrdersDb.afterFill (d : OrdersDb) (now : ℤ) (taker maker : Order) : OrdersDb :=
  { d with
    orders := d.orders.save (makerAfter now taker maker)
    trades := d.trades ++ [fillTrade taker (fillAmount taker maker) (fillPrice maker)]
    fills := d.fills ++ [fillOf now taker maker] }

theorem eval_matchLoop_succ (now : ℤ) (n : ℕ) (taker : Order) (fills : List FillResult)
    (d : OrdersDb) :
    (matchLoop now (n + 1) taker fills).eval sql.handler d =
      if 0 < taker.remainingAmount then
        match bestMaker d.orders taker with
        | none => (.ok (taker, fills), d)
        | some maker => (matchLoop now n (takerAfter now taker maker)
            (fills ++ [fillOf now taker maker])).eval sql.handler (d.afterFill now taker maker)
      else (.ok (taker, fills), d) := by
  simp only [matchLoop]
  split
  · simp only [Prog.perform_bind, Prog.eval_call, handler_lockMaker]
    cases bestMaker d.orders taker with
    | none => rfl
    | some maker => simp [OrdersDb.afterFill, takerAfter, makerAfter, fillOf, fillTrade]
  · rfl

/-- A sequence of fills of one taker, each against the best crossable order. -/
inductive Matching (now : ℤ) : OrdersDb → Order → OrdersDb → Order → Prop
  | done (d : OrdersDb) (taker : Order) : Matching now d taker d taker
  | fill {d d' : OrdersDb} {taker taker' maker : Order} (hpos : 0 < taker.remainingAmount)
      (hbest : bestMaker d.orders taker = some maker)
      (rest : Matching now (d.afterFill now taker maker) (takerAfter now taker maker) d' taker') :
      Matching now d taker d' taker'

/-- No resting order crosses the taker. -/
def NoCrossable (orders : Table Order.id) (taker : Order) : Prop :=
  ∀ maker ∈ orders.rows, ¬ Crossable taker maker

instance (orders : Table Order.id) (taker : Order) : Decidable (NoCrossable orders taker) :=
  inferInstanceAs (Decidable (∀ maker ∈ orders.rows, ¬ Crossable taker maker))

/-- **The exit of the loop**: a loop that finishes is a sequence of fills, after which nothing
remains of the taker or no resting order crosses it. -/
theorem matching_of_matchLoop {now : ℤ} {n : ℕ} {taker taker' : Order}
    {fills fills' : List FillResult} {d d' : OrdersDb}
    (h : (matchLoop now n taker fills).eval sql.handler d = (.ok (taker', fills'), d')) :
    Matching now d taker d' taker' ∧
      (taker'.remainingAmount ≤ 0 ∨ NoCrossable d'.orders taker') := by
  induction n generalizing taker fills d with
  | zero => simp [matchLoop] at h
  | succ n ih =>
    rw [eval_matchLoop_succ] at h
    split at h
    · next hpos =>
      split at h
      · next hbest =>
        obtain ⟨⟨rfl, -⟩, rfl⟩ : (taker = taker' ∧ _) ∧ d = d' := by simpa using h
        exact ⟨.done d taker, .inr (bestMaker_eq_none.mp hbest)⟩
      · next maker hbest =>
        obtain ⟨hm, hexit⟩ := ih h
        exact ⟨.fill hpos hbest hm, hexit⟩
    · next hpos =>
      obtain ⟨⟨rfl, -⟩, rfl⟩ : (taker = taker' ∧ _) ∧ d = d' := by simpa using h
      exact ⟨.done d taker, .inl (not_lt.mp hpos)⟩

theorem matching_of_matchTakerOrder {now : ℤ} {n : ℕ} {taker taker' : Order}
    {fills : List FillResult} {d d' : OrdersDb}
    (h : (matchTakerOrder n now taker).eval sql.handler d = (.ok (taker', fills), d')) :
    ∃ d₁, Matching now d taker d₁ taker' ∧ d' = { d₁ with orders := d₁.orders.save taker' } ∧
      (taker'.remainingAmount ≤ 0 ∨ NoCrossable d₁.orders taker') := by
  obtain ⟨⟨t, fs⟩, d₁, h₁, h₂⟩ := Prog.eval_bind_ok _ h
  replace h₂ : ((.ok (t, fs) : Except OrderError _), { d₁ with orders := d₁.orders.save t }) =
      (.ok (taker', fills), d') := h₂
  simp only [Prod.mk.injEq, Except.ok.injEq] at h₂
  obtain ⟨⟨rfl, -⟩, rfl⟩ := h₂
  obtain ⟨hm, hexit⟩ := matching_of_matchLoop h₁
  exact ⟨d₁, hm, rfl, hexit⟩

/-- The loop of the engine adds no order, and every fill is one of the taker. -/
theorem matchLoop_fills {now : ℤ} {n : ℕ} {taker taker' : Order} {fills fills' : List FillResult} {d d' : OrdersDb}
    (h : (matchLoop now n taker fills).eval sql.handler d = (.ok (taker', fills'), d')) :
    d'.orders.rows.map Order.id = d.orders.rows.map Order.id ∧ taker'.id = taker.id ∧
      ∀ fill ∈ fills', fill ∈ fills ∨ fill.takerOrder.userId = taker.userId := by
  induction n generalizing taker fills d with
  | zero => simp [matchLoop] at h
  | succ n ih =>
    have hdone : ((.ok (taker, fills) : Except OrderError _), d) = (.ok (taker', fills'), d') →
        d'.orders.rows.map Order.id = d.orders.rows.map Order.id ∧ taker'.id = taker.id ∧
          ∀ fill ∈ fills', fill ∈ fills ∨ fill.takerOrder.userId = taker.userId := by
      intro he
      obtain ⟨⟨rfl, rfl⟩, rfl⟩ : (taker = taker' ∧ fills = fills') ∧ d = d' := by simpa using he
      exact ⟨rfl, rfl, fun _ hfill => .inl hfill⟩
    rw [eval_matchLoop_succ] at h
    split at h
    · split at h
      · exact hdone h
      next maker hbest =>
        obtain ⟨hkeys, hid, hfills⟩ := ih h
        have hsaved : (makerAfter now taker maker).id = maker.id := applyFill_id ..
        have htaker : (takerAfter now taker maker).id = taker.id := applyFill_id ..
        have huser : (takerAfter now taker maker).userId = taker.userId := applyFill_userId ..
        refine ⟨hkeys.trans ?_, hid.trans htaker, ?_⟩
        · -- the maker is saved over its row
          exact Table.map_save_of_eq (bestMaker_mem hbest).1 hsaved.symm hsaved
        · intro fill hfill
          rcases hfills fill hfill with hold | hnew
          · rcases List.mem_append.mp hold with hold | hlast
            · exact .inl hold
            · rw [List.mem_singleton.mp hlast]
              exact .inr huser
          · exact .inr (hnew.trans huser)
    · exact hdone h

/-! ## Termination -/

/-- The fields the maker query reads of the taker are not changed by a fill. -/
theorem crossable_applyFill (now : ℤ) (taker maker : Order) (a p : ℚ) :
    Crossable (applyFill now taker a p) maker ↔ Crossable taker maker := by
  simp [Crossable, acceptsPrice]

theorem fill_uses_up (now : ℤ) (taker maker : Order) :
    (takerAfter now taker maker).remainingAmount = 0 ∨ ¬ (makerAfter now taker maker).Open := by
  unfold takerAfter makerAfter fillAmount
  rcases le_total taker.remainingAmount maker.remainingAmount with h | h
  · left
    rw [applyFill_remainingAmount, min_eq_left h, sub_self]
  · right
    rw [applyFill_open_iff, min_eq_right h]
    exact lt_irrefl _

theorem filter_length_upsert_lt {key : Order → ℕ} {p : Order → Bool} (r old : Order)
    (hk : key old = key r) (hold : p old) (hr : ¬ p r) {l : List Order}
    (hl : (l.map key).Nodup) (hmem : old ∈ l) :
    ((upsert key r l).filter p).length < (l.filter p).length := by
  induction l with
  | nil => simp at hmem
  | cons x xs ih =>
    rw [List.map_cons, List.nodup_cons] at hl
    by_cases hx : key x = key r
    · -- the head is the row that is overwritten
      obtain rfl : old = x := by
        rcases List.mem_cons.mp hmem with h | h
        · exact h
        · exact absurd (List.mem_map.mpr ⟨old, h, hk.trans hx.symm⟩) hl.1
      simp [upsert, hx, hold, hr]
    · have hmem' : old ∈ xs := by
        rcases List.mem_cons.mp hmem with h | h
        · exact absurd (h ▸ hk) hx
        · exact h
      have := ih hl.2 hmem'
      simp only [upsert, if_neg hx, List.filter_cons]
      split <;> simpa using this

/-- **The loop ends** within one iteration more than there are crossable orders. -/
theorem matchLoop_ends {now : ℤ} {n : ℕ} {taker : Order} {fills : List FillResult} {d : OrdersDb}
    (h : taker.remainingAmount ≤ 0 ∧ 0 < n ∨ (crossableMakers d.orders taker).length < n) :
    ∃ o d', (matchLoop now n taker fills).eval sql.handler d = (.ok o, d') := by
  -- each fill closes the maker or uses up the taker
  induction n generalizing taker fills d with
  | zero => simp at h
  | succ n ih =>
    rw [eval_matchLoop_succ]
    split
    · next hpos =>
      have hn : (crossableMakers d.orders taker).length < n + 1 :=
        h.resolve_left fun hz => absurd hpos (not_lt.mpr hz.1)
      cases hbest : bestMaker d.orders taker with
      | none => exact ⟨_, _, rfl⟩
      | some maker =>
        obtain ⟨hmem, hcross⟩ := bestMaker_mem hbest
        have hpos' : 0 < (crossableMakers d.orders taker).length :=
          List.length_pos_of_mem (mem_crossableMakers.mpr ⟨hmem, hcross⟩)
        refine ih ?_
        rcases fill_uses_up now taker maker with hz | hclosed
        · exact .inl ⟨hz.le, by omega⟩
        · right
          have hlt : (crossableMakers (d.afterFill now taker maker).orders
              (takerAfter now taker maker)).length < (crossableMakers d.orders taker).length := by
            have e : crossableMakers (d.afterFill now taker maker).orders
                (takerAfter now taker maker) =
                (upsert Order.id (makerAfter now taker maker) d.orders.rows).filter
                  (Crossable taker ·) := by
              simp only [crossableMakers, takerAfter, crossable_applyFill]
              rfl
            rw [e]
            refine filter_length_upsert_lt _ maker (by simp [makerAfter]) (by simpa using hcross)
              ?_ d.orders.nodup hmem
            simp only [decide_eq_true_eq]
            exact fun hc => hclosed hc.2.2.2.1
          omega
    · exact ⟨_, _, rfl⟩

/-! ## The snapshot -/

structure OrderBookLevelSnapshot where
  price : ℚ
  amount : ℚ
  count : ℕ
deriving DecidableEq

structure OrderBookSnapshot where
  assetId : ℕ
  bids : List OrderBookLevelSnapshot
  asks : List OrderBookLevelSnapshot
deriving DecidableEq

/-- One order added to the levels: a new price gets a level of its own at the end. -/
def addToLevels : List OrderBookLevelSnapshot → Order → List OrderBookLevelSnapshot
  | [], o => [⟨o.price.getD 0, o.remainingAmount, 1⟩]
  | l :: ls, o =>
    if l.price = o.price.getD 0 then
      ⟨l.price, l.amount + o.remainingAmount, l.count + 1⟩ :: ls
    else l :: addToLevels ls o

/-- The levels of one side, in the order their prices first occur. -/
def aggregate (resting : List Order) (side : OrderSide) : List OrderBookLevelSnapshot :=
  (resting.filter (·.side = side)).foldl addToLevels []

def getOrderBookSnapshot (d : OrdersDb) (assetId : ℕ) : OrderBookSnapshot :=
  let resting := d.orders.rows.filter fun o => o.assetId = assetId ∧ o.type = .limit ∧ o.Open
  { assetId
    bids := (aggregate resting .buy).mergeSort fun a b => b.price ≤ a.price
    asks := (aggregate resting .sell).mergeSort fun a b => a.price ≤ b.price }

theorem price_mem_addToLevels {ls : List OrderBookLevelSnapshot} {o : Order}
    {l : OrderBookLevelSnapshot} (h : l ∈ addToLevels ls o) :
    l.price = o.price.getD 0 ∨ ∃ l' ∈ ls, l'.price = l.price := by
  induction ls with
  | nil =>
    obtain rfl : l = ⟨o.price.getD 0, o.remainingAmount, 1⟩ := by simpa [addToLevels] using h
    exact .inl rfl
  | cons x xs ih =>
    simp only [addToLevels] at h
    split at h
    · next hx =>
      rcases List.mem_cons.mp h with rfl | h
      · exact .inl hx
      · exact .inr ⟨l, List.mem_cons_of_mem _ h, rfl⟩
    · rcases List.mem_cons.mp h with rfl | h
      · exact .inr ⟨l, List.mem_cons_self, rfl⟩
      · rcases ih h with h | ⟨l', h', e⟩
        · exact .inl h
        · exact .inr ⟨l', List.mem_cons_of_mem _ h', e⟩

/-- Every level is at the price of a resting order of its side. -/
theorem exists_order_of_level {resting : List Order} {side : OrderSide}
    {l : OrderBookLevelSnapshot} (h : l ∈ aggregate resting side) :
    ∃ o ∈ resting, o.side = side ∧ o.price.getD 0 = l.price := by
  have key : ∀ (os : List Order) (ls : List OrderBookLevelSnapshot),
      l ∈ os.foldl addToLevels ls → (∃ o ∈ os, o.price.getD 0 = l.price) ∨
        ∃ l' ∈ ls, l'.price = l.price := by
    intro os
    induction os with
    | nil => exact fun ls h => .inr ⟨l, h, rfl⟩
    | cons o os ih =>
      intro ls h
      rcases ih _ h with ⟨o', ho', e⟩ | ⟨l', hl', e⟩
      · exact .inl ⟨o', List.mem_cons_of_mem _ ho', e⟩
      · rcases price_mem_addToLevels hl' with e' | ⟨l'', hl'', e'⟩
        · exact .inl ⟨o, List.mem_cons_self, e'.symm.trans e⟩
        · exact .inr ⟨l'', hl'', e'.trans e⟩
  rcases key _ _ h with ⟨o, ho, e⟩ | ⟨l', hl', -⟩
  · obtain ⟨ho, hs⟩ := List.mem_filter.mp ho
    exact ⟨o, ho, by simpa using hs, e⟩
  · simp at hl'

/-! ### What the levels hold -/

/-- The level of the orders with one price. -/
def levelOf (group : ℚ × List Order) : OrderBookLevelSnapshot :=
  ⟨group.1, (group.2.map Order.remainingAmount).sum, group.2.length⟩

theorem addToLevels_map (groups : List (ℚ × List Order)) (o : Order) :
    addToLevels (groups.map levelOf) o = (addTo (o.price.getD 0) o groups).map levelOf := by
  induction groups with
  | nil => simp [addToLevels, addTo, levelOf]
  | cons group groups ih =>
    rw [List.map_cons, addToLevels, addTo]
    by_cases hprice : group.1 = o.price.getD 0
    · rw [if_pos hprice, if_pos (show (levelOf group).price = _ from hprice)]
      simp [levelOf]
    · rw [if_neg hprice, if_neg (show (levelOf group).price ≠ _ from hprice), ih, List.map_cons]

/-- The levels are those of the groups of the orders with one price. -/
theorem aggregate_eq (resting : List Order) (side : OrderSide) : aggregate resting side =
    (grouped (fun o : Order => o.price.getD 0) (resting.filter (·.side = side))).map levelOf := by
  rw [aggregate]
  induction resting.filter (·.side = side) using List.reverseRecOn with
  | nil => rfl
  | append_singleton os o ih =>
    rw [List.foldl_append, ih, List.foldl_cons, List.foldl_nil, addToLevels_map, grouped_append_singleton]

/-- The levels of a side. -/
def OrderBookSnapshot.levels (snapshot : OrderBookSnapshot) : OrderSide → List OrderBookLevelSnapshot
  | .buy => snapshot.bids
  | .sell => snapshot.asks

/-- The first price is better on a side: higher for a BUY order, lower for a SELL order. -/
def OrderSide.better : OrderSide → ℚ → ℚ → Prop
  | .buy, p, q => q < p
  | .sell, p, q => p < q

/-- The resting orders of a side. -/
def restingOrders (d : OrdersDb) (assetId : ℕ) (side : OrderSide) : List Order :=
  (d.orders.rows.filter fun o => o.assetId = assetId ∧ o.type = .limit ∧ o.Open).filter (·.side = side)

theorem perm_levels (d : OrdersDb) (assetId : ℕ) (side : OrderSide) :
    ((getOrderBookSnapshot d assetId).levels side).Perm
      ((grouped (fun o : Order => o.price.getD 0) (restingOrders d assetId side)).map levelOf) := by
  rw [restingOrders, ← aggregate_eq]
  cases side
  · exact List.mergeSort_perm _ _
  · exact List.mergeSort_perm _ _

/-- **The snapshot is the resting book**: the levels of a side go from the best price to the worst,
each price of a resting order has one level, and the level has the number of these orders and what
remains of them. -/
theorem snapshot_exact (d : OrdersDb) (assetId : ℕ) (side : OrderSide) :
    ((getOrderBookSnapshot d assetId).levels side).Pairwise (fun a b => side.better a.price b.price) ∧
      (∀ price, (∃ l ∈ (getOrderBookSnapshot d assetId).levels side, l.price = price) ↔
        ∃ o ∈ restingOrders d assetId side, o.price.getD 0 = price) ∧
      ∀ l ∈ (getOrderBookSnapshot d assetId).levels side, ∀ orders,
        orders = ((restingOrders d assetId side).filter fun o => o.price.getD 0 = l.price) →
        l.amount = (orders.map Order.remainingAmount).sum ∧ l.count = orders.length := by
  have hperm := perm_levels d assetId side
  have hprices : (((getOrderBookSnapshot d assetId).levels side).map OrderBookLevelSnapshot.price).Perm
      ((grouped (fun o : Order => o.price.getD 0) (restingOrders d assetId side)).map Prod.fst) := by
    refine (hperm.map _).trans (List.Perm.of_eq ?_)
    rw [List.map_map]
    rfl
  refine ⟨?_, fun price => ?_, ?_⟩
  · have hne := List.pairwise_map.mp (hprices.nodup_iff.mpr (nodup_grouped _ _))
    cases side with
    | buy =>
      have hsorted : (getOrderBookSnapshot d assetId).bids.Pairwise fun a b => decide (b.price ≤ a.price) :=
        List.pairwise_mergeSort (by simpa using fun a b c h h' => le_trans h' h) (by simpa using fun a b => le_total _ _) _
      exact (hne.and hsorted).imp fun h => lt_of_le_of_ne (of_decide_eq_true h.2) (Ne.symm h.1)
    | sell =>
      have hsorted : (getOrderBookSnapshot d assetId).asks.Pairwise fun a b => decide (a.price ≤ b.price) :=
        List.pairwise_mergeSort (by simpa using fun a b c => le_trans) (by simpa using fun a b => le_total _ _) _
      exact (hne.and hsorted).imp fun h => lt_of_le_of_ne (of_decide_eq_true h.2) h.1
  · have hkeys := (hprices.mem_iff (a := price)).trans mem_keys_grouped
    simpa only [List.mem_map] using hkeys
  · rintro l hl orders rfl
    obtain ⟨group, hgroup, rfl⟩ := List.mem_map.mp (hperm.mem_iff.mp hl)
    have horders := mem_grouped (k := group.1) hgroup
    exact ⟨congrArg (fun os => (os.map Order.remainingAmount).sum) horders, congrArg List.length horders⟩

end Orders
