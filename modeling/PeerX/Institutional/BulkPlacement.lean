import PeerX.Institutional.BulkTrade

/-!
# Institutional clients: bulk trades and single orders

A batch that is not atomic, next to the same items placed one after the other through the order
service. Both lock the same amounts and store the same orders until the first MARKET or LIMIT item
that crosses a resting order: the order service fills it, and the batch leaves it resting.
-/

namespace Institutional

open Relational Concurrency Orders

/-! ## One item through the order service -/

section Item

variable {d : OrdersDb} {id userId : ℕ} {now : ℤ} {dto : BulkTradeItemDto}

/-- MARKET and LIMIT orders are matched when they are placed. -/
def Active (dto : BulkTradeItemDto) : Prop := dto.type = .market ∨ dto.type = .limit

instance (dto : BulkTradeItemDto) : Decidable (Active dto) := inferInstanceAs (Decidable (_ ∨ _))

/-- The item crosses no resting order. -/
def Quiet (d : OrdersDb) (id : ℕ) (now : ℤ) (userId : ℕ) (dto : BulkTradeItemDto) : Prop :=
  Active dto → NoCrossable d.orders (bulkOrder id now userId dto)

instance (d : OrdersDb) (id : ℕ) (now : ℤ) (userId : ℕ) (dto : BulkTradeItemDto) :
    Decidable (Quiet d id now userId dto) :=
  inferInstanceAs (Decidable (_ → _))

/-- `placeOrder` for the item, in its transaction. The matching loop gets more iterations than there
are orders. -/
def placeItem (id : ℕ) (now : ℤ) (userId : ℕ) (dto : BulkTradeItemDto) (d : OrdersDb) : OrdersDb :=
  ((placeOrder (d.orders.rows.length + 2) id now userId dto.toCreateOrderDto).atomically sql.handler d).2

@[simp] theorem toCreateOrderDto_side : dto.toCreateOrderDto.side = dto.side := rfl

@[simp] theorem toCreateOrderDto_assetId : dto.toCreateOrderDto.assetId = dto.assetId := rfl

@[simp] theorem toCreateOrderDto_amount : dto.toCreateOrderDto.amount = dto.amount := rfl

theorem newOrder_toCreateOrderDto : newOrder id now userId dto.toCreateOrderDto = bulkOrder id now userId dto := by
  unfold newOrder bulkOrder BulkTradeItemDto.toCreateOrderDto
  simp only [toOrderType_eq_limit, toOrderType_eq_stopLoss, toOrderType_eq_takeProfit,
    toOrderType_ne_trailingStop, if_false, Option.bind_none]

theorem validateOrderShape_accepted (h : Accepted dto) : validateOrderShape dto.toCreateOrderDto = pure () := by
  have hprice : ¬ (dto.type = .limit ∧ dto.price = none) := fun ⟨ht, hp⟩ => h.price ht hp
  have hstop : ¬ ((dto.type = .stopLoss ∨ dto.type = .takeProfit) ∧ dto.stopPrice = none) :=
    fun ⟨ht, hp⟩ => h.stopPrice ht hp
  simp only [validateOrderShape, BulkTradeItemDto.toCreateOrderDto, toOrderType_eq_limit, toOrderType_eq_stopLoss,
    toOrderType_eq_takeProfit, toOrderType_ne_trailingStop, if_neg hprice, if_neg hstop, false_and, if_false]

theorem enterOrder_placed (h : GoesThrough d id userId dto) :
    (enterOrder id now userId dto.toCreateOrderDto).eval sql.handler d =
      (.ok (bulkOrder id now userId dto), placed d id now userId dto) := by
  have hnew : d.orders.find (bulkOrder id now userId dto).id = none := h.unused
  simp only [enterOrder, Prog.perform_bind, Prog.eval_call, handler_lockBalance, toCreateOrderDto_side,
    toCreateOrderDto_assetId, toCreateOrderDto_amount]
  rcases dto.side.buy_or_sell with hside | hside
  · simp [hside, handler_insertOrder, newOrder_toCreateOrderDto, hnew, placed, reserve]
  · obtain ⟨b, hb, hle⟩ := h.covered hside
    have hb' : d.balances.find (userId, dto.assetId) = some b := hb
    simp [hside, hb', not_lt.mpr hle, handler_insertOrder, newOrder_toCreateOrderDto, hnew, placed, reserve]

theorem enterOrder_refused (now : ℤ) (haccepted : Accepted dto) (h : ¬ GoesThrough d id userId dto) :
    ∃ e, ((enterOrder id now userId dto.toCreateOrderDto).eval sql.handler d).1 = .error e := by
  simp only [enterOrder, Prog.perform_bind, Prog.eval_call, handler_lockBalance, toCreateOrderDto_side,
    toCreateOrderDto_assetId, toCreateOrderDto_amount]
  rcases dto.side.buy_or_sell with hside | hside
  · have hcovered : Covered d userId dto := fun hsell => by simp [hside] at hsell
    have hused : d.orders.find (bulkOrder id now userId dto).id ≠ none :=
      fun hnew => h ⟨haccepted, hcovered, hnew⟩
    simp [hside, handler_insertOrder, newOrder_toCreateOrderDto, hused]
  · cases hb : d.balances.find (userId, dto.assetId) with
    | none => simp [hside]
    | some b =>
      by_cases hlt : b.availableBalance < dto.amount
      · simp [hside, hlt]
      · have hused : d.orders.find (bulkOrder id now userId dto).id ≠ none :=
          fun hnew => h ⟨haccepted, fun _ => ⟨b, hb, not_lt.mp hlt⟩, hnew⟩
        simp [hside, hlt, handler_insertOrder, newOrder_toCreateOrderDto, hused]

/-- An accepted item that does not go through is refused by the order service as well. -/
theorem placeItem_refused (now : ℤ) (haccepted : Accepted dto) (h : ¬ GoesThrough d id userId dto) :
    placeItem id now userId dto d = d := by
  obtain ⟨e, he⟩ := enterOrder_refused now haccepted h
  have herror : ∃ e, ((placeOrder (d.orders.rows.length + 2) id now userId dto.toCreateOrderDto).eval
      sql.handler d).1 = .error e := by
    refine ⟨e, ?_⟩
    rw [placeOrder, validateOrderShape_accepted haccepted, pure_bind, Prog.eval_bind]
    rcases hr : (enterOrder id now userId dto.toCreateOrderDto).eval sql.handler d with ⟨e' | o, d'⟩
    · simpa [hr] using he
    · rw [hr] at he
      cases he
  obtain ⟨e', he'⟩ := herror
  unfold placeItem
  rcases Prog.atomically_cases sql.handler (placeOrder (d.orders.rows.length + 2) id now userId
    dto.toCreateOrderDto) d with ⟨o, d', hok, -⟩ | ⟨e'', -, hatom⟩
  · simp [hok] at he'
  · rw [hatom]

/-- An item that goes through is entered, and matched when it is active. -/
theorem eval_placeOrder (fuel : ℕ) (h : GoesThrough d id userId dto) :
    (placeOrder fuel id now userId dto.toCreateOrderDto).eval sql.handler d =
      if Active dto then
        ((fun r => r.1) <$> matchTakerOrder fuel now (bulkOrder id now userId dto)).eval sql.handler
          (placed d id now userId dto)
      else (.ok (bulkOrder id now userId dto), placed d id now userId dto) := by
  have hactive : (dto.toCreateOrderDto.type = .market ∨ dto.toCreateOrderDto.type = .limit) ↔ Active dto := by
    simp [BulkTradeItemDto.toCreateOrderDto, toOrderType_eq_market, toOrderType_eq_limit, Active]
  rw [placeOrder, validateOrderShape_accepted h.accepted, pure_bind, Prog.eval_bind, enterOrder_placed h]
  simp only [hactive]
  split
  · rw [map_eq_pure_bind]
  · rfl

theorem noCrossable_placed (h : d.orders.find id = none) :
    NoCrossable (placed d id now userId dto).orders (bulkOrder id now userId dto) ↔
      NoCrossable d.orders (bulkOrder id now userId dto) := by
  have hself : ¬ Crossable (bulkOrder id now userId dto) (bulkOrder id now userId dto) := by
    intro hc
    have hside := hc.2.1
    cases hs : (bulkOrder id now userId dto).side <;> simp [hs, OrderSide.opposite] at hside
  unfold NoCrossable
  rw [placed_orders, Table.rows_save_new (r := bulkOrder id now userId dto) h]
  constructor
  · intro hno maker hm
    exact hno maker (List.mem_append_left _ hm)
  · intro hno maker hm
    rcases List.mem_append.mp hm with hm | hm
    · exact hno maker hm
    · obtain rfl := List.mem_singleton.mp hm
      exact hself

end Item

/-! ## Matching -/

section Matching

variable {d d' : OrdersDb} {now : ℤ} {taker taker' : Order}

/-- A taker that crosses no resting order is stored as it is. -/
theorem matchTakerOrder_quiet (n : ℕ) (hno : NoCrossable d.orders taker) :
    (matchTakerOrder (n + 1) now taker).eval sql.handler d =
      (.ok (taker, []), { d with orders := d.orders.save taker }) := by
  have hbest : bestMaker d.orders taker = none := bestMaker_eq_none.mpr hno
  have hloop : (matchLoop now (n + 1) taker []).eval sql.handler d = (.ok (taker, []), d) := by
    rw [eval_matchLoop_succ, hbest]
    split <;> rfl
  rw [matchTakerOrder, Prog.eval_bind, hloop]
  rfl

theorem fills_of_matching (h : Matching now d taker d' taker') : d.fills.length ≤ d'.fills.length := by
  induction h with
  | done => exact le_rfl
  | fill hpos hbest rest ih =>
    simp only [OrdersDb.afterFill, List.length_append, List.length_singleton] at ih
    omega

theorem stored_of_matching {k : ℕ} (h : Matching now d taker d' taker') (hk : (d.orders.find k).isSome) :
    (d'.orders.find k).isSome := by
  induction h with
  | done => exact hk
  | fill hpos hbest rest ih => exact ih (Table.isSome_find_save hk)

theorem matching_of_crossable {n : ℕ} (now : ℤ) (hpos : 0 < taker.remainingAmount) (hcross : ¬ NoCrossable d.orders taker)
    (hn : d.orders.rows.length < n) :
    ∃ r d₁, (matchTakerOrder n now taker).eval sql.handler d =
        (.ok r, { d₁ with orders := d₁.orders.save r.1 }) ∧
      Matching now d taker d₁ r.1 ∧ d.fills.length < d₁.fills.length := by
  have hfew : (crossableMakers d.orders taker).length < n := (List.length_filter_le _ _).trans_lt hn
  have hends : ∃ o d', (matchLoop now n taker []).eval sql.handler d = (.ok o, d') := matchLoop_ends (.inr hfew)
  obtain ⟨⟨taker', fills⟩, d₁, hloop⟩ := hends
  obtain ⟨hmatching, hexit⟩ := matching_of_matchLoop hloop
  refine ⟨(taker', fills), d₁, ?_, hmatching, ?_⟩
  · rw [matchTakerOrder, Prog.eval_bind, hloop]
    rfl
  · cases hmatching with
    | done => exact absurd hexit (not_or.mpr ⟨not_le.mpr hpos, hcross⟩)
    | fill hpos' hbest rest =>
      have hrest := fills_of_matching rest
      simp only [OrdersDb.afterFill, List.length_append, List.length_singleton] at hrest
      omega

end Matching

section Place

variable {d : OrdersDb} {id userId : ℕ} {now : ℤ} {dto : BulkTradeItemDto}

/-- An item that crosses no resting order leaves the same tables through both services. -/
theorem placeItem_quiet (h : GoesThrough d id userId dto) (hquiet : Quiet d id now userId dto) :
    placeItem id now userId dto d = placed d id now userId dto := by
  have heval : ∃ o, (placeOrder (d.orders.rows.length + 2) id now userId dto.toCreateOrderDto).eval sql.handler d =
      (.ok o, placed d id now userId dto) := by
    rw [eval_placeOrder _ h]
    split
    · next hactive =>
      rw [Prog.eval_map, matchTakerOrder_quiet _ ((noCrossable_placed h.unused).mpr (hquiet hactive))]
      refine ⟨bulkOrder id now userId dto, ?_⟩
      simp only [placed_orders, Table.save_save]
      rfl
    · exact ⟨_, rfl⟩
  obtain ⟨o, ho⟩ := heval
  simp [placeItem, Prog.atomically, ho]

/-- An item that crosses a resting order is filled by the order service. -/
theorem placeItem_matched (h : GoesThrough d id userId dto) (hquiet : ¬ Quiet d id now userId dto) :
    d.fills.length < (placeItem id now userId dto d).fills.length ∧
      ∀ k, ((placed d id now userId dto).orders.find k).isSome →
        ((placeItem id now userId dto d).orders.find k).isSome := by
  obtain ⟨hactive, hcross⟩ : Active dto ∧ ¬ NoCrossable d.orders (bulkOrder id now userId dto) := by
    simpa [Quiet] using hquiet
  have hpos : 0 < (bulkOrder id now userId dto).remainingAmount := by
    simpa [Order.remainingAmount, bulkOrder] using h.accepted.amount_pos
  have hlength : (placed d id now userId dto).orders.rows.length < d.orders.rows.length + 2 := by
    rw [placed_orders, Table.rows_save_new (r := bulkOrder id now userId dto) h.unused]
    simp
  obtain ⟨r, d₁, hok, hmatching, hfills⟩ :=
    matching_of_crossable now hpos (mt (noCrossable_placed h.unused).mp hcross) hlength
  have hplaced : placeItem id now userId dto d = { d₁ with orders := d₁.orders.save r.1 } := by
    simp [placeItem, Prog.atomically, eval_placeOrder _ h, hactive, hok, Except.map]
  rw [hplaced]
  exact ⟨hfills, fun k hk => Table.isSome_find_save (stored_of_matching hmatching hk)⟩

theorem placeItem_grows (id : ℕ) (now : ℤ) (userId : ℕ) (haccepted : Accepted dto) :
    d.fills.length ≤ (placeItem id now userId dto d).fills.length ∧
      ∀ k, (d.orders.find k).isSome → ((placeItem id now userId dto d).orders.find k).isSome := by
  by_cases h : GoesThrough d id userId dto
  · by_cases hquiet : Quiet d id now userId dto
    · rw [placeItem_quiet h hquiet]
      exact ⟨le_rfl, fun k hk => Table.isSome_find_save hk⟩
    · obtain ⟨hfills, hstored⟩ := placeItem_matched h hquiet
      exact ⟨hfills.le, fun k hk => hstored k (Table.isSome_find_save hk)⟩
  · rw [placeItem_refused now haccepted h]
    exact ⟨le_rfl, fun k hk => hk⟩

/-- The order of an item that goes through is stored by the order service. -/
theorem placeItem_stores (h : GoesThrough d id userId dto) :
    ((placeItem id now userId dto d).orders.find id).isSome := by
  have hstored : ((placed d id now userId dto).orders.find id).isSome := by
    have hself := Table.find_save_self d.orders (bulkOrder id now userId dto)
    exact Option.isSome_iff_exists.mpr ⟨_, hself⟩
  by_cases hquiet : Quiet d id now userId dto
  · rwa [placeItem_quiet h hquiet]
  · exact (placeItem_matched h hquiet).2 id hstored

end Place

/-! ## Batches -/

section Batch

variable (g : Generated) (userId : ℕ)

/-- The items through `OrdersService.placeOrder`, one after the other; a failing one changes
nothing. -/
def placeInTurn : ℕ → List BulkTradeItemDto → OrdersDb → OrdersDb
  | _, [], d => d
  | i, trade :: trades, d => placeInTurn (i + 1) trades (placeItem (g.id i) (g.time i) userId trade d)

/-- No MARKET or LIMIT item that goes through crosses a resting order at its turn. -/
def Unmatched : ℕ → List BulkTradeItemDto → OrdersDb → Prop
  | _, [], _ => True
  | i, trade :: trades, d =>
    if GoesThrough d (g.id i) userId trade then
      Quiet d (g.id i) (g.time i) userId trade ∧
        Unmatched (i + 1) trades (placed d (g.id i) (g.time i) userId trade)
    else Unmatched (i + 1) trades d

/-- No item goes through. -/
def AllRefused (trades : List BulkTradeItemDto) (d : OrdersDb) : Prop :=
  ∀ trade ∈ trades.zipIdx, ¬ GoesThrough d (g.id trade.2) userId trade.1

/-- The tables after a batch that is not atomic. -/
def placeAlone (i : ℕ) (trades : List BulkTradeItemDto) (d : OrdersDb) : OrdersDb :=
  (Prog.eachAlone sql.handler (ownItem g userId) i trades d).2

variable {g userId} {d : OrdersDb} {i : ℕ} {trade : BulkTradeItemDto} {trades : List BulkTradeItemDto}

theorem placeAlone_cons : placeAlone g userId i (trade :: trades) d =
    placeAlone g userId (i + 1) trades
      (if GoesThrough d (g.id i) userId trade then placed d (g.id i) (g.time i) userId trade else d) := by
  unfold placeAlone
  rw [Prog.eachAlone_cons]
  rcases atomically_createOrderFromBulk d (g.id i) (g.time i) userId trade with
    ⟨hgo, hatom⟩ | ⟨hgo, e, hatom⟩
  · simp only [ownItem, hatom, if_pos hgo]
  · simp only [ownItem, hatom, if_neg hgo]

theorem placeAlone_fills : (placeAlone g userId i trades d).fills = d.fills := by
  induction trades generalizing i d with
  | nil => rfl
  | cons trade trades ih =>
    rw [placeAlone_cons, ih]
    split <;> rfl

/-- The order service only adds to the fills and to the stored orders. -/
theorem placeInTurn_grows (g : Generated) (userId i : ℕ) (d : OrdersDb) (haccepted : ∀ trade ∈ trades, Accepted trade) :
    d.fills.length ≤ (placeInTurn g userId i trades d).fills.length ∧
      ∀ k, (d.orders.find k).isSome → ((placeInTurn g userId i trades d).orders.find k).isSome := by
  induction trades generalizing i d with
  | nil => exact ⟨le_rfl, fun k hk => hk⟩
  | cons trade trades ih =>
    obtain ⟨hfills, hstored⟩ := placeItem_grows (d := d) (g.id i) (g.time i) userId
      (haccepted trade List.mem_cons_self)
    obtain ⟨hfills', hstored'⟩ := ih (i + 1) (placeItem (g.id i) (g.time i) userId trade d)
      fun trade ht => haccepted trade (List.mem_cons_of_mem _ ht)
    exact ⟨hfills.trans hfills', fun k hk => hstored' k (hstored k hk)⟩

/-- The two services lead to the same tables exactly when no active item crosses a resting order
at its turn. -/
theorem placeAlone_eq_iff (haccepted : ∀ trade ∈ trades, Accepted trade) :
    placeAlone g userId i trades d = placeInTurn g userId i trades d ↔ Unmatched g userId i trades d := by
  induction trades generalizing i d with
  | nil => exact iff_of_true rfl trivial
  | cons trade trades ih =>
    have hrest : ∀ trade ∈ trades, Accepted trade := fun t ht => haccepted t (List.mem_cons_of_mem _ ht)
    rw [placeAlone_cons, placeInTurn, Unmatched]
    by_cases hgo : GoesThrough d (g.id i) userId trade
    · rw [if_pos hgo, if_pos hgo]
      by_cases hquiet : Quiet d (g.id i) (g.time i) userId trade
      · rw [placeItem_quiet hgo hquiet, ih hrest, and_iff_right hquiet]
      · refine iff_of_false ?_ fun h => hquiet h.1
        intro heq
        -- the order service has filled more than there was
        have hfilled := (placeItem_matched hgo hquiet).1
        have hmore := (placeInTurn_grows g userId (i + 1) (placeItem (g.id i) (g.time i) userId trade d) hrest).1
        rw [← heq, placeAlone_fills, placed_fills] at hmore
        omega
    · rw [if_neg hgo, if_neg hgo, placeItem_refused _ (haccepted trade List.mem_cons_self) hgo]
      exact ih hrest

/-- The order service leaves the tables alone exactly when no item goes through. -/
theorem placeInTurn_eq_self_iff (haccepted : ∀ trade ∈ trades, Accepted trade) :
    d = placeInTurn g userId i trades d ↔
      ∀ trade ∈ trades.zipIdx i, ¬ GoesThrough d (g.id trade.2) userId trade.1 := by
  induction trades generalizing i d with
  | nil => exact iff_of_true rfl fun _ h => nomatch h
  | cons trade trades ih =>
    have hrest : ∀ trade ∈ trades, Accepted trade := fun t ht => haccepted t (List.mem_cons_of_mem _ ht)
    rw [placeInTurn, List.zipIdx_cons, List.forall_mem_cons]
    by_cases hgo : GoesThrough d (g.id i) userId trade
    · refine iff_of_false ?_ fun h => h.1 hgo
      intro heq
      have hstored := (placeInTurn_grows g userId (i + 1) (placeItem (g.id i) (g.time i) userId trade d) hrest).2 _
        (placeItem_stores hgo)
      rw [← heq, hgo.unused] at hstored
      cases hstored
    · rw [placeItem_refused _ (haccepted trade List.mem_cons_self) hgo, ih hrest, and_iff_right hgo]

end Batch

/-- **A batch and the single orders.** Through `executeBulkTrades` without `atomic` and through
`placeOrder`, the accepted items lead to the same orders, fills, trades and balances exactly when
the batch is executed and no MARKET or LIMIT item that goes through crosses a resting order at its
turn, or the batch is refused and no item goes through. -/
theorem bulk_eq_placeOrder_iff (clients : Table InstitutionalClient.userId) (g : Generated) (userId : ℕ)
    (trades : List BulkTradeItemDto) (d : OrdersDb) (haccepted : ∀ trade ∈ trades, Accepted trade) :
    (executeBulkTrades clients g userId trades false d).2 = placeInTurn g userId 0 trades d ↔
      match validateAccess clients userId trades with
      | .ok () => Unmatched g userId 0 trades d
      | .error _ => AllRefused g userId trades d := by
  unfold executeBulkTrades
  cases validateAccess clients userId trades with
  | ok => exact placeAlone_eq_iff haccepted
  | error e => exact placeInTurn_eq_self_iff haccepted

theorem sellItem_accepted (amount : ℕ) [NeZero amount] (clientOrderId : Option ℤ) :
    Accepted (sellItem amount clientOrderId) where
  price := fun _ h => nomatch h
  stopPrice := by rintro (h | h) <;> cases h
  amount_pos := Nat.cast_pos.mpr (NeZero.pos amount)

/-- A BUY order over five units at 100 is resting. -/
def bidDb : OrdersDb := run step sellerDb [⟨0, placeLimit 1 2 .buy 5 100⟩]

/-- On an empty book the two services agree about two SELL items. -/
theorem bulk_eq_placeOrder_two :
    (∀ trade ∈ [sellItem 4 none, sellItem 5 none], Accepted trade) ∧
      ((executeBulkTrades oneClient (numberedFrom 9) 1 [sellItem 4 none, sellItem 5 none] false sellerDb).2 =
          placeInTurn (numberedFrom 9) 1 0 [sellItem 4 none, sellItem 5 none] sellerDb ↔
        match validateAccess oneClient 1 [sellItem 4 none, sellItem 5 none] with
        | .ok () => Unmatched (numberedFrom 9) 1 0 [sellItem 4 none, sellItem 5 none] sellerDb
        | .error _ => AllRefused (numberedFrom 9) 1 [sellItem 4 none, sellItem 5 none] sellerDb) := by
  have haccepted : ∀ trade ∈ [sellItem 4 none, sellItem 5 none], Accepted trade := by
    rintro trade (_ | ⟨_, _ | ⟨_, h⟩⟩)
    · exact sellItem_accepted 4 none
    · exact sellItem_accepted 5 none
    · cases h
  exact ⟨haccepted, bulk_eq_placeOrder_iff oneClient (numberedFrom 9) 1 [sellItem 4 none, sellItem 5 none]
    sellerDb haccepted⟩

/-- Five units are offered at the resting price: `placeOrder` sells them, and the batch leaves both
orders resting. -/
theorem bulk_leaves_crossing_order : Accepted (sellItem 5 none) ∧
    (executeBulkTrades oneClient (numberedFrom 9) 1 [sellItem 5 none] false bidDb).2 ≠
      placeInTurn (numberedFrom 9) 1 0 [sellItem 5 none] bidDb := by
  refine ⟨sellItem_accepted 5 none, fun h => ?_⟩
  have hbulk : (executeBulkTrades oneClient (numberedFrom 9) 1 [sellItem 5 none] false bidDb).2.fills.length = 0 := by
    decide +kernel
  have hplace : (placeInTurn (numberedFrom 9) 1 0 [sellItem 5 none] bidDb).fills.length = 1 := by
    decide +kernel
  rw [h, hplace] at hbulk
  cases hbulk

end Institutional
