import PeerX.Orders.Invariants

/-!
# Orders: stranded orders

An open order can still be executed when it is a LIMIT order, which the maker query selects, or a
dormant order, which the sweep selects. A MARKET order, and a stop order that was triggered, is
matched once. What then remains of a MARKET order is selected by neither query, and a stop order
with a first fill is PARTIAL, which the sweep's query does not select.
-/

namespace Orders

open Relational Concurrency

/-- The order is still selected by an executor: by the maker query as a LIMIT order, or by the
sweep. -/
def Selectable (d : OrdersDb) (o : Order) : Prop := o.type = .limit ∨ o ∈ dormantOrders d.orders

/-- No open order with something remaining is out of reach of every executor. -/
def NoneStranded (d : OrdersDb) : Prop :=
  ∀ o ∈ d.orders.rows, o.Open → 0 < o.remainingAmount → Selectable d o

/-- The order is closed, LIMIT, or a stop order in status PENDING. -/
def Order.Reachable (o : Order) : Prop :=
  o.Open → o.type = .limit ∨ o.IsStop ∧ o.status = .pending

theorem noneStranded_of_reachable {d : OrdersDb} (h : ∀ o ∈ d.orders.rows, o.Reachable) :
    NoneStranded d := by
  intro o ho hopen _
  rcases h o ho hopen with hlimit | hdormant
  · exact .inl hlimit
  · exact .inr (List.mem_filter.mpr ⟨ho, by simpa using hdormant⟩)

/-- What a resting order holds for the taker. -/
def heldFor (taker o : Order) : ℚ := if Crossable taker o then o.remainingAmount else 0

/-- The liquidity for a taker: what the orders that cross it hold. -/
def liquidity (orders : Table Order.id) (taker : Order) : ℚ := orders.sum (heldFor taker)

theorem heldFor_of_side {taker o : Order} (h : o.side = taker.side) : heldFor taker o = 0 :=
  if_neg fun hc => hc.side_ne h

theorem liquidity_of_noCrossable {orders : Table Order.id} {taker : Order}
    (h : NoCrossable orders taker) : liquidity orders taker = 0 := by
  have hzero : ∀ o ∈ orders.rows, heldFor taker o = 0 := fun o ho => if_neg (h o ho)
  rw [liquidity, Table.sum_congr (g := fun _ => 0) hzero]
  simp [Table.sum]

theorem heldFor_takerAfter (now : ℤ) (taker maker : Order) :
    heldFor (takerAfter now taker maker) = heldFor taker := by
  funext o
  unfold heldFor takerAfter
  simp only [crossable_applyFill]

theorem heldFor_makerAfter {now : ℤ} {taker maker : Order} (hcross : Crossable taker maker) :
    heldFor taker (makerAfter now taker maker) = heldFor taker maker - fillAmount taker maker := by
  have hle := fillAmount_le_maker taker maker
  have hiff : Crossable taker (makerAfter now taker maker) ↔
      (makerAfter now taker maker).Open := by
    refine ⟨fun h => h.2.2.2.1, fun hopen => ?_⟩
    obtain ⟨hasset, hside, htype, -, hprice⟩ := hcross
    refine ⟨by simpa [makerAfter] using hasset, by simpa [makerAfter] using hside,
      by simpa [makerAfter] using htype, hopen, ?_⟩
    simpa [makerAfter, acceptsPrice] using hprice
  rw [heldFor, heldFor, if_pos hcross]
  by_cases hopen : (makerAfter now taker maker).Open
  · rw [if_pos (hiff.mpr hopen), makerAfter, applyFill_remainingAmount]
  · -- a maker leaves the book when its whole remainder is filled
    rw [if_neg (mt hiff.mp hopen)]
    rw [makerAfter, applyFill_open_iff, not_lt] at hopen
    linarith

/-- A fill takes its amount from the liquidity. -/
theorem liquidity_fill {now : ℤ} {d : OrdersDb} {taker maker : Order} (ht : taker ∈ d.orders.rows)
    (hm : maker ∈ d.orders.rows) (hcross : Crossable taker maker) :
    liquidity (d.fill now taker maker).orders (takerAfter now taker maker) =
      liquidity d.orders taker - fillAmount taker maker := by
  have hne := hcross.id_ne ht hm
  have ht' : taker ∈ (d.orders.save (makerAfter now taker maker)).rows :=
    Table.mem_save.mpr (.inr ⟨ht, by simpa using hne.symm⟩)
  unfold liquidity
  simp only [OrdersDb.fill, OrdersDb.afterFill, OrdersDb.settle, heldFor_takerAfter]
  rw [Table.sum_save ht' (takerAfter_id ..), Table.sum_save hm (makerAfter_id ..),
    heldFor_makerAfter hcross, heldFor_of_side (o := taker) rfl,
    heldFor_of_side (takerAfter_side now taker maker)]
  ring

/-- The request's MARKET taker finds liquidity for all of it, and so does its stop taker unless it
crosses no resting order at all. -/
def Executable (d : OrdersDb) (e : Event) : Prop :=
  ∀ taker, Activates d e taker →
    (taker.type = .market → taker.remainingAmount ≤ liquidity d.orders taker) ∧
    (taker.IsStop → NoCrossable d.orders taker ∨
      taker.remainingAmount ≤ liquidity d.orders taker)

/-- What holds between two iterations: the other orders are reachable, the liquidity suffices, and a
taker that is used up is reachable. -/
structure Fundable (d : OrdersDb) (taker : Order) : Prop where
  others : ∀ o ∈ d.orders.rows, o.id ≠ taker.id → o.Reachable
  enough : taker.remainingAmount ≤ liquidity d.orders taker
  taker : 0 < taker.remainingAmount ∨ taker.Reachable

theorem fundable_fill {now : ℤ} {d : OrdersDb} {taker maker : Order} (ht : taker ∈ d.orders.rows)
    (hm : maker ∈ d.orders.rows) (hcross : Crossable taker maker) (h : Fundable d taker) :
    Fundable (d.fill now taker maker) (takerAfter now taker maker) := by
  refine ⟨?_, ?_, ?_⟩
  · intro o ho hid
    rcases mem_fill ho with rfl | rfl | ⟨ho, hne, -⟩
    · exact absurd rfl hid
    · -- makers are LIMIT orders
      intro _
      exact .inl (by simpa [makerAfter] using hcross.2.2.1)
    · exact h.others o ho hne
  · rw [liquidity_fill ht hm hcross, takerAfter, applyFill_remainingAmount]
    have := h.enough
    linarith
  · by_cases hrem : 0 < (takerAfter now taker maker).remainingAmount
    · exact .inl hrem
    · right
      intro hopen
      rw [takerAfter, applyFill_open_iff] at hopen
      rw [takerAfter, applyFill_remainingAmount] at hrem
      linarith

/-- After the loop every order is reachable. -/
theorem Fills.reachable {now : ℤ} {d d' : OrdersDb} {taker taker' : Order}
    (hfills : Fills now d taker d' taker') (h : Fundable d taker)
    (hexit : taker'.remainingAmount ≤ 0 ∨ NoCrossable d'.orders taker') :
    ∀ o ∈ d'.orders.rows, o.Reachable := by
  have hend : Fundable d' taker' :=
    hfills.invariant (fun _ _ _ ht hm _ _ hc => fundable_fill ht hm hc) h
  have hrem : taker'.remainingAmount ≤ 0 := by
    rcases hexit with hrem | hno
    · exact hrem
    · calc taker'.remainingAmount ≤ liquidity d'.orders taker' := hend.enough
        _ = 0 := liquidity_of_noCrossable hno
  intro o ho
  by_cases hid : o.id = taker'.id
  · obtain rfl := Table.eq_of_key_eq ho hfills.mem hid
    exact hend.taker.resolve_left (not_lt.mpr hrem)
  · exact hend.others o ho hid

/-- The liquidity for a taker is the same before and after its own entry. -/
theorem Entry.liquidity {now : ℤ} {d s : OrdersDb} {request : Request} {taker : Order}
    (h : Entry now d request s (some taker)) :
    liquidity s.orders taker = liquidity d.orders taker := by
  obtain ⟨htakes, horders⟩ := h.takes
  unfold Orders.liquidity
  rw [horders]
  cases htakes with
  | new hid hfresh htype => rw [Table.sum_save_new hid, heldFor_of_side rfl, add_zero]
  | @amended userId dto o ho hadm htype =>
    have hold : heldFor (o.amendedBy dto) o = 0 := heldFor_of_side rfl
    rw [Table.sum_save_of_eq (r := o.amendedBy dto) ho rfl]
    rw [heldFor_of_side rfl, hold]
  | @triggered orderId currentPrice o ho hstop hpending =>
    have hold : heldFor (o.touchedBy (some now) o.trailingReferencePrice) o = 0 :=
      heldFor_of_side rfl
    rw [Table.sum_save_of_eq (r := o.touchedBy (some now) o.trailingReferencePrice) ho rfl]
    rw [heldFor_of_side rfl, hold]

theorem Order.Reachable.asCancelled (o : Order) (now : ℤ) : (o.asCancelled now).Reachable := by
  rintro (h | h) <;> cases h

/-- An entry without a taker keeps every order reachable. -/
theorem Entry.reachable {now : ℤ} {d s : OrdersDb} {request : Request}
    (hd : ∀ o ∈ d.orders.rows, o.Reachable) (h : Entry now d request s none) :
    ∀ o ∈ s.orders.rows, o.Reachable := by
  intro x hx
  generalize ht : none = t at h
  cases h with
  | @enter id userId dto valid order balances hnew hid hfresh hres =>
    rcases Table.mem_save.mp hx with rfl | ⟨hx, -⟩
    · -- an order that is not matched at once is a stop order
      intro _
      refine .inr ⟨?_, hfresh.status⟩
      unfold Order.activeTaker at ht
      unfold Order.IsStop
      cases htype : x.type <;> simp [htype] at ht ⊢
    · exact hd x hx
  | cancel ho hid howner hstatus hrel =>
    rcases Table.mem_save.mp hx with rfl | ⟨hx, -⟩
    · exact Order.Reachable.asCancelled _ _
    · exact hd x hx
  | @amend userId dto o balances ho hadm hres =>
    rcases Table.mem_save.mp hx with rfl | ⟨hx, -⟩
    · exact hd o ho
    · exact hd x hx
  | arm => cases ht
  | @ratchet orderId currentPrice reference o ho hid hstop hpending haction =>
    rcases Table.mem_save.mp hx with rfl | ⟨hx, -⟩
    · exact hd o ho
    · exact hd x hx
  | idle => exact hd x hx

/-- The fills of a LIMIT taker keep every order reachable. -/
theorem Fills.reachable_of_limit {now : ℤ} {d d' : OrdersDb} {taker taker' : Order}
    (hfills : Fills now d taker d' taker') (htype : taker.type = .limit)
    (hd : ∀ o ∈ d.orders.rows, o.Reachable) : ∀ o ∈ d'.orders.rows, o.Reachable := by
  let I : OrdersDb → Order → Prop := fun d taker =>
    taker.type = .limit ∧ ∀ o ∈ d.orders.rows, o.Reachable
  have hfill : ∀ (d : OrdersDb) (taker maker : Order), taker ∈ d.orders.rows →
      maker ∈ d.orders.rows → taker.Open → 0 < taker.remainingAmount → Crossable taker maker →
      I d taker → I (d.fill now taker maker) (takerAfter now taker maker) := by
    rintro d taker maker - - - - hcross ⟨htype, hd⟩
    have htype' : (takerAfter now taker maker).type = .limit := by simpa [takerAfter] using htype
    refine ⟨htype', fun o ho => ?_⟩
    rcases mem_fill ho with rfl | rfl | ⟨ho, -⟩
    · exact fun _ => .inl htype'
    · exact fun _ => .inl (by simpa [makerAfter] using hcross.2.2.1)
    · exact hd o ho
  exact (hfills.invariant hfill ⟨htype, hd⟩).2

/-- One step keeps every order reachable. -/
theorem reachable_step (d : OrdersDb) (e : Event) (hd : ∀ o ∈ d.orders.rows, o.Reachable)
    (he : Executable d e) : ∀ o ∈ (step d e).orders.rows, o.Reachable := by
  rcases step_entry d e with h | ⟨s, t, hentry, hmatched⟩
  · rw [h]
    exact hd
  cases t with
  | none =>
    rw [show step d e = s from hmatched]
    exact hentry.reachable hd
  | some taker =>
    obtain ⟨taker', hfills, hexit⟩ := hmatched
    obtain ⟨hmarket, hstop⟩ := he taker ⟨s, hentry⟩
    have hliquidity := hentry.liquidity
    obtain ⟨htakes, horders⟩ := hentry.takes
    -- the entry writes the taker's row alone
    have hothers : ∀ o ∈ s.orders.rows, o.id ≠ taker.id → o.Reachable := by
      intro o ho hid
      rw [horders] at ho
      rcases Table.mem_save.mp ho with rfl | ⟨ho, -⟩
      · exact absurd rfl hid
      · exact hd o ho
    have hall : taker.Reachable → ∀ o ∈ s.orders.rows, o.Reachable := by
      intro htaker o ho
      by_cases hid : o.id = taker.id
      · have hmem : taker ∈ s.orders.rows := by
          rw [horders]
          exact Table.mem_save_self _ _
        obtain rfl := Table.eq_of_key_eq ho hmem hid
        exact htaker
      · exact hothers o ho hid
    -- a limit order may rest; a market order and an armed stop must not be left with a remainder
    generalize e.request = request at htakes
    cases htakes with
    | new hid hfresh htype =>
      rcases htype with htype | htype
      · refine hfills.reachable ⟨hothers, hliquidity ▸ hmarket htype, .inl ?_⟩ hexit
        rw [Order.remainingAmount, hfresh.filledAmount, sub_zero]
        exact hfresh.amount_pos
      · exact hfills.reachable_of_limit htype (hall fun _ => .inl htype)
    | amended ho hadm htype => exact hfills.reachable_of_limit htype (hall fun _ => .inl htype)
    | @triggered orderId currentPrice o ho hisStop hpending =>
      have hreach : (o.touchedBy (some e.now) o.trailingReferencePrice).Reachable :=
        fun _ => .inr ⟨hisStop, hpending⟩
      rcases hstop hisStop with hno | henough
      · -- nothing crosses it: the loop ends at once, and the order stays PENDING
        cases hfills with
        | done => exact hall hreach
        | fill ht hm hopen hpos hcross rest =>
          exact absurd hcross (hno _ (hentry.mem_of_crossable hm hcross))
      · exact hfills.reachable ⟨hothers, hliquidity ▸ henough, .inr hreach⟩ hexit

/-- **No order is stranded**, as long as every MARKET order and every triggered stop order finds
enough liquidity, or a triggered stop order none at all. -/
theorem no_order_stranded {d : OrdersDb} (hd : Initial d) {es : List Event}
    (hes : Along step Executable d es) : Throughout step NoneStranded d es := by
  have hinit : ∀ o ∈ d.orders.rows, o.Reachable := by
    intro o ho
    rw [hd.orders] at ho
    cases ho
  exact (throughout_of_invariant (I := fun d => ∀ o ∈ d.orders.rows, o.Reachable) reachable_step
    hinit hes).mono fun d h => noneStranded_of_reachable h

/-- A MARKET order of asset 1. -/
def placeMarket (id userId : ℕ) (side : OrderSide) (amount : ℕ) [NeZero amount] : Request :=
  .place id userId ⟨1, side, .market, amount, none, none, none, none⟩
    { amount_pos := Nat.cast_pos.mpr (NeZero.pos amount)
      price_pos := by intro h; cases h
      stopPrice_pos := by rintro (h | h) <;> cases h
      trailingDelta_min := by intro h; cases h }

/-- A SELL order over ten units, and a MARKET order that buys three of them. -/
theorem no_order_stranded_bought :
    Throughout step NoneStranded sellerDb
      [⟨0, placeLimit 1 1 .sell 10 100⟩, ⟨1, placeMarket 2 2 .buy 3⟩] := by
  refine no_order_stranded sellerDb_initial ⟨?_, ?_, trivial⟩
  · intro taker htaker
    obtain rfl := htaker.eq_newOrder
    decide +kernel
  · intro taker htaker
    obtain rfl := htaker.eq_newOrder
    decide +kernel

/-- A MARKET order over ten units that finds a seller of three: seven units remain, and no query
selects the order again. -/
theorem market_order_stranded : Initial sellerDb ∧ ¬ NoneStranded (run step sellerDb
    [⟨0, placeLimit 1 1 .sell 3 100⟩, ⟨1, placeMarket 2 2 .buy 10⟩]) := by
  refine ⟨sellerDb_initial, fun h => ?_⟩
  unfold NoneStranded Selectable at h
  revert h
  decide +kernel

end Orders
