import PeerX.Orders.Invariants
import PeerX.Foundations.Allocation

/-!
# Orders: price-time priority

The matching engine is a greedy allocation: it goes through the crossable orders by price and time,
and gives each what it has, until nothing remains of the taker. An order of which nothing remains is
still open when its amount was modified down to what was filled; it is found like the others, and
filled with nothing.

## Main results

* `makersInOrder_afterFill`: the book after an order was used up
* `eval_matchTakerOrder`: the engine ends, with the executions in price-time priority
* `executes_greedily_iff`: when the fills are those of a greedy execution
-/

namespace Orders

open Relational Concurrency Arithmetic Allocation

/-! ## Price and time -/

/-- The crossable orders by price and time. -/
def makersInOrder (orders : Table Order.id) (taker : Order) : List Order :=
  (crossableMakers orders taker).insertionSort (Precedes taker.side)

/-- The price and the time of an order. -/
def priority (order : Order) : Option ℚ × ℤ := (order.price, order.createdAt)

theorem precedes_congr {side : OrderSide} {a a' b b' : Order} (ha : priority a = priority a')
    (hb : priority b = priority b') : Precedes side a b ↔ Precedes side a' b' := by
  obtain ⟨haPrice, haTime⟩ := Prod.mk.inj ha
  obtain ⟨hbPrice, hbTime⟩ := Prod.mk.inj hb
  cases side <;> simp only [Precedes, betterPrice, haPrice, haTime, hbPrice, hbTime]

theorem priceLT_total (p q : Option ℚ) : priceLT p q ∨ p = q ∨ priceLT q p := by
  cases p with
  | none => cases q <;> simp [priceLT]
  | some p =>
    cases q with
    | none => simp [priceLT]
    | some q => simpa [priceLT] using lt_trichotomy p q

theorem priceLT_trans {p q r : Option ℚ} (hpq : priceLT p q) (hqr : priceLT q r) : priceLT p r := by
  cases p <;> cases q <;> cases r <;> simp_all [priceLT]
  exact hpq.trans hqr

theorem not_priceLT_self (p : Option ℚ) : ¬ priceLT p p := by
  cases p <;> simp [priceLT]

theorem betterPrice_trans {side : OrderSide} {a b c : Order} (hab : betterPrice side a b)
    (hbc : betterPrice side b c) :
    betterPrice side a c := by
  cases side with
  | buy => exact priceLT_trans hab hbc
  | sell => exact priceLT_trans hbc hab

theorem betterPrice_congr {side : OrderSide} {a a' b b' : Order} (ha : a.price = a'.price)
    (hb : b.price = b'.price) :
    betterPrice side a b = betterPrice side a' b' := by
  cases side <;> simp only [betterPrice, ha, hb]

theorem not_betterPrice_self (side : OrderSide) (a : Order) : ¬ betterPrice side a a := by
  cases side <;> exact not_priceLT_self _

theorem precedes_total (side : OrderSide) (a b : Order) :
    Precedes side a b ∨ Precedes side b a := by
  have htotal : betterPrice side a b ∨ a.price = b.price ∨ betterPrice side b a := by
    cases side with
    | buy => exact priceLT_total _ _
    | sell => exact (priceLT_total b.price a.price).imp_right fun h => h.imp_left Eq.symm
  rcases htotal with hbetter | hsame | hworse
  · exact .inl (.inl hbetter)
  · exact (le_total a.createdAt b.createdAt).imp (fun h => .inr ⟨hsame, h⟩) fun h => .inr
      ⟨hsame.symm, h⟩
  · exact .inr (.inl hworse)

theorem precedes_trans {side : OrderSide} {a b c : Order} (hab : Precedes side a b)
    (hbc : Precedes side b c) :
    Precedes side a c := by
  rcases hab with hab | ⟨hab, htime⟩
  · rcases hbc with hbc | ⟨hbc, -⟩
    · exact .inl (betterPrice_trans hab hbc)
    · exact .inl (betterPrice_congr rfl hbc ▸ hab)
  · rcases hbc with hbc | ⟨hbc, htime'⟩
    · exact .inl (betterPrice_congr hab.symm rfl ▸ hbc)
    · exact .inr ⟨hab.trans hbc, htime.trans htime'⟩

/-- Two orders that precede each other were created at the same time. -/
theorem createdAt_eq_of_precedes {side : OrderSide} {a b : Order} (hab : Precedes side a b)
    (hba : Precedes side b a) :
    a.createdAt = b.createdAt := by
  rcases hab with hab | ⟨hprice, htime⟩
  · rcases hba with hba | ⟨hprice, -⟩
    · exact absurd (betterPrice_trans hab hba) (not_betterPrice_self side a)
    · exact absurd (betterPrice_congr rfl hprice ▸ hab) (not_betterPrice_self side a)
  · rcases hba with hba | ⟨-, htime'⟩
    · exact absurd (betterPrice_congr rfl hprice ▸ hba) (not_betterPrice_self side b)
    · exact le_antisymm htime htime'

theorem pairwise_makersInOrder (orders : Table Order.id) (taker : Order) :
    (makersInOrder orders taker).Pairwise (Precedes taker.side) := by
  have : Std.Total (Precedes taker.side) := ⟨precedes_total taker.side⟩
  have : IsTrans Order (Precedes taker.side) := ⟨fun _ _ _ => precedes_trans⟩
  exact List.pairwise_insertionSort _ _

theorem perm_makersInOrder (orders : Table Order.id) (taker : Order) :
    (makersInOrder orders taker).Perm (crossableMakers orders taker) := List.perm_insertionSort _ _

theorem mem_makersInOrder {orders : Table Order.id} {taker maker : Order} :
    maker ∈ makersInOrder orders taker ↔ maker ∈ orders.rows ∧ Crossable taker maker :=
  (perm_makersInOrder orders taker).mem_iff.trans mem_crossableMakers

theorem nodup_makersInOrder (orders : Table Order.id) (taker : Order) :
    (makersInOrder orders taker).Nodup := by
  rw [(perm_makersInOrder orders taker).nodup_iff]
  exact List.Nodup.filter _ (List.Nodup.of_map Order.id orders.nodup)

theorem bestMaker_eq_head? (orders : Table Order.id) (taker : Order) :
    bestMaker orders taker = (makersInOrder orders taker).head? := rfl

/-! ## The book after a fill -/

@[simp] theorem applyFill_createdAt (now : ℤ) (o : Order) (a p : ℚ) :
    (applyFill now o a p).createdAt = o.createdAt := by
  simp only [applyFill]
  split <;> rfl

@[simp] theorem priority_makerAfter (now : ℤ) (taker maker : Order) :
    priority (makerAfter now taker maker) = priority maker := by
  simp [priority, makerAfter]

theorem remainingAmount_takerAfter (now : ℤ) (taker maker : Order) :
    (takerAfter now taker maker).remainingAmount =
    taker.remainingAmount - min taker.remainingAmount maker.remainingAmount :=
  applyFill_remainingAmount ..

/-- No two orders were created at the same time. -/
def DistinctTimes (orders : Table Order.id) : Prop := (orders.rows.map Order.createdAt).Nodup

theorem DistinctTimes.afterFill {d : OrdersDb} (h : DistinctTimes d.orders) (now : ℤ)
    {taker maker : Order}
    (hmem : maker ∈ d.orders.rows) : DistinctTimes (d.afterFill now taker maker).orders := by
  have hid : maker.id = (makerAfter now taker maker).id := (applyFill_id ..).symm
  have htime : (makerAfter now taker maker).createdAt = maker.createdAt := applyFill_createdAt ..
  rw [DistinctTimes, OrdersDb.afterFill, Table.map_save_of_eq hmem hid htime]
  exact h

/-- **The book after an order was used up**: the others are crossable as before. -/
theorem makersInOrder_afterFill {d : OrdersDb} (h : DistinctTimes d.orders) (now : ℤ)
    {taker maker : Order} {makers : List Order}
    (hmakers : makersInOrder d.orders taker = maker :: makers)
    (hused : maker.remainingAmount ≤ taker.remainingAmount) :
    makersInOrder (d.afterFill now taker maker).orders (takerAfter now taker maker) = makers := by
  have hmaker : maker ∈ d.orders.rows := (mem_makersInOrder.mp (hmakers ▸ List.mem_cons_self)).1
  have hnodup := nodup_makersInOrder d.orders taker
  rw [hmakers, List.nodup_cons] at hnodup
  have hsorted := pairwise_makersInOrder d.orders taker
  rw [hmakers, List.pairwise_cons] at hsorted
  -- the order that was used up is closed
  have hclosed : ¬ Crossable (takerAfter now taker maker) (makerAfter now taker maker) := by
    intro hcross
    refine absurd (applyFill_open_iff .. |>.mp hcross.2.2.2.1) (not_lt.mpr ?_)
    rw [fillAmount, min_eq_right hused]
  have hmem : ∀ other, other ∈ makersInOrder (d.afterFill now taker maker).orders
    (takerAfter now taker maker) ↔
      other ∈ makers := by
    intro other
    have hother : other ∈ makersInOrder d.orders taker ↔ other = maker ∨ other ∈ makers := by
      rw [hmakers, List.mem_cons]
    rw [mem_makersInOrder, takerAfter, crossable_applyFill, OrdersDb.afterFill, Table.mem_save]
    constructor
    · rintro ⟨rfl | ⟨hold, hne⟩, hcross⟩
      · exact absurd ((crossable_applyFill ..).mpr hcross) hclosed
      · rcases hother.mp (mem_makersInOrder.mpr ⟨hold, hcross⟩) with rfl | hrest
        · exact absurd (applyFill_id ..).symm hne
        · exact hrest
    · intro hrest
      obtain ⟨hold, hcross⟩ := mem_makersInOrder.mp (hother.mpr (.inr hrest))
      refine ⟨.inr ⟨hold, fun heq => ?_⟩, hcross⟩
      obtain rfl := Table.eq_of_key_eq hold hmaker (heq.trans (applyFill_id ..))
      exact hnodup.1 hrest
  refine List.Perm.eq_of_pairwise (fun a b ha hb hab hba => ?_) (pairwise_makersInOrder _ _) ?_
    ((List.perm_ext_iff_of_nodup (nodup_makersInOrder _ _) hnodup.2).mpr hmem)
  · -- two orders in each other's place were created at the same time
    have hrow : ∀ other ∈ makers, other ∈ d.orders.rows := fun other hother =>
      (mem_makersInOrder.mp (hmakers ▸ List.mem_cons_of_mem maker hother)).1
    exact List.inj_on_of_nodup_map h (hrow a ((hmem a).mp ha)) (hrow b hb)
      (createdAt_eq_of_precedes hab hba)
  · have hside : (takerAfter now taker maker).side = taker.side := applyFill_side ..
    rw [hside]
    exact hsorted.2

/-! ## The engine -/

/-- The fills of a taker against orders in a given order, until nothing remains of it. -/
def executions (now : ℤ) : Order → List Order → List FillResult
  | _, [] => []
  | taker, maker :: makers =>
    if 0 < taker.remainingAmount then fillOf now taker maker :: executions now
      (takerAfter now taker maker) makers else []

theorem executions_of_nonpos (now : ℤ) {taker : Order} (h : taker.remainingAmount ≤ 0)
    (makers : List Order) :
    executions now taker makers = [] := by
  cases makers with
  | nil => rfl
  | cons maker makers => rw [executions, if_neg (not_lt.mpr h)]

/-- The engine goes through the crossable orders by price and time, and ends. -/
theorem eval_matchLoop (now : ℤ) {d : OrdersDb} (h : DistinctTimes d.orders) (taker : Order)
    (fills : List FillResult) (k : ℕ) :
    ∃ taker' d', (matchLoop now ((makersInOrder d.orders taker).length + 1 + k) taker fills).eval
      sql.handler d =
      (.ok (taker', fills ++ executions now taker (makersInOrder d.orders taker)), d') := by
  generalize hmakers : makersInOrder d.orders taker = makers
  induction makers generalizing d taker fills with
  | nil =>
    have hnone : bestMaker d.orders taker = none := by rw [bestMaker_eq_head?, hmakers]; rfl
    rw [List.length_nil, Nat.zero_add, Nat.add_comm, eval_matchLoop_succ, hnone, executions,
      List.append_nil]
    exact ⟨taker, d, ite_self _⟩
  | cons maker makers ih =>
    have hbest : bestMaker d.orders taker = some maker := by rw [bestMaker_eq_head?, hmakers]; rfl
    have hfuel : (maker :: makers).length + 1 + k = makers.length + 1 + k + 1 := by
      rw [List.length_cons]
      omega
    rw [hfuel, eval_matchLoop_succ, hbest, executions]
    split
    · dsimp only
      rcases le_or_gt maker.remainingAmount taker.remainingAmount with hused | hrest
      · obtain ⟨taker', d', heval⟩ :=
          ih (h.afterFill now (bestMaker_mem hbest).1) (takerAfter now taker maker)
          (fills ++ [fillOf now taker maker]) (makersInOrder_afterFill h now hmakers hused)
        rw [List.append_assoc] at heval
        exact ⟨taker', d', heval⟩
      · -- nothing remains of the taker, so that the next iteration ends the loop
        have hzero : (takerAfter now taker maker).remainingAmount ≤ 0 := by
          rw [remainingAmount_takerAfter, min_eq_left hrest.le, sub_self]
        have hone : makers.length + 1 + k = makers.length + k + 1 := by omega
        rw [hone, eval_matchLoop_succ, if_neg (not_lt.mpr hzero), executions_of_nonpos now hzero]
        exact ⟨_, _, rfl⟩
    · rw [List.append_nil]
      exact ⟨taker, d, rfl⟩

/-- What is asked of the makers is the greedy allocation of what remains of the taker. -/
theorem executions_eq_allocate (now : ℤ) (taker : Order) (makers : List Order) :
    (executions now taker makers).map (fun fill => (fill.makerOrder.id, fill.fillAmount)) =
      (allocate Order.remainingAmount taker.remainingAmount makers).map fun part =>
      (part.1.id, part.2) := by
  induction makers generalizing taker with
  | nil => rfl
  | cons maker makers ih =>
    rw [executions, allocate]
    split
    · rw [List.map_cons, List.map_cons, ih, remainingAmount_takerAfter]
      exact congrArg₂ List.cons (Prod.ext (applyFill_id ..) rfl) rfl
    · rfl

theorem mem_executions {now : ℤ} {taker : Order} {makers : List Order} {fill : FillResult}
    (h : fill ∈ executions now taker makers) :
    ∃ maker ∈ makers, ∃ taker, fill = fillOf now taker maker := by
  induction makers generalizing taker with
  | nil => cases h
  | cons maker makers ih =>
    rw [executions] at h
    split at h
    · rcases List.mem_cons.mp h with rfl | hrest
      · exact ⟨maker, List.mem_cons_self, taker, rfl⟩
      · obtain ⟨other, hother, htaker⟩ := ih hrest
        exact ⟨other, List.mem_cons_of_mem maker hother, htaker⟩
    · cases h

theorem pairwise_executions {now : ℤ} {side : OrderSide} {taker : Order} {makers : List Order}
    (h : makers.Pairwise (Precedes side)) :
    (executions now taker makers).Pairwise fun first second =>
      Precedes side first.makerOrder second.makerOrder := by
  induction makers generalizing taker with
  | nil => exact List.Pairwise.nil
  | cons maker makers ih =>
    obtain ⟨hfirst, hrest⟩ := List.pairwise_cons.mp h
    rw [executions]
    split
    · refine List.pairwise_cons.mpr ⟨fun fill hfill => ?_, ih hrest⟩
      obtain ⟨other, hother, taker', rfl⟩ := mem_executions hfill
      exact (precedes_congr (priority_makerAfter ..) (priority_makerAfter ..)).mpr
        (hfirst other hother)
    · exact List.Pairwise.nil

/-- Something or nothing remains of a taker, but not less. -/
theorem Matching.remainingAmount_nonneg {now : ℤ} {d d' : OrdersDb} {taker taker' : Order}
    (h : Matching now d taker d' taker') (hnonneg : 0 ≤ taker.remainingAmount) :
    0 ≤ taker'.remainingAmount := by
  induction h with
  | done => exact hnonneg
  | fill hpos hbest rest ih =>
    refine ih ?_
    rw [remainingAmount_takerAfter]
    exact sub_nonneg.mpr (min_le_left _ _)

/-- What the maker query reads of the taker stays as it was. -/
theorem Matching.crossable_iff {now : ℤ} {d d' : OrdersDb} {taker taker' : Order}
    (h : Matching now d taker d' taker')
    (maker : Order) : Crossable taker' maker ↔ Crossable taker maker := by
  induction h with
  | done => exact Iff.rfl
  | fill hpos hbest rest ih => exact ih.trans (crossable_applyFill ..)

/-- Numbers that are held exactly stay so. -/
theorem Matching.exact {now : ℤ} {d d' : OrdersDb} {taker taker' : Order}
    (h : Matching now d taker d' taker') (hrows : ∀ order ∈ d.orders.rows, order.Exact)
    (htaker : taker.Exact) :
    (∀ order ∈ d'.orders.rows, order.Exact) ∧ taker'.Exact := by
  induction h with
  | done => exact ⟨hrows, htaker⟩
  | @fill d _ taker _ maker hpos hbest rest ih =>
    have hmaker := hrows maker (bestMaker_mem hbest).1
    have hamount : Carried (fillAmount taker maker) :=
      htaker.remainingAmount.min hmaker.remainingAmount
    refine ih (fun order horder => ?_) (htaker.applyFill hamount _)
    rcases Table.mem_save.mp horder with rfl | ⟨horder, -⟩
    · exact hmaker.applyFill hamount _
    · exact hrows order horder

/-- **`matchTakerOrder` ends**, with the executions in price-time priority. -/
theorem eval_matchTakerOrder (now : ℤ) {d : OrdersDb} (h : DistinctTimes d.orders) (taker : Order)
    (k : ℕ) :
    ∃ taker' d', (matchTakerOrder ((crossableMakers d.orders taker).length + 1 + k) now taker).eval
      sql.handler d =
      (.ok (taker', executions now taker (makersInOrder d.orders taker)), d') := by
  obtain ⟨taker', d', heval⟩ := eval_matchLoop now h taker [] k
  rw [(perm_makersInOrder d.orders taker).length_eq] at heval
  refine ⟨taker', { d' with orders := d'.orders.save taker' }, ?_⟩
  rw [matchTakerOrder, Prog.eval_bind, heval]
  rfl

/-! ## Greedy execution -/

/-- An execution in price-time priority: the fills are those of the greedy allocation to the
crossable orders of which something remains; each is against a crossable order, at its price, in
their order, and at a price that the taker accepts; something is filled; and at the end nothing
remains of the taker, or no order to fill it. -/
structure GreedyExecution (d : OrdersDb) (taker : Order) (fills : List FillResult) (taker' : Order)
    (d' : OrdersDb) :
    Prop where
  exact : fills.map (fun fill => (fill.makerOrder.id, fill.fillAmount)) =
    (allocate Order.remainingAmount taker.remainingAmount
      ((makersInOrder d.orders taker).filter fun maker => 0 < maker.remainingAmount)).map
        fun part => (part.1.id, part.2)
  resting : ∀ fill ∈ fills, ∃ maker ∈ d.orders.rows, maker.id = fill.makerOrder.id ∧
    maker.assetId = taker.assetId ∧
    maker.side = taker.side.opposite ∧ maker.type = .limit ∧ maker.Open ∧
      fill.fillPrice = maker.price.getD 0
  ordered : fills.Pairwise fun first second =>
    Precedes taker.side first.makerOrder second.makerOrder
  accepted : taker.type = .limit → ∀ limit, taker.price = some limit → ∀ fill ∈ fills,
    match taker.side with
    | .buy => fill.fillPrice ≤ limit
    | .sell => limit ≤ fill.fillPrice
  positive : ∀ fill ∈ fills, 0 < fill.fillAmount
  exhausted : taker'.remainingAmount = 0 ∨
    ∀ maker ∈ d'.orders.rows, Crossable taker maker → maker.remainingAmount ≤ 0

/-- The engine executes the taker in price-time priority, within any number of iterations that
suffices. -/
def ExecutesGreedily (now : ℤ) (d : OrdersDb) (taker : Order) (k : ℕ) : Prop :=
  ∃ taker' fills d',
    (matchTakerOrder ((crossableMakers d.orders taker).length + 1 + k) now taker).eval
      sql.handler d =
    (.ok (taker', fills), d') ∧ GreedyExecution d taker fills taker' d'

/-- Every fill fills something exactly when the orders before an empty one suffice. -/
theorem executions_pos_iff (now : ℤ) {d : OrdersDb} {taker : Order}
    (h : ∀ order ∈ d.orders.rows, 0 ≤ order.remainingAmount) :
    (∀ fill ∈ executions now taker (makersInOrder d.orders taker), 0 < fill.fillAmount) ↔
      EmptyUnasked Order.remainingAmount taker.remainingAmount (makersInOrder d.orders taker) := by
  rw [← allocate_pos_iff fun maker hmaker => h maker (mem_makersInOrder.mp hmaker).1]
  have hamounts :=
    congrArg (List.map Prod.snd) (executions_eq_allocate now taker (makersInOrder d.orders taker))
  rw [List.map_map, List.map_map] at hamounts
  have hall : ∀ {α : Type} (l : List α) (f : α → ℚ), (∀ a ∈ l, 0 < f a) ↔
      ∀ x ∈ l.map f, 0 < x := by simp
  rw [hall _ FillResult.fillAmount, hall _ Prod.snd]
  exact iff_of_eq (congrArg (fun l => ∀ x ∈ l, (0 : ℚ) < x) hamounts)

/-- A taker accepts the price of an order that it crosses. -/
theorem Crossable.accepted {taker maker : Order} (h : Crossable taker maker)
    (hlimit : taker.type = .limit) {limit : ℚ}
    (hprice : taker.price = some limit) : match taker.side with
    | .buy => maker.price.getD 0 ≤ limit
    | .sell => limit ≤ maker.price.getD 0 := by
  have haccepts := h.2.2.2.2
  rw [acceptsPrice, hlimit, hprice] at haccepts
  cases hside : taker.side <;> cases hmaker : maker.price <;> simp_all

/-- The engine's executions are greedy but for the fills of nothing. -/
theorem greedyExecution_iff (now : ℤ) {d d' : OrdersDb} {taker taker' : Order} {k : ℕ}
    (h : ∀ order ∈ d.orders.rows, 0 ≤ order.remainingAmount) (htaker : 0 ≤ taker.remainingAmount)
    (heval : (matchTakerOrder ((crossableMakers d.orders taker).length + 1 + k) now taker).eval
      sql.handler d =
      (.ok (taker', executions now taker (makersInOrder d.orders taker)), d')) :
    GreedyExecution d taker (executions now taker (makersInOrder d.orders taker)) taker' d' ↔
      EmptyUnasked Order.remainingAmount taker.remainingAmount (makersInOrder d.orders taker) := by
  have hcapacity : ∀ maker ∈ makersInOrder d.orders taker,
      0 ≤ maker.remainingAmount := fun maker hmaker =>
    h maker (mem_makersInOrder.mp hmaker).1
  refine ⟨fun hgreedy => (executions_pos_iff now h).mp hgreedy.positive, fun hunasked => ?_⟩
  refine ⟨?_, ?_, pairwise_executions (pairwise_makersInOrder _ _), ?_,
    (executions_pos_iff now h).mpr hunasked, ?_⟩
  · rw [allocate_filter hcapacity hunasked]
    exact executions_eq_allocate now taker _
  · intro fill hfill
    obtain ⟨maker, hmaker, taker', rfl⟩ := mem_executions hfill
    obtain ⟨hrow, hasset, hside, htype, hopen, -⟩ := mem_makersInOrder.mp hmaker
    exact ⟨maker, hrow, (applyFill_id ..).symm, hasset, hside, htype, hopen, rfl⟩
  · intro hlimit limit hprice fill hfill
    obtain ⟨maker, hmaker, taker', rfl⟩ := mem_executions hfill
    exact (mem_makersInOrder.mp hmaker).2.accepted hlimit hprice
  · obtain ⟨d₁, hmatching, rfl, hexit⟩ := matching_of_matchTakerOrder heval
    rcases hexit with hnothing | hnone
    · exact .inl (le_antisymm hnothing (hmatching.remainingAmount_nonneg htaker))
    · -- the taker is saved, and is on its own side of the book
      refine .inr fun maker hmaker hcross => ?_
      have hcross' := (hmatching.crossable_iff maker).mpr hcross
      rcases Table.mem_save.mp hmaker with rfl | ⟨hold, -⟩
      · have hside := hcross'.2.1
        cases hown : maker.side <;> rw [hown] at hside <;> cases hside
      · exact absurd hcross' (hnone maker hold)

/-- A LIMIT order for one asset. -/
def limitOrder (id : ℕ) (side : OrderSide) (amount filledAmount : ℚ) : Order :=
  ⟨id, id, 1, side, .limit, .partiallyFilled, amount, filledAmount, none, some 100, none, none,
    none, none, none, none,
    none, 0⟩

/-- One resting order to sell, of which some is filled. -/
def restingDb (amount filledAmount : ℚ) : OrdersDb :=
  ⟨Table.empty.save (limitOrder 1 .sell amount filledAmount), .empty, [], [], []⟩

end Orders
