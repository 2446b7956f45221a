import PeerX.Orders.Invariants

/-!
# Orders: the resting book

The book of an asset is crossed when a resting BUY order is at or above the price of a resting SELL
order. During the matching loop only the taker can cross other orders, and the loop ends when it no
longer does; a fill that uses the taker up also takes it off the book. The loop does nothing for an
amended order with nothing remaining, so such an order can be moved across the book.
-/

namespace Orders

open Relational Concurrency Arithmetic

/-- A resting order: LIMIT, in status PENDING or PARTIAL. -/
def Order.Resting (o : Order) : Prop := o.type = .limit ∧ o.Open

instance (o : Order) : Decidable o.Resting := inferInstanceAs (Decidable (_ ∧ _))

/-- The book is not crossed: of every asset, each resting BUY order has a price below that of
each resting SELL order. -/
def Uncrossed (orders : Table Order.id) : Prop :=
  ∀ bid ∈ orders.rows, ∀ ask ∈ orders.rows, bid.Resting → ask.Resting → bid.side = .buy →
    ask.side = .sell → bid.assetId = ask.assetId →
    ∃ p q, bid.price = some p ∧ ask.price = some q ∧ p < q

/-- No resting order is crossable for another, the order `id` left out. -/
def UncrossedBut (id : ℕ) (orders : Table Order.id) : Prop :=
  ∀ x ∈ orders.rows, ∀ y ∈ orders.rows, x.id ≠ id → y.id ≠ id → x.Resting → ¬ Crossable x y

/-- Two LIMIT orders with prices cross when the BUY price is at least the SELL price. -/
theorem crossable_iff {x y : Order} {p q : ℚ} (hx : x.type = .limit) (hp : x.price = some p)
    (hq : y.price = some q) : Crossable x y ↔
      (y.assetId = x.assetId ∧ y.side = x.side.opposite ∧ y.Resting) ∧
        match x.side with
        | .buy => q ≤ p
        | .sell => p ≤ q := by
  unfold Crossable Order.Resting acceptsPrice
  rw [hx, hp, hq]
  cases x.side <;> simp [and_assoc]

theorem Crossable.symm {x y : Order} (hx : x.Resting) (hpx : x.price.isSome) (hpy : y.price.isSome)
    (h : Crossable x y) : Crossable y x := by
  obtain ⟨p, hp⟩ := Option.isSome_iff_exists.mp hpx
  obtain ⟨q, hq⟩ := Option.isSome_iff_exists.mp hpy
  obtain ⟨⟨hasset, hside, hy⟩, hprice⟩ := (crossable_iff hx.1 hp hq).mp h
  refine (crossable_iff hy.1 hq hp).mpr ⟨⟨hasset.symm, ?_, hx⟩, ?_⟩
  · rw [hside]
    cases x.side <;> rfl
  · rw [hside]
    cases hs : x.side with
    | buy => simpa [hs, OrderSide.opposite] using hprice
    | sell => simpa [hs, OrderSide.opposite] using hprice

/-- The book is uncrossed when no resting order is crossable for another. -/
theorem uncrossed_iff {d : OrdersDb} (hs : SoundRows d) :
    Uncrossed d.orders ↔ ∀ x ∈ d.orders.rows, x.Resting → NoCrossable d.orders x := by
  constructor
  · intro h x hx hrest y hy hcross
    obtain ⟨p, hp⟩ := Option.isSome_iff_exists.mp ((hs x hx).price hrest.1)
    obtain ⟨q, hq⟩ := Option.isSome_iff_exists.mp ((hs y hy).price hcross.2.2.1)
    obtain ⟨⟨hasset, hside, hrest'⟩, hprice⟩ := (crossable_iff hrest.1 hp hq).mp hcross
    cases hxs : x.side with
    | buy =>
      rw [hxs] at hside hprice
      obtain ⟨p', q', hp', hq', hlt⟩ := h x hx y hy hrest hrest' hxs hside hasset.symm
      obtain rfl : p = p' := Option.some.inj (hp.symm.trans hp')
      obtain rfl : q = q' := Option.some.inj (hq.symm.trans hq')
      exact absurd hprice (not_le.mpr hlt)
    | sell =>
      rw [hxs] at hside hprice
      obtain ⟨q', p', hq', hp', hlt⟩ := h y hy x hx hrest' hrest hside hxs hasset
      obtain rfl : p = p' := Option.some.inj (hp.symm.trans hp')
      obtain rfl : q = q' := Option.some.inj (hq.symm.trans hq')
      exact absurd hprice (not_le.mpr hlt)
  · intro h bid hbid ask hask hrest hrest' hbuy hsell hasset
    obtain ⟨p, hp⟩ := Option.isSome_iff_exists.mp ((hs bid hbid).price hrest.1)
    obtain ⟨q, hq⟩ := Option.isSome_iff_exists.mp ((hs ask hask).price hrest'.1)
    refine ⟨p, q, hp, hq, ?_⟩
    by_contra hge
    refine h bid hbid hrest ask hask ((crossable_iff hrest.1 hp hq).mpr ⟨⟨hasset.symm, ?_, hrest'⟩, ?_⟩)
    · rw [hsell, hbuy]
      rfl
    · rw [hbuy]
      exact not_lt.mp hge

/-- A fill does not change what an order crosses, and a filled order is crossed by fewer. -/
theorem Crossable.of_applyFill_right {now : ℤ} {x y : Order} {a p : ℚ} (hy : y.Open)
    (h : Crossable x (applyFill now y a p)) : Crossable x y := by
  obtain ⟨hasset, hside, htype, -, hprice⟩ := h
  refine ⟨by simpa using hasset, by simpa using hside, by simpa using htype, hy, ?_⟩
  simpa [acceptsPrice] using hprice

/-- What holds between two iterations: the other orders do not cross each other, and a taker that is
used up is off the book or crosses nothing. -/
structure Matchable (d : OrdersDb) (taker : Order) : Prop where
  others : UncrossedBut taker.id d.orders
  taker : 0 < taker.remainingAmount ∨ ¬ taker.Resting ∨ NoCrossable d.orders taker

theorem matchable_fill {now : ℤ} {d : OrdersDb} {taker maker : Order} (hm : maker ∈ d.orders.rows)
    (ht : taker ∈ d.orders.rows) (hcross : Crossable taker maker) (h : Matchable d taker) :
    Matchable (d.fill now taker maker) (takerAfter now taker maker) := by
  have hmaker : maker.Open := hcross.2.2.2.1
  have hne : maker.id ≠ taker.id := hcross.id_ne ht hm
  constructor
  · intro x hx y hy hxid hyid hrest hxy
    rw [takerAfter_id] at hxid hyid
    -- read both orders back to the tables before the fill
    obtain ⟨x₀, hx₀, hx₀id, hx₀rest, hx₀y⟩ : ∃ x₀ ∈ d.orders.rows, x₀.id ≠ taker.id ∧
        x₀.Resting ∧ Crossable x₀ y := by
      rcases mem_fill hx with rfl | rfl | ⟨hx, -⟩
      · exact absurd (takerAfter_id ..) hxid
      · refine ⟨maker, hm, hne, ⟨hcross.2.2.1, hmaker⟩, ?_⟩
        rwa [makerAfter, crossable_applyFill] at hxy
      · exact ⟨x, hx, hxid, hrest, hxy⟩
    rcases mem_fill hy with rfl | rfl | ⟨hy, -⟩
    · exact absurd (takerAfter_id ..) hyid
    · exact h.others x₀ hx₀ maker hm hx₀id hne hx₀rest (hx₀y.of_applyFill_right hmaker)
    · exact h.others x₀ hx₀ y hy hx₀id hyid hx₀rest hx₀y
  · by_cases hrem : 0 < (takerAfter now taker maker).remainingAmount
    · exact .inl hrem
    · right
      left
      rintro ⟨-, hopen⟩
      rw [takerAfter, applyFill_open_iff] at hopen
      rw [takerAfter, applyFill_remainingAmount] at hrem
      linarith

/-- After the loop the taker crosses nothing either. -/
theorem Fills.uncrossed {now : ℤ} {d d' : OrdersDb} {taker taker' : Order}
    (hfills : Fills now d taker d' taker') (hs : SoundRows d) (h : Matchable d taker)
    (hexit : taker'.remainingAmount ≤ 0 ∨ NoCrossable d'.orders taker') :
    Uncrossed d'.orders := by
  have hs' : SoundRows d' :=
    Changes.invariant ((sound_kept now fun _ => True).change) hfills.changes hs
  have hend : Matchable d' taker' :=
    hfills.invariant (fun _ _ _ ht hm _ _ hc => matchable_fill hm ht hc) h
  have htaker : ¬ taker'.Resting ∨ NoCrossable d'.orders taker' := by
    rcases hexit with hrem | hno
    · exact hend.taker.resolve_left (not_lt.mpr hrem)
    · exact .inr hno
  rw [uncrossed_iff hs']
  intro x hx hrest y hy hxy
  have hmem := hfills.mem
  by_cases hxid : x.id = taker'.id
  · obtain rfl := Table.eq_of_key_eq hx hmem hxid
    rcases htaker with hno | hno
    · exact hno hrest
    · exact hno y hy hxy
  · by_cases hyid : y.id = taker'.id
    · obtain rfl := Table.eq_of_key_eq hy hmem hyid
      have hyrest : y.Resting := ⟨hxy.2.2.1, hxy.2.2.2.1⟩
      rcases htaker with hno | hno
      · exact hno hyrest
      · exact hno x hx (hxy.symm hrest ((hs' x hx).price hrest.1) ((hs' y hy).price hyrest.1))
    · exact hend.others x hx y hy hxid hyid hrest hxy

section Entries

variable {d : OrdersDb} {w : Order}

theorem uncrossedBut_save (hd : ∀ x ∈ d.orders.rows, x.Resting → NoCrossable d.orders x) :
    UncrossedBut w.id (d.orders.save w) := by
  intro x hx y hy hxid hyid hrest hxy
  rcases Table.mem_save.mp hx with rfl | ⟨hx, -⟩
  · exact hxid rfl
  · rcases Table.mem_save.mp hy with rfl | ⟨hy, -⟩
    · exact hyid rfl
    · exact hd x hx hrest y hy hxy

/-- A written order that does not rest crosses nothing. -/
theorem noCrossable_save (hd : ∀ x ∈ d.orders.rows, x.Resting → NoCrossable d.orders x)
    (hw : ¬ w.Resting) :
    ∀ x ∈ (d.orders.save w).rows, x.Resting → NoCrossable (d.orders.save w) x := by
  intro x hx hrest y hy hxy
  by_cases hxid : x.id = w.id
  · obtain rfl := Table.eq_of_key_eq hx (Table.mem_save_self _ _) hxid
    exact hw hrest
  · by_cases hyid : y.id = w.id
    · obtain rfl := Table.eq_of_key_eq hy (Table.mem_save_self _ _) hyid
      exact hw ⟨hxy.2.2.1, hxy.2.2.2.1⟩
    · exact uncrossedBut_save hd x hx y hy hxid hyid hrest hxy

/-- A taker crosses none of the rows it crossed none of before its entry. -/
theorem noCrossable_save_self (hw : NoCrossable d.orders w) : NoCrossable (d.orders.save w) w := by
  intro y hy hwy
  rcases Table.mem_save.mp hy with rfl | ⟨hy, -⟩
  · exact hwy.side_ne rfl
  · exact hw y hy hwy

end Entries

/-- No accepted amendment leaves a LIMIT order with nothing remaining at a price that crosses a
resting order. -/
def KeepsUncrossed (d : OrdersDb) (e : Event) : Prop :=
  ∀ userId dto, e.request = .modify userId dto → ∀ o ∈ d.orders.rows, Admits o userId dto →
    o.type = .limit → (o.amendedBy dto).amount = o.filledAmount →
    NoCrossable d.orders (o.amendedBy dto)

theorem Order.IsStop.not_resting {o : Order} (h : o.IsStop) : ¬ o.Resting := by
  rintro ⟨ht, -⟩
  rcases h with h | h | h <;> rw [ht] at h <;> cases h

theorem Entry.uncrossed {now : ℤ} {d s : OrdersDb} {request : Request} (hs : SoundRows d)
    (hsound : SoundRows s) (hd : Uncrossed d.orders) (h : Entry now d request s none) :
    Uncrossed s.orders := by
  rw [uncrossed_iff hs] at hd
  generalize ht : none = t at h
  cases h with
  | enter hnew hid hfresh hres =>
    refine (uncrossed_iff hsound).mpr (noCrossable_save hd ?_)
    rintro ⟨hlimit, -⟩
    simp [Order.activeTaker, hlimit] at ht
  | cancel ho hid howner hstatus hrel =>
    refine (uncrossed_iff hsound).mpr (noCrossable_save hd ?_)
    rintro ⟨-, hopen | hopen⟩ <;> cases hopen
  | amend ho hadm hres =>
    refine (uncrossed_iff hsound).mpr (noCrossable_save hd ?_)
    rintro ⟨hlimit, -⟩
    simp [Order.amendedTaker, hlimit] at ht
  | arm => cases ht
  | ratchet ho hid hstop hpending haction =>
    exact (uncrossed_iff hsound).mpr (noCrossable_save hd (Order.IsStop.not_resting hstop))
  | idle => exact (uncrossed_iff hs).mpr hd

/-- An entry with a taker leaves the other orders uncrossed. -/
theorem Entry.matchable {e : Event} {d s : OrdersDb} {taker : Order} (hs : SoundRows d)
    (hd : Uncrossed d.orders) (he : KeepsUncrossed d e)
    (h : Entry e.now d e.request s (some taker)) : Matchable s taker := by
  rw [uncrossed_iff hs] at hd
  obtain ⟨htakes, horders⟩ := h.takes
  refine ⟨horders ▸ uncrossedBut_save hd, ?_⟩
  generalize hr : e.request = request at htakes
  cases htakes with
  | new hid hfresh htype =>
    left
    rw [Order.remainingAmount, hfresh.filledAmount, sub_zero]
    exact hfresh.amount_pos
  | @amended userId dto o ho hadm htype =>
    by_cases hrem : 0 < (o.amendedBy dto).remainingAmount
    · exact .inl hrem
    · -- nothing remains, so the loop will not run: the condition is what keeps the book uncrossed
      have hfull : (o.amendedBy dto).amount = o.filledAmount :=
        le_antisymm (sub_nonpos.mp (not_lt.mp hrem)) ((hs o ho).amendedBy hadm).filled_le
      right
      right
      rw [horders]
      exact noCrossable_save_self (he userId dto hr o ho hadm htype hfull)
  | triggered ho hstop hpending => exact .inr (.inl (Order.IsStop.not_resting hstop))

/-- One transaction keeps the book uncrossed. -/
theorem uncrossed_tx {e : Event} {d s d' : OrdersDb} {t : Option Order} (hs : SoundRows d)
    (hd : Uncrossed d.orders) (he : KeepsUncrossed d e) (hentry : Entry e.now d e.request s t)
    (hmatched : Matched e.now s t d') : Uncrossed d'.orders := by
  have hsound : SoundRows s := by
    rcases hentry.edit (A := fun _ => True) fun _ _ _ _ _ _ => trivial with rfl | hedit
    · exact hs
    · exact (sound_kept e.now _).edit hs hedit
  cases t with
  | none =>
    obtain rfl : d' = s := hmatched
    exact hentry.uncrossed hs hsound hd
  | some taker =>
    obtain ⟨taker', hfills, hexit⟩ := hmatched
    exact hfills.uncrossed hsound (hentry.matchable hs hd he) hexit

theorem uncrossed_step (d : OrdersDb) (e : Event) (hs : SoundRows d) (hd : Uncrossed d.orders)
    (he : KeepsUncrossed d e) : Uncrossed (step d e).orders := by
  rcases step_entry d e with h | ⟨s, t, hentry, hmatched⟩
  · rw [h]
    exact hd
  · exact uncrossed_tx hs hd he hentry hmatched

/-- Every bid level of an uncrossed book is below every ask level. -/
theorem snapshot_levels {d : OrdersDb} (hd : Uncrossed d.orders) (assetId : ℕ)
    {bid ask : OrderBookLevelSnapshot} (hbid : bid ∈ (getOrderBookSnapshot d assetId).bids)
    (hask : ask ∈ (getOrderBookSnapshot d assetId).asks) : bid.price < ask.price := by
  have hresting : ∀ o ∈ d.orders.rows.filter fun o => o.assetId = assetId ∧ o.type = .limit ∧ o.Open,
      o ∈ d.orders.rows ∧ o.assetId = assetId ∧ o.Resting := by
    intro o ho
    obtain ⟨ho, hprop⟩ := List.mem_filter.mp ho
    exact ⟨ho, by simpa [Order.Resting] using hprop⟩
  obtain ⟨b, hb, hbuy, hbprice⟩ := exists_order_of_level (List.mem_mergeSort.mp hbid)
  obtain ⟨a, ha, hsell, haprice⟩ := exists_order_of_level (List.mem_mergeSort.mp hask)
  obtain ⟨hb, hbasset, hbrest⟩ := hresting b hb
  obtain ⟨ha, haasset, harest⟩ := hresting a ha
  obtain ⟨p, q, hp, hq, hlt⟩ :=
    hd b hb a ha hbrest harest hbuy hsell (hbasset.trans haasset.symm)
  rw [← hbprice, ← haprice, hp, hq]
  exact hlt

/-- **The book is never crossed**, of amounts and prices that are held exactly, as long as no
amendment moves an order with nothing remaining across it: they stay held exactly, and the best bid
of a snapshot is below its best ask. -/
theorem book_never_crossed {d : OrdersDb} (hd : Initial d) (hb : ∀ b ∈ d.balances.rows, Carried b.balance)
    {es : List Event} (hexact : ∀ e ∈ es, e.Exact) (hes : Along step KeepsUncrossed d es) :
    Throughout step (fun d => ExactRows d ∧ Uncrossed d.orders ∧ ∀ assetId bid ask,
      (getOrderBookSnapshot d assetId).bids.head? = some bid →
      (getOrderBookSnapshot d assetId).asks.head? = some ask → bid.price < ask.price) d es := by
  let I : OrdersDb → Prop := fun d => ExactRows d ∧ SoundRows d ∧ Uncrossed d.orders
  have hstep : ∀ d e, I d → e.Exact ∧ KeepsUncrossed d e → I (step d e) := fun d e h he =>
    ⟨exact_step d e h.1 he.1, sound_step d e h.2.1, uncrossed_step d e h.2.1 h.2.2 he.2⟩
  have hinit : I d := by
    refine ⟨hd.exact hb, hd.sound, ?_⟩
    intro bid hbid
    rw [hd.orders] at hbid
    cases hbid
  refine (throughout_of_invariant hstep hinit ((along_of_mem hexact d).and hes)).mono fun d h => ⟨h.1, h.2.2, ?_⟩
  intro assetId bid ask hbid hask
  exact snapshot_levels h.2.2 assetId (List.mem_of_mem_head? hbid) (List.mem_of_mem_head? hask)

/-- A SELL order over ten units with three of them sold is moved to a higher price. -/
theorem book_never_crossed_moved :
    Throughout step (fun d => ExactRows d ∧ Uncrossed d.orders ∧ ∀ assetId bid ask,
        (getOrderBookSnapshot d assetId).bids.head? = some bid →
        (getOrderBookSnapshot d assetId).asks.head? = some ask → bid.price < ask.price)
      sellerDb [⟨0, placeLimit 1 1 .sell 10 100⟩, ⟨1, placeLimit 2 2 .buy 3 100⟩,
        ⟨2, .modify 1 ⟨1, some 110, none, none, none⟩⟩] := by
  refine book_never_crossed sellerDb_initial sellerDb_exact ?_ ⟨?_, ?_, ?_, trivial⟩
  · simp only [List.forall_mem_cons, placeLimit_exact, true_and]
    simp [Event.Exact]
  · rintro userId dto h
    cases h
  · rintro userId dto h
    cases h
  · -- seven units of the order remain
    rintro userId dto h o ho hadm - hfull
    cases h
    have hid : o.id = 1 := hadm.id
    clear hadm
    revert o
    decide +kernel

/-- A SELL order over ten units with three of them sold is lowered to three units and moved below a
resting BUY order: it is not matched, and rests there. -/
theorem book_crossed_lowered : Initial sellerDb ∧ ¬ Uncrossed (run step sellerDb
    [⟨0, placeLimit 1 1 .sell 10 100⟩, ⟨1, placeLimit 2 2 .buy 3 100⟩,
      ⟨2, placeLimit 3 2 .buy 1 50⟩, ⟨3, .modify 1 ⟨1, some 40, some 3, none, none⟩⟩]).orders := by
  refine ⟨sellerDb_initial, fun h => ?_⟩
  obtain ⟨bid, hbid, ask, hask, hrest, hrest', hbuy, hsell, hasset, hge⟩ :
      ∃ bid ∈ (run step sellerDb [⟨0, placeLimit 1 1 .sell 10 100⟩, ⟨1, placeLimit 2 2 .buy 3 100⟩,
          ⟨2, placeLimit 3 2 .buy 1 50⟩, ⟨3, .modify 1 ⟨1, some 40, some 3, none, none⟩⟩]).orders.rows,
        ∃ ask ∈ (run step sellerDb [⟨0, placeLimit 1 1 .sell 10 100⟩, ⟨1, placeLimit 2 2 .buy 3 100⟩,
          ⟨2, placeLimit 3 2 .buy 1 50⟩, ⟨3, .modify 1 ⟨1, some 40, some 3, none, none⟩⟩]).orders.rows,
        bid.Resting ∧ ask.Resting ∧ bid.side = .buy ∧ ask.side = .sell ∧
        bid.assetId = ask.assetId ∧ ask.price.getD 0 ≤ bid.price.getD 0 := by
    decide +kernel
  obtain ⟨p, q, hp, hq, hlt⟩ := h bid hbid ask hask hrest hrest' hbuy hsell hasset
  rw [hp, hq] at hge
  exact absurd hge (not_le.mpr hlt)

end Orders
