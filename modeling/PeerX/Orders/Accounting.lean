import Mathlib
import PeerX.Orders.Invariants

/-!
# Orders: accounting of the fills

The volumes agree in every state: what was filled of the BUY orders of an asset, what was filled of
its SELL orders and what was traded of it. The order records are exact, and the average prices are
averages, as long as no amendment lowers the amount of an order to what is already filled of it:
such an order stays open with nothing remaining, and a later taker is filled against it for an
amount of zero.

## Main results

* `volumes_change`: every change keeps the volumes in agreement
* `records_and_volumes`: records and volumes in every state
* `averages_from_fills`: amounts and averages in every state
-/

namespace Orders

open Relational Concurrency Arithmetic

/-! ## Volumes -/

/-- What was filled of an order, when it is of the asset and side. -/
def filledOf (assetId : ℕ) (side : OrderSide) (o : Order) : ℚ :=
  if o.assetId = assetId ∧ o.side = side then o.filledAmount else 0

/-- What was traded of the asset. -/
def tradedOf (assetId : ℕ) (trades : List Trade) : ℚ :=
  (trades.map fun t => if t.asset = toString assetId then t.amount else 0).sum

/-- The volume filled on each side of an asset is the volume traded of it. -/
def VolumesAgree (d : OrdersDb) : Prop :=
  ∀ assetId side, d.orders.sum (filledOf assetId side) = tradedOf assetId d.trades

theorem volumes_edit {now : ℤ} {A : Order → Prop} {d d' : OrdersDb} (hd : VolumesAgree d)
    (h : Edit now A d d') : VolumesAgree d' := by
  intro assetId side
  cases h with
  | @enter o balances hid hfresh hres =>
    have hzero : filledOf assetId side o = 0 := by
      rw [filledOf, hfresh.filledAmount, ite_self]
    rw [Table.sum_save_new hid, hzero, add_zero]
    exact hd assetId side
  | @cancel o balances ho hstatus hrel =>
    rw [Table.sum_save_of_eq (r := o.asCancelled now) ho rfl rfl]
    exact hd assetId side
  | @amend userId dto o balances ho hadm hA hres =>
    rw [Table.sum_save_of_eq (r := o.amendedBy dto) ho rfl rfl]
    exact hd assetId side
  | @touch o ho triggeredAt reference =>
    simp only [OrdersDb.settle]
    rw [Table.sum_save_of_eq (r := o.touchedBy triggeredAt reference) ho rfl rfl]
    exact hd assetId side

/-- A fill adds its amount to the volume of its asset and of the order's side. -/
theorem filledOf_applyFill (assetId : ℕ) (side : OrderSide) (now : ℤ) (o : Order) (a p : ℚ) :
    filledOf assetId side (applyFill now o a p) = filledOf assetId side o +
      if o.assetId = assetId ∧ o.side = side then a else 0 := by
  unfold filledOf
  rw [applyFill_assetId, applyFill_side, applyFill_filledAmount]
  split
  · rfl
  · rw [add_zero]

theorem tradedOf_append (assetId : ℕ) (trades : List Trade) (t : Trade) :
    tradedOf assetId (trades ++ [t]) = tradedOf assetId trades +
      if t.asset = toString assetId then t.amount else 0 := by
  simp [tradedOf]

/-- **Every change keeps the volumes in agreement.** -/
theorem volumes_change {now : ℤ} {A : Order → Prop} (d d' : OrdersDb) (hd : VolumesAgree d)
    (hc : Change now A d d') : VolumesAgree d' := by
  cases hc with
  | edit h => exact volumes_edit hd h
  | @fill taker maker ht hm hopen hpos hcross =>
    intro assetId side
    have hne := hcross.id_ne ht hm
    have ht' : taker ∈ (d.orders.save (makerAfter now taker maker)).rows :=
      Table.mem_save.mpr (.inr ⟨ht, by simpa using hne.symm⟩)
    simp only [OrdersDb.fill, OrdersDb.afterFill, OrdersDb.settle]
    rw [Table.sum_save ht' (takerAfter_id ..), Table.sum_save hm (makerAfter_id ..), takerAfter,
      makerAfter, filledOf_applyFill, filledOf_applyFill, hd assetId side, tradedOf_append]
    -- exactly one of the two orders is on the side
    have hasset : (fillTrade taker (fillAmount taker maker) (fillPrice maker)).asset =
        toString assetId ↔ taker.assetId = assetId := Nat.repr_inj
    have hsum : (if taker.assetId = assetId ∧ taker.side = side then fillAmount taker maker else 0) +
        (if maker.assetId = assetId ∧ maker.side = side then fillAmount taker maker else 0) =
        if taker.assetId = assetId then fillAmount taker maker else 0 := by
      rw [hcross.1, hcross.2.1]
      by_cases ha : taker.assetId = assetId
      · cases taker.side <;> cases side <;> simp [ha, OrderSide.opposite]
      · simp [ha]
    simp only [hasset]
    simp only [fillTrade]
    linarith

/-! ## Records -/

/-- Every order is filled within its amount, and up to its amount exactly when it is FILLED. -/
def RecordsExact (d : OrdersDb) : Prop :=
  ∀ o ∈ d.orders.rows, (0 ≤ o.filledAmount ∧ o.filledAmount ≤ o.amount) ∧
    (o.status = .filled ↔ o.filledAmount = o.amount)

theorem recordsExact_of_unfinished {d : OrdersDb} (hs : SoundRows d)
    (hu : UnfinishedRows (fun _ => True) d) : RecordsExact d := by
  intro o ho
  refine ⟨⟨(hs o ho).filled_nonneg, (hs o ho).filled_le⟩, (hs o ho).filled_eq, fun he => ?_⟩
  by_contra hstatus
  exact (hu o ho trivial hstatus).ne he

/-- **Records and volumes**, of amounts and prices that are held exactly: they stay so, the volumes
agree in every state of every run, and the records are exact as long as no amendment lowers the
amount of an order to what is filled of it. -/
theorem records_and_volumes {d : OrdersDb} (hd : Initial d) (hb : ∀ b ∈ d.balances.rows, Carried b.balance)
    {es : List Event} (hexact : ∀ e ∈ es, e.Exact) :
    Throughout step (fun d => ExactRows d ∧ ∀ assetId,
        d.orders.sum (filledOf assetId .buy) = d.orders.sum (filledOf assetId .sell) ∧
        d.orders.sum (filledOf assetId .sell) = tradedOf assetId d.trades) d es ∧
      (Along step (NoExhaustingAmend fun _ => True) d es → Throughout step RecordsExact d es) := by
  constructor
  · let I : OrdersDb → Prop := fun d => ExactRows d ∧ VolumesAgree d
    have hinit : VolumesAgree d := by
      intro assetId side
      simp [Table.sum, tradedOf, hd.orders, hd.trades]
    have hstep : ∀ d e, I d → e.Exact → I (step d e) := fun d e h he =>
      ⟨exact_step d e h.1 he, Changes.invariant volumes_change
        (step_changes (A := fun _ => True) fun _ _ _ _ _ _ => trivial) h.2⟩
    refine (throughout_of_invariant hstep ⟨hd.exact hb, hinit⟩ (along_of_mem hexact d)).mono ?_
    intro d h
    exact ⟨h.1, fun assetId => ⟨(h.2 assetId .buy).trans (h.2 assetId .sell).symm, h.2 assetId .sell⟩⟩
  · intro hes
    let I : OrdersDb → Prop := fun d => SoundRows d ∧ UnfinishedRows (fun _ => True) d
    have hfixed : Fixed fun _ => True :=
      ⟨fun _ _ _ => trivial, fun _ _ _ => trivial, fun _ _ _ _ => trivial⟩
    have hstep : ∀ d e, I d → NoExhaustingAmend (fun _ => True) d e → I (step d e) :=
      fun d e h he => ⟨sound_step d e h.1, unfinished_step hfixed d e h.2 he⟩
    exact (throughout_of_invariant hstep ⟨hd.sound, hd.unfinished⟩ hes).mono fun d h =>
      recordsExact_of_unfinished h.1 h.2

/-- The amendment of an order's amount alone. -/
def amendAmountTo (orderId : ℕ) (amount : ℚ) : ModifyOrderDto := ⟨orderId, none, amount, none, none⟩

/-- A SELL order over five units, three of them sold, raised to six. -/
theorem records_and_volumes_raised :
    Throughout step RecordsExact sellerDb [⟨0, placeLimit 1 1 .sell 5 100⟩,
      ⟨1, placeLimit 2 2 .buy 3 100⟩, ⟨2, .modify 1 (amendAmountTo 1 6)⟩] := by
  refine (records_and_volumes sellerDb_initial sellerDb_exact ?_).2 ⟨?_, ?_, ?_, trivial⟩
  · simp only [List.forall_mem_cons, placeLimit_exact, true_and]
    simp [Event.Exact, amendAmountTo]
  · rintro userId dto h
    cases h
  · rintro userId dto h
    cases h
  · rintro userId dto h o ho - -
    cases h
    revert o
    decide +kernel

/-- A SELL order over ten units, three of them sold, lowered to three: nothing remains of it, and it
stays PARTIAL. -/
theorem records_not_exact_lowered : Initial sellerDb ∧ ¬ RecordsExact (run step sellerDb
    [⟨0, placeLimit 1 1 .sell 10 100⟩, ⟨1, placeLimit 2 2 .buy 3 100⟩,
      ⟨2, .modify 1 (amendAmountTo 1 3)⟩]) := by
  refine ⟨sellerDb_initial, ?_⟩
  unfold RecordsExact
  decide +kernel

/-! ## Averages -/

/-- The fill was applied to the order `id`. -/
def FillResult.Of (id : ℕ) (f : FillResult) : Prop := f.takerOrder.id = id ∨ f.makerOrder.id = id

instance (id : ℕ) (f : FillResult) : Decidable (f.Of id) := inferInstanceAs (Decidable (_ ∨ _))

/-- The fills of the order `id`. -/
def fillsOf (id : ℕ) (log : List FillResult) : List FillResult := log.filter (·.Of id)

/-- The sum of `fillAmount * fillPrice`. -/
def notional (fs : List FillResult) : ℚ := (fs.map fun f => f.fillAmount * f.fillPrice).sum

/-- The order is accounted for by the logged fills: they add up to its filled amount, and its
average price times that amount is their notional. -/
structure FillsAccounted (log : List FillResult) (o : Order) : Prop where
  filled : o.filledAmount = ((fillsOf o.id log).map (·.fillAmount)).sum
  unfilled : fillsOf o.id log = [] → o.averageFillPrice = none
  average : fillsOf o.id log ≠ [] → ∃ avg, o.averageFillPrice = some (.num avg) ∧
    o.filledAmount * avg = notional (fillsOf o.id log)

/-- A logged fill of a positive amount, after which something is filled of both orders. -/
def FillResult.Positive (f : FillResult) : Prop :=
  0 < f.fillAmount ∧ 0 < f.takerOrder.filledAmount ∧ 0 < f.makerOrder.filledAmount

section Log

variable {log : List FillResult} {o : Order} {f : FillResult}

theorem fillsOf_append (id : ℕ) (log : List FillResult) (f : FillResult) :
    fillsOf id (log ++ [f]) = fillsOf id log ++ if f.Of id then [f] else [] := by
  unfold fillsOf
  rw [List.filter_append]
  by_cases h : f.Of id <;> simp [h]

/-- The accounts of an order depend on its identifier, filled amount and average price. -/
theorem FillsAccounted.congr {o' : Order} (h : FillsAccounted log o) (hid : o'.id = o.id)
    (hfilled : o'.filledAmount = o.filledAmount)
    (haverage : o'.averageFillPrice = o.averageFillPrice) : FillsAccounted log o' := by
  refine ⟨?_, ?_, ?_⟩
  · rw [hfilled, hid]
    exact h.filled
  · rw [hid, haverage]
    exact h.unfilled
  · rw [hid, haverage, hfilled]
    exact h.average

theorem FillsAccounted.append_other (h : FillsAccounted log o) (hf : ¬ f.Of o.id) :
    FillsAccounted (log ++ [f]) o := by
  have e : fillsOf o.id (log ++ [f]) = fillsOf o.id log := by
    rw [fillsOf_append, if_neg hf, List.append_nil]
  exact ⟨by rw [e]; exact h.filled, by rw [e]; exact h.unfilled, by rw [e]; exact h.average⟩

/-- The notional filled so far, read back from the order. -/
theorem FillsAccounted.notional_eq (h : FillsAccounted log o) :
    ∃ avg, o.averageFillPrice.getD (.num 0) = .num avg ∧
      o.filledAmount * avg = notional (fillsOf o.id log) := by
  by_cases hnil : fillsOf o.id log = []
  · refine ⟨0, ?_, ?_⟩
    · rw [h.unfilled hnil]
      rfl
    · rw [hnil, mul_zero]
      rfl
  · obtain ⟨avg, havg, hsum⟩ := h.average hnil
    exact ⟨avg, by rw [havg]; rfl, hsum⟩

/-- A positive fill of the order, logged. -/
theorem FillsAccounted.applyFill (h : FillsAccounted log o) (hf : f.Of o.id)
    (hfilled : 0 ≤ o.filledAmount) (hpos : 0 < f.fillAmount) (now : ℤ) :
    FillsAccounted (log ++ [f]) (applyFill now o f.fillAmount f.fillPrice) := by
  have e : fillsOf o.id (log ++ [f]) = fillsOf o.id log ++ [f] := by
    rw [fillsOf_append, if_pos hf]
  have hnew : o.filledAmount + f.fillAmount ≠ 0 := (add_pos_of_nonneg_of_pos hfilled hpos).ne'
  obtain ⟨avg, havg, hsum⟩ := h.notional_eq
  refine ⟨?_, ?_, fun _ => ?_⟩
  · rw [applyFill_id, applyFill_filledAmount, e, h.filled]
    simp
  · rw [applyFill_id, e]
    simp
  · -- the new average is the new notional over the new filled amount
    refine ⟨(o.filledAmount * avg + f.fillAmount * f.fillPrice) /
      (o.filledAmount + f.fillAmount), ?_, ?_⟩
    · rw [applyFill_averageFillPrice, havg, JsNumber.num_mul_num, JsNumber.num_add_num,
        JsNumber.num_div_num _ hnew]
    · rw [applyFill_filledAmount, applyFill_id, e, mul_div_cancel₀ _ hnew, hsum]
      simp [notional]

/-- The average is an average: it lies between two prices of the order's fills. -/
theorem FillsAccounted.average_between (h : FillsAccounted log o) (hlog : ∀ f ∈ log, f.Positive)
    {x : JsNumber} (hx : o.averageFillPrice = some x) :
    ∃ avg, x = .num avg ∧ (∃ f ∈ fillsOf o.id log, f.fillPrice ≤ avg) ∧
      ∃ f ∈ fillsOf o.id log, avg ≤ f.fillPrice := by
  have hne : fillsOf o.id log ≠ [] := by
    intro hnil
    rw [h.unfilled hnil] at hx
    cases hx
  obtain ⟨avg, havg, hsum⟩ := h.average hne
  obtain rfl : x = .num avg := Option.some.inj (hx.symm.trans havg)
  have hpos : ∀ f ∈ fillsOf o.id log, 0 < f.fillAmount :=
    fun f hf => (hlog f (List.mem_of_mem_filter hf)).1
  have hmean : ((fillsOf o.id log).map fun f => f.fillAmount * avg).sum =
      ((fillsOf o.id log).map fun f => f.fillAmount * f.fillPrice).sum := by
    rw [List.sum_map_mul_right, ← h.filled]
    exact hsum
  refine ⟨avg, rfl, ?_, ?_⟩
  · obtain ⟨f, hf, hle⟩ := List.exists_le_of_sum_le hne _ _ hmean.ge
    exact ⟨f, hf, le_of_mul_le_mul_left hle (hpos f hf)⟩
  · obtain ⟨f, hf, hle⟩ := List.exists_le_of_sum_le hne _ _ hmean.le
    exact ⟨f, hf, le_of_mul_le_mul_left hle (hpos f hf)⟩

end Log

/-- Every order is accounted for, every logged fill is positive and of stored orders, and no LIMIT
order is exhausted without being FILLED. -/
structure AveragesKept (d : OrdersDb) : Prop where
  sound : SoundRows d
  unfinished : UnfinishedRows (·.type = .limit) d
  accounted : ∀ o ∈ d.orders.rows, FillsAccounted d.fills o
  positive : ∀ f ∈ d.fills, f.Positive
  stored : ∀ f ∈ d.fills, ∀ id, f.Of id → (d.orders.find id).isSome

theorem limit_fixed : Fixed (·.type = .limit) := ⟨fun _ _ h => h, fun _ _ h => h, fun _ _ _ h => h⟩

/-- The amended LIMIT orders have something remaining. -/
abbrev LimitUnfinished (o : Order) : Prop := o.type = .limit → o.Unfinished

/-- An edit that keeps filled amounts, averages and identifiers keeps the accounts. -/
theorem averages_edit {now : ℤ} {d d' : OrdersDb} (hd : AveragesKept d)
    (h : Edit now LimitUnfinished d d') : AveragesKept d' := by
  refine ⟨(sound_kept now _).edit hd.sound h, (unfinished_kept limit_fixed now).edit hd.unfinished h,
    ?_, ?_, ?_⟩
  · intro x hx
    cases h with
    | @enter o balances hid hfresh hres =>
      rcases Table.mem_save.mp hx with rfl | ⟨hx, -⟩
      · -- a new identifier is in no logged fill
        have hnil : fillsOf x.id d.fills = [] := by
          refine List.filter_eq_nil_iff.mpr fun f hf hof => ?_
          have hstored := hd.stored f hf x.id (by simpa using hof)
          rw [hid] at hstored
          cases hstored
        refine ⟨?_, fun _ => hfresh.averageFillPrice, fun hne => absurd hnil hne⟩
        rw [hnil, hfresh.filledAmount]
        rfl
      · exact hd.accounted x hx
    | cancel ho hstatus hrel =>
      rcases Table.mem_save.mp hx with rfl | ⟨hx, -⟩
      · exact (hd.accounted _ ho).congr rfl rfl rfl
      · exact hd.accounted x hx
    | amend ho hadm hA hres =>
      rcases Table.mem_save.mp hx with rfl | ⟨hx, -⟩
      · exact (hd.accounted _ ho).congr rfl rfl rfl
      · exact hd.accounted x hx
    | touch ho triggeredAt reference =>
      rcases Table.mem_save.mp hx with rfl | ⟨hx, -⟩
      · exact (hd.accounted _ ho).congr rfl rfl rfl
      · exact hd.accounted x hx
  · cases h <;> exact hd.positive
  · cases h <;> exact fun f hf id hof => Table.isSome_find_save (hd.stored f hf id hof)

/-- A fill of a taker and a maker with something remaining keeps the accounts. -/
theorem averages_fill {now : ℤ} {d : OrdersDb} {taker maker : Order} (hd : AveragesKept d)
    (ht : taker ∈ d.orders.rows) (hm : maker ∈ d.orders.rows) (hopen : taker.Open)
    (hpos : 0 < taker.remainingAmount) (hcross : Crossable taker maker) :
    AveragesKept (d.fill now taker maker) := by
  have hc : Change now LimitUnfinished d (d.fill now taker maker) :=
    .fill ht hm hopen hpos hcross
  have hamount : 0 < fillAmount taker maker := by
    refine lt_min hpos ?_
    exact (hd.unfinished maker hm hcross.2.2.1).remaining_pos hcross.2.2.2.1
  have htaker : (fillOf now taker maker).Of taker.id := .inl (takerAfter_id ..)
  have hmaker : (fillOf now taker maker).Of maker.id := .inr (makerAfter_id ..)
  refine ⟨(sound_kept now _).change _ _ hd.sound hc,
    (unfinished_kept limit_fixed now).change _ _ hd.unfinished hc, ?_, ?_, ?_⟩
  · -- the logged fill is of the taker and of the maker, and of no other order
    intro x hx
    rcases mem_fill hx with rfl | rfl | ⟨hx, hne, hne'⟩
    · exact (hd.accounted taker ht).applyFill htaker (hd.sound taker ht).filled_nonneg hamount now
    · exact (hd.accounted maker hm).applyFill hmaker (hd.sound maker hm).filled_nonneg hamount now
    · refine (hd.accounted x hx).append_other ?_
      rintro (h | h)
      · exact hne (h.symm.trans (takerAfter_id ..))
      · exact hne' (h.symm.trans (makerAfter_id ..))
  · -- a logged fill has an amount, which both orders have filled
    intro f hf
    rcases List.mem_append.mp hf with hf | hf
    · exact hd.positive f hf
    · obtain rfl := List.mem_singleton.mp hf
      refine ⟨hamount, ?_, ?_⟩
      · show 0 < (takerAfter now taker maker).filledAmount
        rw [takerAfter, applyFill_filledAmount]
        exact add_pos_of_nonneg_of_pos (hd.sound taker ht).filled_nonneg hamount
      · show 0 < (makerAfter now taker maker).filledAmount
        rw [makerAfter, applyFill_filledAmount]
        exact add_pos_of_nonneg_of_pos (hd.sound maker hm).filled_nonneg hamount
  · -- no row is deleted: the orders of a logged fill stay stored
    intro f hf id hof
    have hstored : (d.orders.find id).isSome := by
      rcases List.mem_append.mp hf with hf | hf
      · exact hd.stored f hf id hof
      · obtain rfl := List.mem_singleton.mp hf
        rcases hof with h | h
        · rw [← h, fillOf, takerAfter_id, Table.find_of_mem ht]
          rfl
        · rw [← h, fillOf, makerAfter_id, Table.find_of_mem hm]
          rfl
    exact Table.isSome_find_save (Table.isSome_find_save hstored)

/-- No fill divides by zero, every order is accounted for, and every average price is a number
between two prices of the order's fills. -/
def AveragesExact (d : OrdersDb) : Prop :=
  (∀ f ∈ d.fills, 0 < f.takerOrder.filledAmount ∧ 0 < f.makerOrder.filledAmount) ∧
    ∀ o ∈ d.orders.rows, FillsAccounted d.fills o ∧
      ∀ x, o.averageFillPrice = some x → ∃ avg, x = .num avg ∧
        (∃ f ∈ fillsOf o.id d.fills, f.fillPrice ≤ avg) ∧
        ∃ f ∈ fillsOf o.id d.fills, avg ≤ f.fillPrice

/-- **Averages from fills**: as long as no amendment lowers the amount of a LIMIT order to what is
filled of it, every fill divides by a positive amount, and every order's average price is the
average of its fills. -/
theorem averages_from_fills {d : OrdersDb} (hd : Initial d) {es : List Event}
    (hes : Along step (NoExhaustingAmend (·.type = .limit)) d es) :
    Throughout step AveragesExact d es := by
  have hstep : ∀ d e, AveragesKept d → NoExhaustingAmend (·.type = .limit) d e →
      AveragesKept (step d e) := by
    intro d e h he
    refine Changes.invariant ?_ (step_changes_unfinished limit_fixed h.unfinished he) h
    intro d d' h hc
    cases hc with
    | edit hedit => exact averages_edit h hedit
    | fill ht hm hopen hpos hcross => exact averages_fill h ht hm hopen hpos hcross
  have hinit : AveragesKept d := by
    refine ⟨hd.sound, hd.unfinished, ?_, ?_, ?_⟩
    · intro o ho
      rw [hd.orders] at ho
      cases ho
    · intro f hf
      rw [hd.fills] at hf
      cases hf
    · intro f hf
      rw [hd.fills] at hf
      cases hf
  refine (throughout_of_invariant hstep hinit hes).mono fun d h => ⟨fun f hf => ?_, fun o ho => ?_⟩
  · exact (h.positive f hf).2
  · exact ⟨h.accounted o ho, fun x hx => (h.accounted o ho).average_between h.positive hx⟩

/-- A SELL order over five units, three of them sold, raised to six, and sold out. -/
theorem averages_from_fills_raised :
    Throughout step AveragesExact
      sellerDb [⟨0, placeLimit 1 1 .sell 5 100⟩, ⟨1, placeLimit 2 2 .buy 3 100⟩,
        ⟨2, .modify 1 (amendAmountTo 1 6)⟩, ⟨3, placeLimit 3 2 .buy 3 100⟩] := by
  refine averages_from_fills sellerDb_initial ⟨?_, ?_, ?_, ?_, trivial⟩
  · rintro userId dto h
    cases h
  · rintro userId dto h
    cases h
  · rintro userId dto h o ho - -
    cases h
    revert o
    decide +kernel
  · rintro userId dto h
    cases h

/-- A SELL order over ten units, three of them sold, lowered to three, and then a BUY order over one
unit: the BUY order is filled against nothing, and its average price is not a number. -/
theorem average_is_nan_lowered : Initial sellerDb ∧ ¬ AveragesExact (run step sellerDb
    [⟨0, placeLimit 1 1 .sell 10 100⟩, ⟨1, placeLimit 2 2 .buy 3 100⟩,
      ⟨2, .modify 1 (amendAmountTo 1 3)⟩, ⟨3, placeLimit 3 2 .buy 1 100⟩]) := by
  refine ⟨sellerDb_initial, fun h => ?_⟩
  -- the row of the BUY order
  obtain ⟨o, ho, hnan⟩ : ∃ o ∈ (run step sellerDb
      [⟨0, placeLimit 1 1 .sell 10 100⟩, ⟨1, placeLimit 2 2 .buy 3 100⟩,
        ⟨2, .modify 1 (amendAmountTo 1 3)⟩, ⟨3, placeLimit 3 2 .buy 1 100⟩]).orders.rows,
      o.averageFillPrice = some .nan := by decide +kernel
  obtain ⟨avg, havg, -⟩ := (h.2 o ho).2 _ hnan
  cases havg

end Orders
