import PeerX.Institutional.BulkTrade

/-!
# Institutional clients: atomic batches

A batch in one transaction and the same batch item by item: both create all orders, or the first is
rolled back and some item of the second fails. The identifiers and the times of the two runs may
differ.
-/

namespace Institutional

open Relational Concurrency Orders

/-- The generated identifiers are distinct, and no stored order has one of them. -/
structure Generated.Fresh (g : Generated) (d : OrdersDb) : Prop where
  injective : Function.Injective g.id
  unused : ∀ i, d.orders.find (g.id i) = none

/-- From the item at `i` on, the identifiers are unused. -/
def UnusedFrom (g : Generated) (i : ℕ) (d : OrdersDb) : Prop := ∀ j, i ≤ j → d.orders.find (g.id j) = none

theorem UnusedFrom.placed {g : Generated} {i userId : ℕ} {d : OrdersDb} {now : ℤ} {dto : BulkTradeItemDto}
    (hinj : Function.Injective g.id) (h : UnusedFrom g i d) :
    UnusedFrom g (i + 1) (placed d (g.id i) now userId dto) := by
  intro j hj
  have hne : g.id j ≠ (bulkOrder (g.id i) now userId dto).id := fun he => by
    have := hinj he
    omega
  rw [placed_orders, Table.find_save_of_ne _ hne]
  exact h j (by omega)

/-- The order without its identifier and its time. -/
def unstamped (o : Order) : Order := { o with id := 0, createdAt := 0 }

/-- Two successors of `d` agree up to identifiers and times: the rows that were added to the
orders of `d` do, and the other tables are the same. -/
structure SameUpToStamps (d d₁ d₂ : OrdersDb) : Prop where
  balances : d₁.balances = d₂.balances
  trades : d₁.trades = d₂.trades
  fills : d₁.fills = d₂.fills
  assets : d₁.assets = d₂.assets
  orders : ∃ os₁ os₂, d₁.orders.rows = d.orders.rows ++ os₁ ∧ d₂.orders.rows = d.orders.rows ++ os₂ ∧
    os₁.map unstamped = os₂.map unstamped

theorem SameUpToStamps.refl (d : OrdersDb) : SameUpToStamps d d d :=
  ⟨rfl, rfl, rfl, rfl, [], [], by simp, by simp, rfl⟩

theorem SameUpToStamps.symm {d d₁ d₂ : OrdersDb} (h : SameUpToStamps d d₁ d₂) : SameUpToStamps d d₂ d₁ := by
  obtain ⟨os₁, os₂, h₁, h₂, hmap⟩ := h.orders
  exact ⟨h.balances.symm, h.trades.symm, h.fills.symm, h.assets.symm, os₂, os₁, h₂, h₁, hmap.symm⟩

section Stamps

variable {d d₁ d₂ : OrdersDb} {id₁ id₂ userId : ℕ} {now₁ now₂ : ℤ} {dto : BulkTradeItemDto}

theorem SameUpToStamps.goesThrough_iff (userId : ℕ) (dto : BulkTradeItemDto) (h : SameUpToStamps d d₁ d₂)
    (h₁ : d₁.orders.find id₁ = none) (h₂ : d₂.orders.find id₂ = none) :
    GoesThrough d₁ id₁ userId dto ↔ GoesThrough d₂ id₂ userId dto := by
  have hcovered : Covered d₁ userId dto ↔ Covered d₂ userId dto := by simp [Covered, h.balances]
  constructor
  · rintro ⟨haccepted, hc, -⟩
    exact ⟨haccepted, hcovered.mp hc, h₂⟩
  · rintro ⟨haccepted, hc, -⟩
    exact ⟨haccepted, hcovered.mpr hc, h₁⟩

theorem SameUpToStamps.placed (h : SameUpToStamps d d₁ d₂) (h₁ : d₁.orders.find id₁ = none)
    (h₂ : d₂.orders.find id₂ = none) :
    SameUpToStamps d (placed d₁ id₁ now₁ userId dto) (placed d₂ id₂ now₂ userId dto) where
  balances := by simp [h.balances]
  trades := h.trades
  fills := h.fills
  assets := h.assets
  orders := by
    obtain ⟨os₁, os₂, e₁, e₂, hmap⟩ := h.orders
    refine ⟨os₁ ++ [bulkOrder id₁ now₁ userId dto], os₂ ++ [bulkOrder id₂ now₂ userId dto], ?_, ?_, ?_⟩
    · rw [placed_orders, Table.rows_save_new (r := bulkOrder id₁ now₁ userId dto) h₁, e₁, List.append_assoc]
    · rw [placed_orders, Table.rows_save_new (r := bulkOrder id₂ now₂ userId dto) h₂, e₂, List.append_assoc]
    · rw [List.map_append, List.map_append, hmap]
      rfl

end Stamps

section Items

variable {g : Generated} {userId : ℕ} {d : OrdersDb} {i : ℕ} {trade : BulkTradeItemDto}

theorem atomicItem_placed (h : GoesThrough d (g.id i) userId trade) :
    (atomicItem g userId i trade).eval sql.handler d =
      (.ok (placedResult i trade (bulkOrder (g.id i) (g.time 0) userId trade)),
        placed d (g.id i) (g.time 0) userId trade) := by
  rw [atomicItem, Prog.eval_tryCatch, Prog.eval_bind, createOrderFromBulk_placed h]
  rfl

theorem atomicItem_refused (h : ¬ GoesThrough d (g.id i) userId trade) :
    ∃ e, ((atomicItem g userId i trade).eval sql.handler d).1 = .error e := by
  obtain ⟨e, he⟩ := createOrderFromBulk_refused (g.time 0) h
  rw [atomicItem, Prog.eval_tryCatch, Prog.eval_bind]
  rcases hr : (createOrderFromBulk (g.id i) (g.time 0) userId trade).eval sql.handler d with ⟨_ | o, d'⟩
  · exact ⟨_, rfl⟩
  · rw [hr] at he
    cases he

/-- An item that succeeds in an atomic batch is reported under its index and its `clientOrderId`. -/
theorem atomicItem_result {r : BulkTradeResult} {d' : OrdersDb}
    (h : (atomicItem g userId i trade).eval sql.handler d = (.ok r, d')) :
    r.index = i ∧ r.success = true ∧ r.clientOrderId = trade.clientOrderId := by
  by_cases hgo : GoesThrough d (g.id i) userId trade
  · rw [atomicItem_placed hgo] at h
    obtain ⟨rfl, -⟩ : _ = r ∧ _ := by simpa using h
    exact ⟨rfl, rfl, rfl⟩
  · obtain ⟨e, he⟩ := atomicItem_refused hgo
    rw [h] at he
    cases he

end Items

/-- The two runs before the item at `i`. -/
structure Abreast (d : OrdersDb) (g g' : Generated) (i : ℕ) (d₁ d₂ : OrdersDb) : Prop where
  same : SameUpToStamps d d₁ d₂
  unused : UnusedFrom g i d₁
  unused' : UnusedFrom g' i d₂

/-- The items of the two runs keep step. -/
theorem items_inStep {g g' : Generated} (hg : Function.Injective g.id) (hg' : Function.Injective g'.id)
    (d : OrdersDb) (userId : ℕ) :
    Prog.InStep sql.handler (ownItem g userId) (atomicItem g' userId) (Abreast d g g') := by
  intro i trade d₁ d₂ h
  have hiff := h.same.goesThrough_iff userId trade (h.unused i le_rfl) (h.unused' i le_rfl)
  by_cases hgo : GoesThrough d₁ (g.id i) userId trade
  · left
    refine ⟨_, _, _, _, createOrderFromBulk_placed hgo, atomicItem_placed (hiff.mp hgo), ?_⟩
    exact ⟨h.same.placed (h.unused i le_rfl) (h.unused' i le_rfl), h.unused.placed hg, h.unused'.placed hg'⟩
  · right
    obtain ⟨e, he⟩ := createOrderFromBulk_refused (g.time i) hgo
    obtain ⟨e', he'⟩ := atomicItem_refused (mt hiff.mpr hgo)
    exact ⟨e, e', he, he'⟩

/-- One result for each item, in the order of the items, and counts that add up. -/
structure Reported (trades : List BulkTradeItemDto) (response : BulkTradeResponse) : Prop where
  indices : response.results.map (·.index) = List.range trades.length
  clientOrderIds : response.results.map (·.clientOrderId) = trades.map (·.clientOrderId)
  counts : response.successCount + response.failureCount = trades.length
  successes : response.successCount = (response.results.filter (·.success)).length

/-- All items are reported as placed. -/
def AllSucceeded (response : BulkTradeResponse) : Prop := ∀ r ∈ response.results, r.success = true

/-- All items are reported as failed. -/
def AllFailed (response : BulkTradeResponse) : Prop := ∀ r ∈ response.results, r.success = false

section Responses

variable {g g' : Generated} {userId : ℕ} {trades : List BulkTradeItemDto} {d : OrdersDb}

theorem reported_of_results {batchId : String} {results : List BulkTradeResult}
    (hi : results.map (·.index) = List.range trades.length)
    (hc : results.map (·.clientOrderId) = trades.map (·.clientOrderId)) :
    Reported trades (respond batchId trades results) where
  indices := hi
  clientOrderIds := hc
  counts := by
    have hlength : results.length = trades.length := by simpa using congrArg List.length hi
    rw [← hlength]
    exact (List.length_eq_length_filter_add _).symm
  successes := rfl

theorem map_index : trades.zipIdx.map (fun t => t.2) = List.range trades.length := by
  simp [List.range_eq_range']

theorem map_item {γ : Type} (f : BulkTradeItemDto → γ) : trades.zipIdx.map (fun t => f t.1) = trades.map f := by
  have h := congrArg (List.map f) (List.zipIdx_map_fst 0 trades)
  simpa only [List.map_map, Function.comp_def] using h

theorem executeAtomic_reported (g : Generated) (userId : ℕ) (trades : List BulkTradeItemDto) (d : OrdersDb) :
    Reported trades (executeAtomic g userId trades d).1 := by
  unfold executeAtomic
  rcases Prog.atomically_cases sql.handler (Prog.inTurn (atomicItem g userId) 0 trades) d with
    ⟨results, d', hok, hatom⟩ | ⟨e, -, hatom⟩
  · rw [hatom]
    have hi := Prog.map_inTurn (f := fun r => r.index) (g := fun i _ => i)
      (fun i t s r s' h => (atomicItem_result h).1) hok
    have hc := Prog.map_inTurn (f := fun r => r.clientOrderId) (g := fun _ t => t.clientOrderId)
      (fun i t s r s' h => (atomicItem_result h).2.2) hok
    exact reported_of_results (hi.trans map_index) (hc.trans (map_item _))
  · rw [hatom]
    constructor
    · simp only [failedResult, List.map_map, Function.comp_def]
      exact map_index
    · simp only [failedResult, List.map_map, Function.comp_def]
      exact map_item _
    · simp
    · simp [failedResult, List.filter_map, Function.comp_def]

/-- The results of a batch that is not atomic, in terms of the outcomes of its items. -/
theorem map_results {γ : Type} {f : BulkTradeResult → γ} {k : BulkTradeItemDto × ℕ → γ}
    (hf : ∀ t outcome, f (resultOf t.2 t.1 outcome) = k t) {outcomes : List (Except BulkError Order)}
    (hlength : outcomes.length = trades.length) :
    (List.zipWith (fun t outcome => resultOf t.2 t.1 outcome) trades.zipIdx outcomes).map f =
      trades.zipIdx.map k := by
  refine List.ext_getElem (by simp [hlength]) fun i h h' => ?_
  simp [hf]

theorem executeNonAtomic_reported : Reported trades (executeNonAtomic g userId trades d).1 := by
  have hlength := Prog.length_eachAlone (h := sql.handler) (p := ownItem g userId) 0 trades d
  refine reported_of_results ((map_results (k := fun t => t.2) ?_ hlength).trans map_index)
    ((map_results (k := fun t => t.1.clientOrderId) ?_ hlength).trans (map_item _))
  · rintro t (_ | _) <;> rfl
  · rintro t (_ | _) <;> rfl

/-- A batch that is not atomic reports success for all items exactly when no outcome is an
exception. -/
theorem allSucceeded_executeNonAtomic_iff : AllSucceeded (executeNonAtomic g userId trades d).1 ↔
    ∀ e, .error e ∉ (Prog.eachAlone sql.handler (ownItem g userId) 0 trades d).1 := by
  have hlength := Prog.length_eachAlone (h := sql.handler) (p := ownItem g userId) 0 trades d
  set outcomes := (Prog.eachAlone sql.handler (ownItem g userId) 0 trades d).1 with houtcomes
  have hresults : (executeNonAtomic g userId trades d).1.results =
    List.zipWith (fun t outcome => resultOf t.2 t.1 outcome) trades.zipIdx outcomes := rfl
  have hflags : (executeNonAtomic g userId trades d).1.results.map (·.success) =
      outcomes.map fun o => o.isOk := by
    rw [hresults]
    refine List.ext_getElem (by simp [hlength]) fun i h h' => ?_
    have hi : i < outcomes.length := by simpa using h'
    simp only [List.getElem_map, List.getElem_zipWith]
    cases outcomes[i] <;> rfl
  have hall : AllSucceeded (executeNonAtomic g userId trades d).1 ↔
      ∀ b ∈ (executeNonAtomic g userId trades d).1.results.map (·.success), b = true := by
    simp [AllSucceeded]
  rw [hall, hflags]
  constructor
  · intro h e he
    simpa [Except.isOk, Except.toBool] using h _ (List.mem_map_of_mem he)
  · intro h b hb
    obtain ⟨o, ho, rfl⟩ := List.mem_map.mp hb
    cases o with
    | ok => rfl
    | error e => exact absurd ho (h e)

/-- An admitted batch: its two runs place all items and agree up to identifiers and times, or
the atomic run fails as a whole and some item of the other fails. -/
theorem executeAtomic_executeNonAtomic (userId : ℕ) (trades : List BulkTradeItemDto) (hg : g.Fresh d) (hg' : g'.Fresh d) :
    (AllSucceeded (executeAtomic g userId trades d).1 ∧ AllSucceeded (executeNonAtomic g' userId trades d).1 ∧
        SameUpToStamps d (executeNonAtomic g' userId trades d).2 (executeAtomic g userId trades d).2) ∨
      trades ≠ [] ∧ AllFailed (executeAtomic g userId trades d).1 ∧ (executeAtomic g userId trades d).2 = d ∧
        ¬ AllSucceeded (executeNonAtomic g' userId trades d).1 := by
  have hstart : Abreast d g' g 0 d d :=
    ⟨SameUpToStamps.refl d, fun j _ => hg'.unused j, fun j _ => hg.unused j⟩
  -- the two kinds of batches go abreast up to the first trade that fails
  rcases Prog.inTurn_of_eachAlone (items_inStep hg'.injective hg.injective d userId) trades hstart with
    ⟨⟨orders, horders⟩, results, d', hok, hlast⟩ | ⟨⟨e, he⟩, e', he'⟩
  · left
    have hatomic : executeAtomic g userId trades d = (respond g.batchId trades results, d') := by
      simp [executeAtomic, Prog.atomically, hok]
    refine ⟨?_, ?_, ?_⟩
    · rw [hatomic]
      have hsuccess := Prog.map_inTurn (f := fun r => r.success) (g := fun _ _ => true)
        (fun i t s r s' h => (atomicItem_result h).2.1) hok
      intro r hr
      have hmem : r.success ∈ results.map (·.success) := List.mem_map_of_mem hr
      rw [hsuccess] at hmem
      obtain ⟨-, -, hr⟩ := List.mem_map.mp hmem
      exact hr.symm
    · rw [allSucceeded_executeNonAtomic_iff, horders]
      intro e he
      simp at he
    · rw [hatomic]
      exact hlast.same
  · right
    have hfailed : ¬ AllSucceeded (executeNonAtomic g' userId trades d).1 := by
      rw [allSucceeded_executeNonAtomic_iff]
      exact fun h => h e he
    have hatomic : ∃ e, (Prog.inTurn (atomicItem g userId) 0 trades).atomically sql.handler d = (.error e, d) := by
      rcases Prog.atomically_cases sql.handler (Prog.inTurn (atomicItem g userId) 0 trades) d with
        ⟨results, d', hok, -⟩ | ⟨e'', -, hatom⟩
      · simp [hok] at he'
      · exact ⟨e'', hatom⟩
    obtain ⟨e'', hatom⟩ := hatomic
    refine ⟨?_, ?_, ?_, hfailed⟩
    · rintro rfl
      simp at he
    · intro r hr
      simp only [executeAtomic, hatom, List.mem_map] at hr
      obtain ⟨t, -, rfl⟩ := hr
      rfl
    · simp [executeAtomic, hatom]

/-- **Atomic batches**: a batch is admitted in both modes or in neither, and a batch that is not
admitted changes nothing. An admitted one reports success for all items in the atomic mode exactly
when it does in the other, and the tables then agree up to identifiers and times; else the atomic
run changes nothing and reports every item as failed. Both report one result for each item, in
order. -/
theorem atomic_iff_nonAtomic (clients : Table InstitutionalClient.userId) (g g' : Generated) (userId : ℕ)
    (trades : List BulkTradeItemDto) (d : OrdersDb) (hg : g.Fresh d) (hg' : g'.Fresh d) :
    match validateAccess clients userId trades with
    | .error e => executeBulkTrades clients g userId trades true d = (.error e, d) ∧
        executeBulkTrades clients g' userId trades false d = (.error e, d)
    | .ok () => ∃ response d₁ response' d₂,
        executeBulkTrades clients g userId trades true d = (.ok response, d₁) ∧
        executeBulkTrades clients g' userId trades false d = (.ok response', d₂) ∧
        (AllSucceeded response ↔ AllSucceeded response') ∧
        (AllSucceeded response → SameUpToStamps d d₁ d₂) ∧
        (¬ AllSucceeded response → d₁ = d ∧ AllFailed response) ∧
        Reported trades response ∧ Reported trades response' := by
  unfold executeBulkTrades
  cases validateAccess clients userId trades with
  | error e => exact ⟨rfl, rfl⟩
  | ok =>
    refine ⟨_, _, _, _, rfl, rfl, ?_⟩
    simp only [if_true, Bool.false_eq_true, if_false]
    have hreported := executeAtomic_reported g userId trades d
    rcases executeAtomic_executeNonAtomic userId trades hg hg' with
      ⟨hall, hall', hsame⟩ | ⟨hne, hfailed, hd, hnot⟩
    · exact ⟨iff_of_true hall hall', fun _ => hsame.symm, fun hn => absurd hall hn, hreported,
        executeNonAtomic_reported⟩
    · -- all results of the batch have failed, and there is one, as each trade has its own
      have hnotAtomic : ¬ AllSucceeded (executeAtomic g userId trades d).1 := by
        intro hall
        have hlength : (executeAtomic g userId trades d).1.results.length = trades.length := by
          simpa using congrArg List.length hreported.indices
        obtain ⟨r, hr⟩ := List.exists_mem_of_length_pos
          (hlength.symm ▸ List.length_pos_of_ne_nil hne : 0 < (executeAtomic g userId trades d).1.results.length)
        have := hall r hr
        rw [hfailed r hr] at this
        cases this
      exact ⟨iff_of_false hnotAtomic hnot, fun hall => absurd hall hnotAtomic, fun _ => ⟨hd, hfailed⟩, hreported,
        executeNonAtomic_reported⟩

end Responses

theorem numberedFrom_fresh (first : ℕ) {d : OrdersDb} (h : ∀ o ∈ d.orders.rows, o.id < first) :
    (numberedFrom first).Fresh d where
  injective := fun i j (hij : first + i = first + j) => by omega
  unused := fun i => Table.find_eq_none_iff.mpr fun o ho => by
    have hlt := h o ho
    simp only [numberedFrom]
    omega

/-- Ten units cover the first of two items, and not the second. -/
theorem atomic_iff_nonAtomic_two :
    (numberedFrom 0).Fresh sellerDb ∧ (numberedFrom 9).Fresh sellerDb ∧
      match validateAccess oneClient 1 [sellItem 6 none, sellItem 5 none] with
      | .error e =>
        executeBulkTrades oneClient (numberedFrom 0) 1 [sellItem 6 none, sellItem 5 none] true sellerDb =
            (.error e, sellerDb) ∧
          executeBulkTrades oneClient (numberedFrom 9) 1 [sellItem 6 none, sellItem 5 none] false sellerDb =
            (.error e, sellerDb)
      | .ok () => ∃ response d₁ response' d₂,
        executeBulkTrades oneClient (numberedFrom 0) 1 [sellItem 6 none, sellItem 5 none] true sellerDb =
            (.ok response, d₁) ∧
          executeBulkTrades oneClient (numberedFrom 9) 1 [sellItem 6 none, sellItem 5 none] false sellerDb =
            (.ok response', d₂) ∧
          (AllSucceeded response ↔ AllSucceeded response') ∧
          (AllSucceeded response → SameUpToStamps sellerDb d₁ d₂) ∧
          (¬ AllSucceeded response → d₁ = sellerDb ∧ AllFailed response) ∧
          Reported [sellItem 6 none, sellItem 5 none] response ∧
          Reported [sellItem 6 none, sellItem 5 none] response' := by
  have hempty : ∀ o ∈ sellerDb.orders.rows, ∀ n, o.id < n := by simp [sellerDb]
  have hfresh := numberedFrom_fresh 0 fun o ho => hempty o ho 0
  have hfresh' := numberedFrom_fresh 9 fun o ho => hempty o ho 9
  exact ⟨hfresh, hfresh', atomic_iff_nonAtomic oneClient (numberedFrom 0) (numberedFrom 9) 1
    [sellItem 6 none, sellItem 5 none] sellerDb hfresh hfresh'⟩

end Institutional
