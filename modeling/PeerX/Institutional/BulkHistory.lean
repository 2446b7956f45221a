import PeerX.Institutional.BulkAtomicity
import PeerX.Foundations.Runs

/-!
# Institutional clients: repeated submissions

Histories of bulk batches, of the requests of the order services, and of changes of the profiles.
The results of a batch name the orders it created under the `clientOrderId` of their items; no batch
reads an earlier result.
-/

namespace Institutional

open Relational Concurrency Orders

/-! ## The system -/

/-- An item that was reported as placed, with the order that was created for it. -/
structure Placement where
  userId : ℕ
  clientOrderId : Option ℤ
  orderId : ℕ
deriving DecidableEq

/-- The client and the `clientOrderId` of a placement that has one. -/
def Placement.key (p : Placement) : Option (ℕ × ℤ) := p.clientOrderId.map fun k => (p.userId, k)

/-- The tables, and the items that were reported as placed so far. -/
structure Desk where
  clients : Table InstitutionalClient.userId
  db : OrdersDb
  placements : List Placement

/-- A call to the bulk service, a request to the order services, or a change of a profile. -/
inductive DeskEvent : Type
  | bulk (g : Generated) (userId : ℕ) (trades : List BulkTradeItemDto) (atomic : Bool)
  | orders (e : Orders.Event)
  | profile (client : InstitutionalClient)

/-- The placements that a response reports. -/
def recorded (userId : ℕ) (results : List BulkTradeResult) : List Placement :=
  results.filterMap fun r => r.orderId.map fun id => ⟨userId, r.clientOrderId, id⟩

/-- The tables after an event. -/
def deskStep (s : Desk) : DeskEvent → Desk
  | .bulk g userId trades atomic =>
    let (response, db) := executeBulkTrades s.clients g userId trades atomic s.db
    match response with
    | .ok response => { s with db, placements := s.placements ++ recorded userId response.results }
    | .error _ => { s with db }
  | .orders e => { s with db := Orders.step s.db e }
  | .profile client => { s with clients := s.clients.save client }

/-! ## The items of a batch -/

section Items

variable (g : Generated) (userId : ℕ)

/-- The items that go through, each at its turn and with its index. -/
def itemsThrough : ℕ → List BulkTradeItemDto → OrdersDb → List (BulkTradeItemDto × ℕ)
  | _, [], _ => []
  | i, trade :: trades, d =>
    if GoesThrough d (g.id i) userId trade then
      (trade, i) :: itemsThrough (i + 1) trades (placed d (g.id i) (g.time i) userId trade)
    else itemsThrough (i + 1) trades d

/-- The tables after the given items have gone through. -/
def placeAll (items : List (BulkTradeItemDto × ℕ)) (d : OrdersDb) : OrdersDb :=
  items.foldl (fun d t => placed d (g.id t.2) (g.time t.2) userId t.1) d

/-- The placement of an item. -/
def placementOf (t : BulkTradeItemDto × ℕ) : Placement := ⟨userId, t.1.clientOrderId, g.id t.2⟩

/-- In an atomic batch, all rows carry the time at which the transaction began. -/
def Generated.atOnce (g : Generated) : Generated := { g with time := fun _ => g.time 0 }

/-- The times that the rows of a batch carry. -/
def Generated.stamped (g : Generated) (atomic : Bool) : Generated := if atomic then g.atOnce else g

/-- The items of a batch that are placed: in an atomic one, all of them or none. -/
def placedItems (trades : List BulkTradeItemDto) (atomic : Bool) (d : OrdersDb) : List (BulkTradeItemDto × ℕ) :=
  if atomic then
    if itemsThrough g.atOnce userId 0 trades d = trades.zipIdx then trades.zipIdx else []
  else itemsThrough g userId 0 trades d

variable {g userId} {d : OrdersDb} {i : ℕ} {trade : BulkTradeItemDto} {trades : List BulkTradeItemDto}

@[simp] theorem atOnce_id (g : Generated) : g.atOnce.id = g.id := rfl

@[simp] theorem atOnce_time (g : Generated) (i : ℕ) : g.atOnce.time i = g.time 0 := rfl

theorem itemsThrough_cons_of_goesThrough (h : GoesThrough d (g.id i) userId trade) :
    itemsThrough g userId i (trade :: trades) d =
      (trade, i) :: itemsThrough g userId (i + 1) trades (placed d (g.id i) (g.time i) userId trade) := by
  rw [itemsThrough, if_pos h]

theorem itemsThrough_cons_of_not (h : ¬ GoesThrough d (g.id i) userId trade) :
    itemsThrough g userId i (trade :: trades) d = itemsThrough g userId (i + 1) trades d := by
  rw [itemsThrough, if_neg h]

theorem length_itemsThrough_le (g : Generated) (userId i : ℕ) (trades : List BulkTradeItemDto) (d : OrdersDb) :
    (itemsThrough g userId i trades d).length ≤ trades.length := by
  induction trades generalizing i d with
  | nil => exact le_rfl
  | cons trade trades ih =>
    by_cases h : GoesThrough d (g.id i) userId trade
    · rw [itemsThrough_cons_of_goesThrough h]
      exact Nat.succ_le_succ (ih _ _)
    · rw [itemsThrough_cons_of_not h]
      exact (ih _ _).trans (Nat.le_succ _)

/-- A batch that is not atomic reports the items that go through, and leaves the tables with
them. -/
theorem eachAlone_ownItem (g : Generated) (userId i : ℕ) (trades : List BulkTradeItemDto) (d : OrdersDb) :
    recorded userId (List.zipWith (fun t outcome => resultOf t.2 t.1 outcome) (trades.zipIdx i)
        (Prog.eachAlone sql.handler (ownItem g userId) i trades d).1) =
      (itemsThrough g userId i trades d).map (placementOf g userId) ∧
    (Prog.eachAlone sql.handler (ownItem g userId) i trades d).2 =
      placeAll g userId (itemsThrough g userId i trades d) d := by
  induction trades generalizing i d with
  | nil => exact ⟨rfl, rfl⟩
  | cons trade trades ih =>
    rw [Prog.eachAlone_cons, List.zipIdx_cons, List.zipWith_cons_cons]
    rcases atomically_createOrderFromBulk d (g.id i) (g.time i) userId trade with ⟨hgo, hatom⟩ | ⟨hgo, e, hatom⟩
    · obtain ⟨hrecorded, hlast⟩ := ih (i + 1) (placed d (g.id i) (g.time i) userId trade)
      rw [itemsThrough_cons_of_goesThrough hgo]
      simp only [ownItem, hatom]
      constructor
      · rw [List.map_cons, ← hrecorded]
        rfl
      · exact hlast
    · obtain ⟨hrecorded, hlast⟩ := ih (i + 1) d
      rw [itemsThrough_cons_of_not hgo]
      simp only [ownItem, hatom]
      constructor
      · rw [← hrecorded]
        rfl
      · exact hlast

/-- The results of an atomic batch whose items all go through. -/
def atomicResults (g : Generated) (userId : ℕ) (items : List (BulkTradeItemDto × ℕ)) : List BulkTradeResult :=
  items.map fun t => placedResult t.2 t.1 (bulkOrder (g.id t.2) (g.time 0) userId t.1)

/-- An atomic batch succeeds when all its items go through. -/
theorem inTurn_atomicItem (h : itemsThrough g.atOnce userId i trades d = trades.zipIdx i) :
    (Prog.inTurn (atomicItem g userId) i trades).eval sql.handler d =
      (.ok (atomicResults g userId (trades.zipIdx i)), placeAll g.atOnce userId (trades.zipIdx i) d) := by
  induction trades generalizing i d with
  | nil => rfl
  | cons trade trades ih =>
    by_cases hgo : GoesThrough d (g.id i) userId trade
    · rw [itemsThrough_cons_of_goesThrough (g := g.atOnce) hgo, List.zipIdx_cons] at h
      simp only [atOnce_id, atOnce_time] at h
      have hrest := ih (List.cons.inj h).2
      rw [Prog.inTurn, Prog.eval_bind, atomicItem_placed hgo]
      simp only [Prog.eval_bind]
      rw [hrest]
      rfl
    · rw [itemsThrough_cons_of_not (g := g.atOnce) hgo] at h
      have hle := length_itemsThrough_le g.atOnce userId (i + 1) trades d
      rw [h] at hle
      simp at hle

/-- An atomic batch fails when an item of it does not go through. -/
theorem inTurn_atomicItem_refused (h : itemsThrough g.atOnce userId i trades d ≠ trades.zipIdx i) :
    ∃ e, ((Prog.inTurn (atomicItem g userId) i trades).eval sql.handler d).1 = .error e := by
  induction trades generalizing i d with
  | nil => exact absurd rfl h
  | cons trade trades ih =>
    by_cases hgo : GoesThrough d (g.id i) userId trade
    · rw [itemsThrough_cons_of_goesThrough (g := g.atOnce) hgo, List.zipIdx_cons] at h
      simp only [atOnce_id, atOnce_time] at h
      obtain ⟨e, he⟩ := ih fun heq => h (congrArg _ heq)
      refine ⟨e, ?_⟩
      rw [Prog.inTurn, Prog.eval_bind, atomicItem_placed hgo]
      simp only [Prog.eval_bind]
      rcases hr : (Prog.inTurn (atomicItem g userId) (i + 1) trades).eval sql.handler
        (placed d (g.id i) (g.time 0) userId trade) with ⟨e' | rs, d'⟩
      · simpa [hr] using he
      · rw [hr] at he
        cases he
    · obtain ⟨e, he⟩ := atomicItem_refused hgo
      refine ⟨e, ?_⟩
      rw [Prog.inTurn, Prog.eval_bind]
      rcases hr : (atomicItem g userId i trade).eval sql.handler d with ⟨e' | r, d'⟩
      · simpa [hr] using he
      · rw [hr] at he
        cases he

/-- An executed batch reports the items that are placed, and leaves the tables with them. -/
theorem executeBulkTrades_recorded {clients : Table InstitutionalClient.userId} (atomic : Bool)
    (h : validateAccess clients userId trades = .ok ()) :
    ∃ response, executeBulkTrades clients g userId trades atomic d =
        (.ok response, placeAll (g.stamped atomic) userId (placedItems g userId trades atomic d) d) ∧
      recorded userId response.results = (placedItems g userId trades atomic d).map (placementOf g userId) := by
  simp only [executeBulkTrades, h]
  cases atomic with
  | false =>
    obtain ⟨hrecorded, hlast⟩ := eachAlone_ownItem g userId 0 trades d
    exact ⟨_, Prod.ext rfl hlast, hrecorded⟩
  | true =>
    by_cases hall : itemsThrough g.atOnce userId 0 trades d = trades.zipIdx
    · have hatomic : executeAtomic g userId trades d = (respond g.batchId trades
          (atomicResults g userId trades.zipIdx), placeAll g.atOnce userId trades.zipIdx d) := by
        simp [executeAtomic, Prog.atomically, inTurn_atomicItem hall]
      rw [if_pos rfl, hatomic, placedItems, if_pos rfl, if_pos hall]
      refine ⟨_, rfl, ?_⟩
      simp [recorded, respond, atomicResults, List.filterMap_map, placedResult, placementOf, bulkOrder]
    · obtain ⟨e, he⟩ := inTurn_atomicItem_refused hall
      rw [if_pos rfl, placedItems, if_pos rfl, if_neg hall]
      rcases Prog.atomically_cases sql.handler (Prog.inTurn (atomicItem g userId) 0 trades) d with
        ⟨results, d', hok, -⟩ | ⟨e', -, hatom⟩
      · simp [hok] at he
      · refine ⟨(executeAtomic g userId trades d).1, by simp [executeAtomic, hatom, placeAll], ?_⟩
        simp [executeAtomic, hatom, recorded, List.filterMap_map, failedResult]

end Items

/-! ## What a batch leaves -/

section Accounts

variable {g : Generated} {userId : ℕ} {d : OrdersDb}

/-- The order of an item. -/
def orderOf (g : Generated) (userId : ℕ) (t : BulkTradeItemDto × ℕ) : Order :=
  bulkOrder (g.id t.2) (g.time t.2) userId t.1

/-- The locked balance under a key. -/
def lockedAt (d : OrdersDb) (key : ℕ × ℕ) : ℚ := ((d.balances.find key).map UserBalance.lockedBalance).getD 0

/-- What an order locks under a key. -/
def lockOf (key : ℕ × ℕ) (o : Order) : ℚ := if o.side = .sell ∧ key = (o.userId, o.assetId) then o.amount else 0

/-- An item that goes through locks what its order locks. -/
theorem lockedAt_placed {id : ℕ} {now : ℤ} {dto : BulkTradeItemDto} (h : GoesThrough d id userId dto)
    (key : ℕ × ℕ) :
    lockedAt (placed d id now userId dto) key = lockedAt d key + lockOf key (bulkOrder id now userId dto) := by
  rcases dto.side.buy_or_sell with hside | hside
  · simp [lockedAt, lockOf, bulkOrder, reserve, hside]
  · obtain ⟨b, hb, -⟩ := h.covered hside
    have hfind : d.balances.find (userId, dto.assetId) = some b := hb
    have hkey : b.key = (userId, dto.assetId) := Table.key_of_find hfind
    have hlock : (b.lock dto.amount).key = (userId, dto.assetId) := hkey
    simp only [lockedAt, placed_balances, reserve, hside, hfind, Table.find_save, hlock, lockOf, bulkOrder, true_and]
    by_cases hsame : key = (userId, dto.assetId)
    · subst hsame
      simp [hfind, UserBalance.lock]
    · simp [hsame]

/-- The items that go through add their orders to the rows, and lock their amounts. -/
theorem placeAll_itemsThrough (g : Generated) (userId : ℕ) (d : OrdersDb) (i : ℕ)
    (trades : List BulkTradeItemDto) :
    (placeAll g userId (itemsThrough g userId i trades d) d).orders.rows =
        d.orders.rows ++ (itemsThrough g userId i trades d).map (orderOf g userId) ∧
      ∀ key, lockedAt (placeAll g userId (itemsThrough g userId i trades d) d) key =
        lockedAt d key + (((itemsThrough g userId i trades d).map (orderOf g userId)).map (lockOf key)).sum := by
  induction trades generalizing i d with
  | nil => simp [itemsThrough, placeAll]
  | cons trade trades ih =>
    by_cases hgo : GoesThrough d (g.id i) userId trade
    · obtain ⟨hrows, hlocked⟩ := ih (placed d (g.id i) (g.time i) userId trade) (i + 1)
      rw [itemsThrough_cons_of_goesThrough hgo]
      constructor
      · refine hrows.trans ?_
        rw [placed_orders, Table.rows_save_new (r := bulkOrder (g.id i) (g.time i) userId trade) hgo.unused]
        simp [orderOf]
      · intro key
        refine (hlocked key).trans ?_
        rw [lockedAt_placed hgo key]
        simp only [List.map_cons, List.sum_cons, orderOf]
        ring
    · rw [itemsThrough_cons_of_not hgo]
      exact ih d (i + 1)

/-- The items of a batch that are placed, in either mode. -/
theorem placeAll_placedItems (g : Generated) (userId : ℕ) (d : OrdersDb) (trades : List BulkTradeItemDto)
    (atomic : Bool) :
    let items := placedItems g userId trades atomic d
    let os := items.map (orderOf (g.stamped atomic) userId)
    (placeAll (g.stamped atomic) userId items d).orders.rows = d.orders.rows ++ os ∧
      ∀ key, lockedAt (placeAll (g.stamped atomic) userId items d) key =
        lockedAt d key + (os.map (lockOf key)).sum := by
  cases atomic with
  | false => exact placeAll_itemsThrough g userId d 0 trades
  | true =>
    have hthrough := placeAll_itemsThrough g.atOnce userId d 0 trades
    by_cases hall : itemsThrough g.atOnce userId 0 trades d = trades.zipIdx
    · rw [hall] at hthrough
      simpa [placedItems, hall, Generated.stamped] using hthrough
    · simp [placedItems, hall, placeAll]

end Accounts

/-! ## Histories -/

/-- A batch creates the orders that it reports, locks their amounts, and nothing else; the other
events report nothing. -/
def Accounted (s : Desk) : DeskEvent → Prop
  | .bulk g userId trades atomic =>
    let s' := deskStep s (.bulk g userId trades atomic)
    ∃ (os : List Order) (new : List Placement), os.map (·.id) = new.map (·.orderId) ∧
      s'.placements = s.placements ++ new ∧ s'.db.orders.rows = s.db.orders.rows ++ os ∧
      ∀ key, lockedAt s'.db key = lockedAt s.db key + (os.map (lockOf key)).sum
  | e => (deskStep s e).placements = s.placements

/-- No client has two orders under one `clientOrderId`. -/
def Idempotent (s : Desk) : Prop := (s.placements.filterMap Placement.key).Nodup

/-- No repetition: the items of an executed batch that are placed have distinct
`clientOrderId`s, none of which has succeeded for the client. -/
def NoRepeat (s : Desk) : DeskEvent → Prop
  | .bulk g userId trades atomic =>
    validateAccess s.clients userId trades = .ok () →
      let ids := (placedItems g userId trades atomic s.db).filterMap fun t => t.1.clientOrderId
      ids.Nodup ∧ ∀ k ∈ ids, (userId, k) ∉ s.placements.filterMap Placement.key
  | _ => True

section Histories

variable {s : Desk} {g : Generated} {userId : ℕ} {trades : List BulkTradeItemDto} {atomic : Bool}

theorem deskStep_bulk (h : validateAccess s.clients userId trades = .ok ()) :
    deskStep s (.bulk g userId trades atomic) =
      { s with
        db := placeAll (g.stamped atomic) userId (placedItems g userId trades atomic s.db) s.db
        placements := s.placements ++
          (placedItems g userId trades atomic s.db).map (placementOf g userId) } := by
  obtain ⟨response, hexecuted, hrecorded⟩ := executeBulkTrades_recorded (g := g) (d := s.db) atomic h
  simp only [deskStep, hexecuted, hrecorded]

theorem deskStep_bulk_refused {e : BulkError} (h : validateAccess s.clients userId trades = .error e) :
    deskStep s (.bulk g userId trades atomic) = s := by
  simp [deskStep, executeBulkTrades, h]

theorem accounted (s : Desk) (e : DeskEvent) : Accounted s e := by
  cases e with
  | orders e => rfl
  | profile client => rfl
  | bulk g userId trades atomic =>
    cases h : validateAccess s.clients userId trades with
    | error e =>
      simp only [Accounted, deskStep_bulk_refused h]
      exact ⟨[], [], rfl, by simp, by simp, by simp⟩
    | ok =>
      obtain ⟨hrows, hlocked⟩ := placeAll_placedItems g userId s.db trades atomic
      simp only [Accounted, deskStep_bulk h]
      refine ⟨_, _, ?_, rfl, hrows, hlocked⟩
      rw [List.map_map, List.map_map]
      refine List.map_congr_left fun t _ => ?_
      cases atomic <;> rfl

theorem keys_placements (items : List (BulkTradeItemDto × ℕ)) :
    (items.map (placementOf g userId)).filterMap Placement.key =
      (items.filterMap fun t => t.1.clientOrderId).map fun k => (userId, k) := by
  rw [List.filterMap_map, List.map_filterMap]
  rfl

/-- A step keeps the history idempotent exactly when it repeats nothing. -/
theorem idempotent_step_iff (hs : Idempotent s) (e : DeskEvent) : Idempotent (deskStep s e) ↔ NoRepeat s e := by
  cases e with
  | orders e => exact iff_of_true hs trivial
  | profile client => exact iff_of_true hs trivial
  | bulk g userId trades atomic =>
    cases h : validateAccess s.clients userId trades with
    | error e =>
      rw [deskStep_bulk_refused h]
      refine iff_of_true hs fun hok => ?_
      rw [h] at hok
      cases hok
    | ok =>
      have hinj : Function.Injective fun k : ℤ => (userId, k) := fun k k' hk => (Prod.mk.inj hk).2
      unfold Idempotent
      simp only [deskStep_bulk h, NoRepeat, h, true_imp_iff]
      rw [List.filterMap_append, keys_placements, List.nodup_append, List.nodup_map_iff hinj]
      constructor
      · rintro ⟨-, hdistinct, hnew⟩
        exact ⟨hdistinct, fun k hk hmem => hnew _ hmem _ (List.mem_map_of_mem hk) rfl⟩
      · rintro ⟨hdistinct, hnew⟩
        refine ⟨hs, hdistinct, ?_⟩
        rintro key hkey key' hkey' rfl
        obtain ⟨k, hk, rfl⟩ := List.mem_map.mp hkey'
        exact hnew k hk hkey

end Histories

/-- **Repeated submissions.** In every history, a batch creates the orders it reports and locks
their amounts, and no client has two orders under one `clientOrderId` in any state exactly when no
batch places an item whose `clientOrderId` has succeeded for the client, or two items with the same
one. -/
theorem submissions_iff (clients : Table InstitutionalClient.userId) (db : OrdersDb) (es : List DeskEvent) :
    Along deskStep Accounted ⟨clients, db, []⟩ es ∧
      (Throughout deskStep Idempotent ⟨clients, db, []⟩ es ↔ Along deskStep NoRepeat ⟨clients, db, []⟩ es) := by
  have hstart : Idempotent ⟨clients, db, []⟩ := List.nodup_nil
  refine ⟨?_, throughout_iff_along (I := fun _ => True) (fun _ _ _ => trivial)
    (fun s e _ hs => idempotent_step_iff hs e) trivial hstart⟩
  exact along_of_forall accounted _ es

/-- A SELL item that is submitted twice under one `clientOrderId` gets two orders, and its amount is
locked twice. -/
theorem submitted_twice :
    let es : List DeskEvent := [.bulk (numberedFrom 1) 1 [sellItem 4 (some 7)] false,
      .bulk (numberedFrom 5) 1 [sellItem 4 (some 7)] true]
    let s := run deskStep ⟨oneClient, sellerDb, []⟩ es
    ¬ Idempotent s ∧ (s.db.orders.rows.map fun o => o.id) = [1, 5] ∧ lockedAt s.db (1, 1) = 8 := by
  unfold Idempotent
  decide +kernel

end Institutional
