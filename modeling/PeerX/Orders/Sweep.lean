import PeerX.Orders.Invariants
import PeerX.Orders.Sessions

/-!
# Orders: the stop sweep between other requests

`sweep` loads the dormant orders and their prices outside any transaction and processes the orders
one after the other, while other sessions place, cancel and modify orders and other sweeps run. It
triggers an order in a transaction that reads the order again under its lock. A moved reference
price it saves without a lock, with every column as loaded; but only a stored reference price can
move, and no order is given one, so that save is never reached.
-/

namespace Orders

open Relational Concurrency

/-- One dormant order of the sweep. The save is outside any transaction, and writes the order as it
was loaded. -/
def processOrder (fuel : ℕ) (now : ℤ) (order : Order) (currentPrice : ℚ) :
    OrdersSession Unit Unit := do
  match stopAction order currentPrice with
  | .trigger =>
    let _ ← transaction (fun _ => ()) (trigger fuel now order.id)
    return ()
  | .ratchet reference => bare (.saveOrder { order with trailingReferencePrice := some reference })
  | .idle => return ()

/-- The loop of the sweep over the dormant orders. A failure is logged, and the loop goes on. -/
def sweepLoop (fuel : ℕ) (now : ℕ → ℤ) (assets : List VirtualAsset) :
    List Order → OrdersSession Unit Unit
  | [] => return ()
  | order :: dormant => do
    match assets.find? (·.id = order.assetId) with
    | none => sweepLoop fuel now assets dormant
    | some asset =>
      tryCatch (processOrder fuel (now order.id) order asset.price) fun _ => return ()
      sweepLoop fuel now assets dormant

/-- `StopOrderMonitorService.sweep`. The order `id` is processed at the time `now id`. -/
def sweep (fuel : ℕ) (now : ℕ → ℤ) : OrdersSession Unit Unit := do
  let dormant : List Order ← bare .findDormant
  if dormant.isEmpty then
    return ()
  let assets ← bare (.findAssets (dormant.map Order.assetId).dedup)
  sweepLoop fuel now assets dormant

/-- A call of the order services: a request, or a sweep. -/
inductive Call : Type
  | place (now : ℤ) (id userId : ℕ) (dto : CreateOrderDto) (valid : dto.Valid)
  | cancel (now : ℤ) (userId orderId : ℕ)
  | modify (now : ℤ) (userId : ℕ) (dto : ModifyOrderDto)
  | sweep (now : ℕ → ℤ)

/-- A request is one transaction. -/
def request {α : Type} (p : Tx α) : OrdersSession Unit Unit := do
  let _ ← transaction (fun _ => ()) p
  return ()

def Call.session (fuel : ℕ) : Call → OrdersSession Unit Unit
  | .place now id userId dto _ => request (placeOrder fuel id now userId dto)
  | .cancel now userId orderId => request (cancelOrder now userId orderId)
  | .modify now userId dto => request (modifyOrder fuel now userId dto)
  | .sweep now => Orders.sweep fuel now

/-- The configurations of the calls. -/
abbrev Serving (ι : Type) := Clients Stmt.Reply OrdersDb Write RowKey Unit OrderError Unit ι

/-- Any number of calls at the same time, before their first statement. -/
def serving {ι : Type} (fuel : ℕ) (calls : ι → Call) (d₀ : OrdersDb) : Serving ι :=
  ⟨Server.idle d₀, fun i => (calls i).session fuel⟩

/-- Status CANCELLED or FILLED. -/
def Order.Final (o : Order) : Prop := o.status = .cancelled ∨ o.status = .filled

instance (o : Order) : Decidable o.Final := inferInstanceAs (Decidable (_ ∨ _))

/-- The call asks for the amount. -/
def Call.Asks (call : Call) (orderId : ℕ) (amount : ℚ) : Prop :=
  match call with
  | .modify _ _ dto => dto.orderId = orderId ∧ dto.amount = some amount
  | _ => False

/-- An order that is not overfilled, with no reference price. -/
structure Order.Unreferenced (o : Order) : Prop where
  filled_le : o.filledAmount ≤ o.amount
  reference : o.trailingReferencePrice = none

/-- What a call may do to an order: it leaves a final status alone, takes back no fill, and
changes the amount when it was asked to. -/
structure Advances (call : Call) (a b : Order) : Prop where
  id : b.id = a.id
  final : a.Final → b.status = a.status
  filled : a.filledAmount ≤ b.filledAmount
  amount : b.amount = a.amount ∨ call.Asks a.id b.amount
  unreferenced : a.Unreferenced → b.Unreferenced

theorem Advances.refl (call : Call) (a : Order) : Advances call a a :=
  ⟨rfl, fun _ => rfl, le_rfl, .inl rfl, fun h => h⟩

theorem Advances.trans {call : Call} {a b c : Order} (h : Advances call a b)
    (h' : Advances call b c) : Advances call a c where
  id := h'.id.trans h.id
  final := by
    intro ha
    have hb : b.Final := by
      unfold Order.Final
      rw [h.final ha]
      exact ha
    exact (h'.final hb).trans (h.final ha)
  filled := h.filled.trans h'.filled
  amount := by
    rcases h'.amount with hc | hc
    · rw [hc]
      exact h.amount
    · exact .inr (h.id ▸ hc)
  unreferenced := fun ha => h'.unreferenced (h.unreferenced ha)

theorem Order.Open.not_final {o : Order} (h : o.Open) : ¬ o.Final := by
  rintro (hc | hc) <;> rcases h with h | h <;> rw [h] at hc <;> cases hc

theorem Advances.applyFill (call : Call) {o : Order} {a : ℚ} (now : ℤ) (p : ℚ) (hopen : o.Open)
    (ha : 0 ≤ a) (hle : a ≤ o.remainingAmount) : Advances call o (applyFill now o a p) where
  id := applyFill_id ..
  final := fun hf => absurd hf hopen.not_final
  filled := by
    rw [applyFill_filledAmount]
    exact le_add_of_nonneg_right ha
  amount := .inl (applyFill_amount ..)
  unreferenced := by
    intro h
    refine ⟨?_, by rw [applyFill_trailingReferencePrice]; exact h.reference⟩
    rw [applyFill_filledAmount, applyFill_amount]
    unfold Order.remainingAmount at hle
    linarith

/-- The policy of the calls. -/
def callPolicy {ι : Type} (calls : ι → Call) : RowPolicy ι where
  ok := Order.Unreferenced
  new := fun _ o => o.Unreferenced
  rel := fun i => Advances (calls i)
  refl := fun i => .refl (calls i)
  trans := Advances.trans
  new_trans := fun h hr => hr.unreferenced h
  ok_new := id
  ok_rel := fun hr h => hr.unreferenced h
  filled_le := Order.Unreferenced.filled_le
  fill := fun {i _ _} now p _ hopen ha hle _ => .applyFill (calls i) now p hopen ha hle

/-- Without a stored reference price no reference price moves. -/
theorem stopAction_ne_ratchet {order : Order} (h : order.trailingReferencePrice = none)
    (currentPrice reference : ℚ) : stopAction order currentPrice ≠ .ratchet reference := by
  unfold stopAction processTrailingStop processFixedStop
  rw [h]
  rcases order.side.buy_or_sell with hside | hside
  all_goals
    simp only [hside, Option.getD_none, lt_irrefl, if_false]
    split_ifs <;> simp

section Safety

variable {ι : Type} [DecidableEq ι] {calls : ι → Call} {i : ι} {s : OrdersServer Unit ι}

theorem safe_request {α : Type} {p : Tx α} (hp : StmtSafe (callPolicy calls) i Anyway p s) :
    SessionSafe (callPolicy calls) i (request p) s :=
  Protocol.safe_bind (Protocol.safe_mono (fun o _ _ => by cases o <;> trivial) (safe_session hp))

theorem advances_asCancelled (call : Call) (now : ℤ) {o : Order} (hf : o.status ≠ .filled)
    (hc : o.status ≠ .cancelled) : Advances call o (o.asCancelled now) :=
  ⟨rfl, fun h => absurd h (not_or.mpr ⟨hc, hf⟩), le_rfl, .inl rfl,
    fun h => ⟨h.filled_le, h.reference⟩⟩

theorem advances_amendedBy (now : ℤ) {userId : ℕ} {dto : ModifyOrderDto} {o : Order}
    (hadm : Admits o userId dto) : Advances (.modify now userId dto) o (o.amendedBy dto) where
  id := rfl
  final := fun _ => rfl
  filled := le_rfl
  amount := by
    cases ha : dto.amount with
    | none => exact .inl (by simp [Order.amendedBy, ha])
    | some a => exact .inr ⟨hadm.id.symm, by simp [Order.amendedBy, ha]⟩
  unreferenced := by
    intro h
    refine ⟨?_, h.reference⟩
    show o.filledAmount ≤ dto.amount.getD o.amount
    cases ha : dto.amount with
    | none => exact h.filled_le
    | some a => exact hadm.amount a ha

theorem advances_status (call : Call) (o : Order) (status : OrderStatus) (now : ℤ)
    (h : ¬ o.Final) : Advances call o { o with status := status, triggeredAt := some now } :=
  ⟨rfl, fun hf => absurd hf h, le_rfl, .inl rfl, fun h => ⟨h.filled_le, h.reference⟩⟩

/-- One dormant order: it is triggered, or left alone. -/
theorem safe_processOrder {fuel : ℕ} {now : ℤ} {order : Order} {currentPrice : ℚ}
    (h : order.trailingReferencePrice = none) :
    SessionSafe (callPolicy calls) i (processOrder fuel now order currentPrice) s := by
  unfold processOrder
  cases haction : stopAction order currentPrice with
  | trigger =>
    refine safe_request (safe_trigger ?_ ?_)
    · exact fun o _ ho => advances_status _ o _ _ (Order.Open.not_final (.inl ho))
    · intro o _ _
      exact advances_status _ { o with status := .triggered, triggeredAt := some now } _ _
        (by simp [Order.Final])
  | ratchet reference => exact absurd haction (stopAction_ne_ratchet h _ _)
  | idle => trivial

theorem safe_sweepLoop {fuel : ℕ} {now : ℕ → ℤ} {assets : List VirtualAsset} {dormant : List Order}
    (h : ∀ o ∈ dormant, o.trailingReferencePrice = none) :
    SessionSafe (callPolicy calls) i (sweepLoop fuel now assets dormant) s := by
  induction dormant generalizing s with
  | nil => trivial
  | cons order dormant ih =>
    have hrest : ∀ s, SessionSafe (callPolicy calls) i (sweepLoop fuel now assets dormant) s :=
      fun s => ih fun o ho => h o (List.mem_cons_of_mem _ ho)
    simp only [sweepLoop]
    cases assets.find? (·.id = order.assetId) with
    | none => exact hrest s
    | some asset =>
      refine Protocol.safe_bind (Protocol.safe_tryCatch (Protocol.safe_mono (fun o s' _ => ?_)
        (safe_processOrder (h order List.mem_cons_self))))
      rcases o with e | u
      · exact hrest s'
      · exact hrest s'

/-- A sweep follows the policy. -/
theorem safe_sweep {fuel : ℕ} {now : ℕ → ℤ} :
    SessionSafe (callPolicy calls) i (sweep fuel now) s := by
  refine Protocol.safe_bind (safe_read (fun _ => rfl) fun s₁ hinv => ?_)
  have hdormant : ∀ o ∈ dormantOrders s₁.committed.orders, o.trailingReferencePrice = none :=
    fun o ho => (hinv.committed o (List.mem_of_mem_filter ho)).reference
  show SessionSafe (callPolicy calls) i (if (dormantOrders s₁.committed.orders).isEmpty then _ else _) s₁
  split
  · trivial
  · exact Protocol.safe_bind (safe_read (fun _ => rfl) fun s₂ _ => safe_sweepLoop hdormant)

/-- Every call follows the policy. -/
theorem Call.safe (fuel : ℕ) : SessionSafe (callPolicy calls) i ((calls i).session fuel) s := by
  cases hcall : calls i with
  | place now id userId dto valid =>
    refine safe_request (safe_placeOrder ?_)
    exact ⟨valid.amount_pos.le, rfl⟩
  | cancel now userId orderId =>
    exact safe_request (safe_cancelOrder fun o _ _ _ => advances_asCancelled _ now)
  | modify now userId dto =>
    refine safe_request (safe_modifyOrder fun o _ hadm => ?_)
    show Advances (calls i) o _
    rw [hcall]
    exact advances_amendedBy now hadm
  | sweep now => exact safe_sweep

end Safety

section Runs

variable {ι : Type} [DecidableEq ι] {calls : ι → Call} {fuel : ℕ} {d₀ : OrdersDb}

/-- What a stretch of a run did to an order. -/
structure Progressed (calls : ι → Call) (is : List ι) (r o : Order) : Prop where
  id : o.id = r.id
  final : r.Final → o.status = r.status
  filled : r.filledAmount ≤ o.filledAmount
  amount : o.amount = r.amount ∨ ∃ i ∈ is, (calls i).Asks r.id o.amount

theorem allSafe_serving (hd : ∀ o ∈ d₀.orders.rows, o.Unreferenced) :
    Protocol.AllSafe (rowProtocol (callPolicy calls)) (sql.machine Unit ι) (fun _ => Anyway)
      (serving fuel calls d₀) :=
  ⟨rowInv_idle hd, fun _ => Call.safe fuel⟩

/-- A stretch of a run takes every order forward. -/
theorem progressed_run {c c' : Serving ι} {is : List ι}
    (h : Protocol.AllSafe (rowProtocol (callPolicy calls)) (sql.machine Unit ι) (fun _ => Anyway) c)
    (hr : c.run (sql.machine Unit ι) is = some c') {r : Order}
    (hmem : r ∈ c.shared.committed.orders.rows) :
    ∃ o ∈ c'.shared.committed.orders.rows, Progressed calls is r o := by
  induction is generalizing c r with
  | nil =>
    obtain rfl : c = c' := Option.some.inj hr
    exact ⟨r, hmem, rfl, fun _ => rfl, le_rfl, .inl rfl⟩
  | cons i is ih =>
    obtain ⟨c₁, hs, hr⟩ := Config.run_cons_eq_some.mp hr
    obtain ⟨h₁, -, hguar⟩ := h.step (fun _ _ _ _ _ _ => trivial) hs
    obtain ⟨o₁, hfind, hadv⟩ := hguar r.id r (Table.find_of_mem hmem)
    replace hadv : Advances (calls i) r o₁ := hadv
    obtain ⟨o, ho, hprog⟩ := ih h₁ hr (Table.mem_of_find hfind)
    refine ⟨o, ho, hprog.id.trans hadv.id, fun hf => ?_, hadv.filled.trans hprog.filled, ?_⟩
    · have hf₁ : o₁.Final := by
        unfold Order.Final
        rw [hadv.final hf]
        exact hf
      exact (hprog.final hf₁).trans (hadv.final hf)
    · rcases hprog.amount with he | ⟨j, hj, hasks⟩
      · rw [he]
        exact hadv.amount.imp_right fun hasks => ⟨i, List.mem_cons_self, hasks⟩
      · exact .inr ⟨j, List.mem_cons_of_mem _ hj, hadv.id ▸ hasks⟩

/-- **Nothing is reverted**: from any state of a run of any number of calls to any later one, an
order that is CANCELLED or FILLED keeps its status, no order loses a fill, and an amount changes
only to what an amendment on the way asked for. -/
theorem orders_never_reverted (hd : ∀ o ∈ d₀.orders.rows, o.Unreferenced) {is is' : List ι}
    {c c' : Serving ι} (hr : (serving fuel calls d₀).run (sql.machine Unit ι) is = some c)
    (hr' : c.run (sql.machine Unit ι) is' = some c') :
    ∀ r ∈ c.shared.committed.orders.rows, ∃ o ∈ c'.shared.committed.orders.rows, o.id = r.id ∧
      (r.status = .cancelled ∨ r.status = .filled → o.status = r.status) ∧
      r.filledAmount ≤ o.filledAmount ∧
      (o.amount = r.amount ∨ ∃ i ∈ is', (calls i).Asks r.id o.amount) := by
  intro r hmem
  have hstart : Protocol.AllSafe (rowProtocol (callPolicy calls)) (sql.machine Unit ι)
      (fun _ => Anyway) (serving fuel calls d₀) := allSafe_serving hd
  have hsafe := Protocol.run_safe (fun _ _ _ _ _ _ => trivial) hstart hr
  obtain ⟨o, ho, hprog⟩ := progressed_run hsafe hr' hmem
  exact ⟨o, ho, hprog.id, hprog.final, hprog.filled, hprog.amount⟩

end Runs

/-- User 1 sells ten units of asset 1 with a trailing stop of five percent, cancels the order, and a
sweep runs. -/
def cancelledStop : Fin 3 → Call
  | 0 => .place 0 1 1 ⟨1, .sell, .trailingStop, 10, none, none, some 5, none⟩
      { amount_pos := by norm_num
        price_pos := by intro h; cases h
        stopPrice_pos := by rintro (h | h) <;> cases h
        trailingDelta_min := fun _ => ⟨5, rfl, by norm_num⟩ }
  | 1 => .cancel 1 1 1
  | 2 => .sweep fun _ => 2

/-- Ten units of asset 1 held by user 1, at the price 100. -/
def pricedDb : OrdersDb := { sellerDb with assets := [⟨1, 100⟩] }

/-- The sweep loads the order, the order is cancelled, and the sweep processes what it loaded. -/
theorem orders_never_reverted_cancelled :
    ∃ c c', (serving 3 cancelledStop pricedDb).run (sql.machine Unit (Fin 3))
        [0, 0, 0, 0, 2, 1, 1, 1, 1, 1] = some c ∧
      c.run (sql.machine Unit (Fin 3)) [2] = some c' ∧
      ∀ r ∈ c.shared.committed.orders.rows, ∃ o ∈ c'.shared.committed.orders.rows, o.id = r.id ∧
        (r.status = .cancelled ∨ r.status = .filled → o.status = r.status) ∧
        r.filledAmount ≤ o.filledAmount ∧
        (o.amount = r.amount ∨ ∃ i ∈ [2], (cancelledStop i).Asks r.id o.amount) := by
  have hrun : ((serving 3 cancelledStop pricedDb).run (sql.machine Unit (Fin 3))
      [0, 0, 0, 0, 2, 1, 1, 1, 1, 1]).any fun c =>
        (c.run (sql.machine Unit (Fin 3)) [2]).any fun c' => (c'.threads 2).returned := by
    decide +kernel
  obtain ⟨c, hc, hrest⟩ := (Option.any_eq_true _ _).mp hrun
  obtain ⟨c', hc', -⟩ := (Option.any_eq_true _ _).mp hrest
  exact ⟨c, c', hc, hc', orders_never_reverted (fun o ho => by cases ho) hc hc'⟩

end Orders
