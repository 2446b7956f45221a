import PeerX.Orders.Changes

/-!
# Orders: what holds of every stored order

In every reachable state, an order is filled up to at most its amount, its status is one of
PENDING, PARTIAL, FILLED and CANCELLED, a FILLED order is filled to its amount, and a LIMIT order
has a price. The converse of the third is not among them: an amendment can lower the amount of an
open order to what is already filled, and leaves its status alone.

## Main results

* `sound_run`: every stored order is sound, in every state of every run
* `exact_step`: amounts and prices that doubles and columns hold exactly stay so
* `unfinished_step`: no order is exhausted without being FILLED, as long as no amendment exhausts
  one
-/

namespace Orders

open Relational Concurrency Arithmetic

structure Order.Sound (o : Order) : Prop where
  filled_nonneg : 0 ≤ o.filledAmount
  filled_le : o.filledAmount ≤ o.amount
  status : o.Open ∨ o.status = .filled ∨ o.status = .cancelled
  filled_eq : o.status = .filled → o.filledAmount = o.amount
  price : o.type = .limit → o.price.isSome

theorem Order.Sound.remaining_nonneg {o : Order} (h : o.Sound) : 0 ≤ o.remainingAmount :=
  sub_nonneg.mpr h.filled_le

/-- Every stored order is sound. -/
def SoundRows (d : OrdersDb) : Prop := ∀ o ∈ d.orders.rows, o.Sound

theorem Initial.sound {d : OrdersDb} (h : Initial d) : SoundRows d := by
  intro o ho
  rw [h.orders] at ho
  cases ho

theorem fillAmount_nonneg {taker maker : Order} (ht : taker.Sound) (hm : maker.Sound) :
    0 ≤ fillAmount taker maker :=
  le_min ht.remaining_nonneg hm.remaining_nonneg

theorem fillAmount_le_taker (taker maker : Order) :
    fillAmount taker maker ≤ taker.remainingAmount := min_le_left _ _

theorem fillAmount_le_maker (taker maker : Order) :
    fillAmount taker maker ≤ maker.remainingAmount := min_le_right _ _

/-- A fill of at most the remainder keeps an order sound. -/
theorem Order.Sound.applyFill {o : Order} (h : o.Sound) {now : ℤ} {a p : ℚ} (ha : 0 ≤ a)
    (hle : a ≤ o.remainingAmount) : (applyFill now o a p).Sound := by
  have hle' : o.filledAmount + a ≤ o.amount := by
    unfold Order.remainingAmount at hle
    linarith
  refine ⟨?_, ?_, ?_, ?_, ?_⟩
  · rw [applyFill_filledAmount]
    exact add_nonneg h.filled_nonneg ha
  · rw [applyFill_filledAmount, applyFill_amount]
    exact hle'
  · unfold Order.Open
    rw [applyFill_status]
    split <;> simp
  · -- FILLED is set when the amount is reached, and it is never passed
    intro hstatus
    rw [applyFill_status] at hstatus
    split at hstatus
    · next hge =>
      rw [applyFill_filledAmount, applyFill_amount]
      exact le_antisymm hle' hge
    · cases hstatus
  · rw [applyFill_type, applyFill_price]
    exact h.price

theorem Order.Fresh.sound {o : Order} (h : o.Fresh) : o.Sound where
  filled_nonneg := h.filledAmount.ge
  filled_le := h.filledAmount ▸ h.amount_pos.le
  status := .inl (.inl h.status)
  filled_eq := fun hf => by rw [h.status] at hf; cases hf
  price := h.price

theorem Order.Sound.amendedBy {o : Order} (h : o.Sound) {userId : ℕ} {dto : ModifyOrderDto}
    (hadm : Admits o userId dto) : (o.amendedBy dto).Sound := by
  refine ⟨h.filled_nonneg, ?_, h.status, ?_, ?_⟩
  · show o.filledAmount ≤ dto.amount.getD o.amount
    cases ha : dto.amount with
    | none => exact h.filled_le
    | some a => exact hadm.amount a ha
  · -- only open orders are amended
    intro hf
    rcases hadm.isOpen with hopen | hopen
    · exact absurd (hopen.symm.trans hf) (by simp)
    · exact absurd (hopen.symm.trans hf) (by simp)
  · intro ht
    show (dto.price.or o.price).isSome
    rw [Option.isSome_or, h.price ht, Bool.or_true]

theorem sound_kept (now : ℤ) (A : Order → Prop) : KeptByChange now A Order.Sound where
  enter := fun _ hfresh => hfresh.sound
  cancel := fun _ h _ _ =>
    { filled_nonneg := h.filled_nonneg
      filled_le := h.filled_le
      status := .inr (.inr rfl)
      filled_eq := fun hf => by cases hf
      price := h.price }
  amend := fun _ _ _ h hadm _ => h.amendedBy hadm
  touch := fun _ _ _ h => ⟨h.filled_nonneg, h.filled_le, h.status, h.filled_eq, h.price⟩
  fill := fun _ _ ht hm _ _ _ =>
    ⟨ht.applyFill (fillAmount_nonneg ht hm) (fillAmount_le_taker _ _),
      hm.applyFill (fillAmount_nonneg ht hm) (fillAmount_le_maker _ _)⟩

theorem sound_step (d : OrdersDb) (e : Event) (hd : SoundRows d) : SoundRows (step d e) :=
  Changes.invariant ((sound_kept e.now fun _ => True).change)
    (step_changes fun _ _ _ _ _ _ => trivial) hd

/-- **Every stored order is sound**, in every state of every run. -/
theorem sound_run {d : OrdersDb} (hd : Initial d) (es : List Event) : SoundRows (run step d es) :=
  run_invariant' sound_step hd.sound es

/-- What is compared, added and stored of an order is held exactly. -/
structure Order.Exact (o : Order) : Prop where
  amount : Carried o.amount
  filledAmount : Carried o.filledAmount
  price : ∀ p, o.price = some p → Carried p

/-- What is compared and added of the stored rows is held exactly. -/
structure ExactRows (d : OrdersDb) : Prop where
  orders : ∀ o ∈ d.orders.rows, o.Exact
  balances : ∀ b ∈ d.balances.rows, Carried b.balance ∧ Carried b.lockedBalance
  trades : ∀ t ∈ d.trades, Carried t.amount

structure CreateOrderDto.Exact (dto : CreateOrderDto) : Prop where
  amount : Carried dto.amount
  price : ∀ p, dto.price = some p → Carried p

/-- The amounts and prices of the request are held exactly. -/
def Event.Exact (e : Event) : Prop :=
  match e.request with
  | .place _ _ dto _ => dto.Exact
  | .modify _ dto => (∀ a, dto.amount = some a → Carried a) ∧
      ∀ p, dto.price = some p → Carried p
  | .cancel _ _ | .stop _ _ => True

theorem placeLimit_exact (now : ℤ) (id userId : ℕ) (side : OrderSide) (amount price : ℕ) [NeZero amount]
    [NeZero price] : Event.Exact ⟨now, placeLimit id userId side amount price⟩ :=
  ⟨carried_natCast amount, by rintro p ⟨⟩; exact carried_natCast price⟩

theorem Initial.exact {d : OrdersDb} (h : Initial d) (hb : ∀ b ∈ d.balances.rows, Carried b.balance) :
    ExactRows d := by
  refine ⟨fun o ho => ?_, fun b hrow => ⟨hb b hrow, ?_⟩, fun t ht => ?_⟩
  · rw [h.orders] at ho
    cases ho
  · rw [h.unlocked b hrow]
    exact carried_zero
  · rw [h.trades] at ht
    cases ht

theorem sellerDb_exact : ∀ b ∈ sellerDb.balances.rows, Carried b.balance := by
  intro b hb
  rcases Table.mem_save.mp hb with rfl | ⟨hb, -⟩
  · exact carried_ofNat 10
  · cases hb

section Exact

variable {d d' s : OrdersDb} {now : ℤ} {o taker maker : Order} {balances : Table UserBalance.key}

theorem Order.Exact.remainingAmount (h : o.Exact) : Carried o.remainingAmount :=
  h.amount.sub h.filledAmount

theorem newOrder_exact (id : ℕ) (now : ℤ) (userId : ℕ) {dto : CreateOrderDto} (h : dto.Exact) :
    (newOrder id now userId dto).Exact := by
  refine ⟨h.amount, carried_zero, fun p hp => h.price p ?_⟩
  replace hp : (if dto.type = .limit then dto.price else none) = some p := hp
  split at hp
  · exact hp
  · cases hp

theorem Order.Exact.applyFill (h : o.Exact) {a : ℚ} (ha : Carried a) (p : ℚ) : (applyFill now o a p).Exact := by
  refine ⟨?_, ?_, ?_⟩
  · rw [applyFill_amount]
    exact h.amount
  · rw [applyFill_filledAmount]
    exact h.filledAmount.add ha
  · rw [applyFill_price]
    exact h.price

theorem ExactRows.save (h : ExactRows d) (ho : o.Exact)
    (hb : ∀ b ∈ balances.rows, Carried b.balance ∧ Carried b.lockedBalance) :
    ExactRows { d with orders := d.orders.save o, balances := balances } := by
  refine ⟨fun x hx => ?_, hb, h.trades⟩
  rcases Table.mem_save.mp hx with rfl | ⟨hx, -⟩
  · exact ho
  · exact h.orders x hx

theorem ExactRows.saveBalance (h : ExactRows d) {b : UserBalance} (hb : b ∈ d.balances.rows) {locked : ℚ}
    (hlocked : Carried locked) : ∀ x ∈ (d.balances.save { b with lockedBalance := locked }).rows,
      Carried x.balance ∧ Carried x.lockedBalance := by
  intro x hx
  rcases Table.mem_save.mp hx with rfl | ⟨hx, -⟩
  · exact ⟨(h.balances b hb).1, hlocked⟩
  · exact h.balances x hx

theorem Reserves.exact {amount : ℚ} (hres : Reserves d o amount balances) (h : ExactRows d)
    (ha : Carried amount) : ∀ b ∈ balances.rows, Carried b.balance ∧ Carried b.lockedBalance := by
  unfold Reserves at hres
  split at hres
  · rw [hres]
    exact h.balances
  · obtain ⟨b, hb, -, rfl⟩ := hres
    have hrow := Table.mem_of_find hb
    exact h.saveBalance hrow ((h.balances b hrow).2.add ha)

theorem Releases.exact (hrel : Releases d o balances) (h : ExactRows d) (ho : o.Exact) :
    ∀ b ∈ balances.rows, Carried b.balance ∧ Carried b.lockedBalance := by
  unfold Releases at hrel
  split at hrel
  · rw [hrel]
    exact h.balances
  · split at hrel
    · rw [hrel]
      exact h.balances
    · next b hb =>
      have hrow := Table.mem_of_find hb
      rw [hrel]
      exact h.saveBalance hrow (carried_zero.max ((h.balances b hrow).2.sub ho.remainingAmount))

theorem Order.Exact.amendedBy (h : o.Exact) {dto : ModifyOrderDto}
    (ha : ∀ a, dto.amount = some a → Carried a) (hp : ∀ p, dto.price = some p → Carried p) :
    (o.amendedBy dto).Exact := by
  refine ⟨?_, h.filledAmount, fun p hprice => ?_⟩
  · show Carried (dto.amount.getD o.amount)
    cases hamount : dto.amount with
    | none => exact h.amount
    | some a => exact ha a hamount
  · replace hprice : dto.price.or o.price = some p := hprice
    cases hdto : dto.price with
    | none => exact h.price p (by rwa [hdto] at hprice)
    | some q => exact hp p (by rwa [hdto] at hprice ⊢)

/-- An entry of such a request leaves such rows. -/
theorem Entry.exact {e : Event} {t : Option Order} (hentry : Entry e.now d e.request s t) (h : ExactRows d)
    (he : e.Exact) : ExactRows s := by
  unfold Event.Exact at he
  generalize e.request = request at hentry he
  cases hentry with
  | @enter id userId _ _ _ _ hnew hid hfresh hres =>
    have horder := newOrder_exact id e.now userId he
    rw [← hnew] at horder
    exact h.save horder (hres.exact h horder.amount)
  | cancel ho hid howner hstatus hrel =>
    have horder := h.orders _ ho
    exact h.save ⟨horder.amount, horder.filledAmount, horder.price⟩ (hrel.exact h horder)
  | amend ho hadm hres =>
    have horder := (h.orders _ ho).amendedBy he.1 he.2
    refine h.save horder ?_
    rcases hres with ⟨-, rfl⟩ | hres
    · exact h.balances
    · exact hres.exact h (horder.amount.sub (h.orders _ ho).amount)
  | arm ho =>
    have horder := h.orders _ ho
    exact h.save ⟨horder.amount, horder.filledAmount, horder.price⟩ h.balances
  | ratchet ho =>
    have horder := h.orders _ ho
    exact h.save ⟨horder.amount, horder.filledAmount, horder.price⟩ h.balances
  | idle => exact h

theorem exact_fill (h : ExactRows d) (ht : taker ∈ d.orders.rows) (hm : maker ∈ d.orders.rows) :
    ExactRows (d.fill now taker maker) := by
  have hamount : Carried (fillAmount taker maker) :=
    (h.orders _ ht).remainingAmount.min (h.orders _ hm).remainingAmount
  refine ⟨fun x hx => ?_, h.balances, fun t ht => ?_⟩
  · rcases mem_fill hx with rfl | rfl | ⟨hx, -⟩
    · exact (h.orders _ ht).applyFill hamount _
    · exact (h.orders _ hm).applyFill hamount _
    · exact h.orders x hx
  · rcases List.mem_append.mp ht with ht | ht
    · exact h.trades t ht
    · obtain rfl := List.mem_singleton.mp ht
      exact hamount

theorem Matched.exact {t : Option Order} (hmatched : Matched now s t d') (h : ExactRows s) : ExactRows d' := by
  cases t with
  | none =>
    obtain rfl : d' = s := hmatched
    exact h
  | some taker =>
    obtain ⟨taker', hfills, -⟩ := hmatched
    exact hfills.invariant (I := fun d _ => ExactRows d) (fun _ _ _ ht hm _ _ _ h => exact_fill h ht hm) h

/-- **The numbers stay held exactly**: no step rounds one. -/
theorem exact_step (d : OrdersDb) (e : Event) (h : ExactRows d) (he : e.Exact) : ExactRows (step d e) := by
  rcases step_entry d e with hstep | ⟨s, t, hentry, hmatched⟩
  · rw [hstep]
    exact h
  · exact hmatched.exact (hentry.exact h he)

end Exact

/-- An order that is not FILLED has something remaining. -/
def Order.Unfinished (o : Order) : Prop := o.status ≠ .filled → o.filledAmount < o.amount

theorem Order.Open.ne_filled {o : Order} (h : o.Open) : o.status ≠ .filled := by
  rcases h with h | h <;> rw [h] <;> simp

theorem Order.Unfinished.remaining_pos {o : Order} (h : o.Unfinished) (hopen : o.Open) :
    0 < o.remainingAmount :=
  sub_pos.mpr (h hopen.ne_filled)

/-- No amendment of the request lowers the amount of an order in `K` to what is already filled. -/
def NoExhaustingAmend (K : Order → Prop) (d : OrdersDb) (e : Event) : Prop :=
  ∀ userId dto, e.request = .modify userId dto → ∀ o ∈ d.orders.rows, Admits o userId dto → K o →
    dto.amount ≠ some o.filledAmount

theorem unfinished_applyFill (now : ℤ) (o : Order) (a p : ℚ) :
    (applyFill now o a p).Unfinished := by
  intro hstatus
  rw [applyFill_status] at hstatus
  rw [applyFill_filledAmount, applyFill_amount]
  by_contra hge
  exact hstatus (if_pos (not_lt.mp hge))

section Unfinished

variable {K : Order → Prop}

/-- The orders in `K` that are not FILLED have something remaining. -/
def UnfinishedRows (K : Order → Prop) (d : OrdersDb) : Prop :=
  ∀ o ∈ d.orders.rows, K o → o.Unfinished

/-- An amendment that does not exhaust the order leaves something remaining. -/
theorem unfinished_amendedBy {o : Order} {userId : ℕ} {dto : ModifyOrderDto}
    (h : o.Unfinished) (hadm : Admits o userId dto) (hne : dto.amount ≠ some o.filledAmount) :
    (o.amendedBy dto).Unfinished := by
  intro _
  show o.filledAmount < dto.amount.getD o.amount
  cases ha : dto.amount with
  | none => exact h hadm.isOpen.ne_filled
  | some a =>
    refine lt_of_le_of_ne (hadm.amount a ha) fun e => hne ?_
    rw [ha, e]
    rfl

/-- `K` depends on nothing that a transaction changes. -/
structure Fixed (K : Order → Prop) : Prop where
  asCancelled : ∀ o now, K (Order.asCancelled o now) → K o
  amendedBy : ∀ o dto, K (o.amendedBy dto) → K o
  touchedBy : ∀ o t r, K (Order.touchedBy o t r) → K o

theorem unfinished_kept (hK : Fixed K) (now : ℤ) :
    KeptByChange now (fun o => K o → o.Unfinished) (fun o => K o → o.Unfinished) where
  enter := fun o hfresh _ _ => by rw [hfresh.filledAmount]; exact hfresh.amount_pos
  cancel := fun _ h hstatus _ hk _ => h (hK.asCancelled _ _ hk) hstatus
  amend := fun _ _ _ _ _ hA => hA
  touch := fun o t r h hk => h (hK.touchedBy o t r hk)
  fill := fun _ _ _ _ _ _ _ =>
    ⟨fun _ => unfinished_applyFill _ _ _ _, fun _ => unfinished_applyFill _ _ _ _⟩

/-- A step that exhausts nothing, as a sequence of changes. -/
theorem step_changes_unfinished (hK : Fixed K) {d : OrdersDb} {e : Event}
    (hd : UnfinishedRows K d) (he : NoExhaustingAmend K d e) :
    Changes e.now (fun o => K o → o.Unfinished) d (step d e) := by
  refine step_changes ?_
  intro userId dto hreq o ho hadm hk
  have hko : K o := hK.amendedBy o dto hk
  exact unfinished_amendedBy (hd o ho hko) hadm (he userId dto hreq o ho hadm hko)

/-- **No order is exhausted without being FILLED**, as long as no amendment exhausts one. -/
theorem unfinished_step (hK : Fixed K) (d : OrdersDb) (e : Event) (hd : UnfinishedRows K d)
    (he : NoExhaustingAmend K d e) : UnfinishedRows K (step d e) :=
  Changes.invariant (unfinished_kept hK e.now).change (step_changes_unfinished hK hd he) hd

theorem Initial.unfinished {d : OrdersDb} (h : Initial d) : UnfinishedRows K d := by
  intro o ho
  rw [h.orders] at ho
  cases ho

end Unfinished

end Orders
