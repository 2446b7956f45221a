import PeerX.Orders.Invariants

/-!
# Orders: locked balances

A SELL order reserves its amount in the locked balance of its user and asset. Cancelling releases
the remainder, amending moves the lock by the change of the remainder, and fills release nothing:
in every reachable state the locked balance is what remains of the open SELL orders **plus what was
ever filled of the SELL orders**. It is the former alone exactly as long as nothing is filled.

## Main results

* `locks_step`: a step locks what it adds to the shares of the orders, within the balances
* `lockLedger_run`: the ledger holds in every state of every run
* `locksMatch_iff`: the locks match exactly when no SELL order was filled
* `locks_match_without_fills`: they match throughout a run without fills
-/

namespace Orders

open Relational Concurrency

/-- The locked balance of a user and an asset; zero without a row. -/
def lockedBalanceOf (balances : Table UserBalance.key) (k : ℕ × ℕ) : ℚ :=
  match balances.find k with
  | some b => b.lockedBalance
  | none => 0

/-- What remains of an open SELL order of the user and asset `k`. -/
def openSell (k : ℕ × ℕ) (o : Order) : ℚ :=
  if o.side = .sell ∧ (o.userId, o.assetId) = k ∧ o.Open then o.remainingAmount else 0

/-- What was filled of a SELL order of the user and asset `k`. -/
def filledSell (k : ℕ × ℕ) (o : Order) : ℚ :=
  if o.side = .sell ∧ (o.userId, o.assetId) = k then o.filledAmount else 0

/-- The share of one order in the locked balance of `k`. -/
def lockShare (k : ℕ × ℕ) (o : Order) : ℚ := openSell k o + filledSell k o

/-- The lock ledger: a locked balance is what remains of the open SELL orders and what was
filled of all of them. -/
def LockLedger (d : OrdersDb) : Prop :=
  ∀ k, lockedBalanceOf d.balances k = d.orders.sum (lockShare k)

/-- The locked balances are what remains of the open SELL orders. -/
def LocksMatch (d : OrdersDb) : Prop :=
  ∀ userId assetId,
    lockedBalanceOf d.balances (userId, assetId) = d.orders.sum (openSell (userId, assetId))

/-! ## Shares -/

theorem lockedBalanceOf_of_find {balances : Table UserBalance.key} {k : ℕ × ℕ} {b : UserBalance}
    (hb : balances.find k = some b) : lockedBalanceOf balances k = b.lockedBalance := by
  rw [lockedBalanceOf, hb]

theorem lockedBalanceOf_relock {balances : Table UserBalance.key} {k₀ : ℕ × ℕ} {b : UserBalance}
    (hb : balances.find k₀ = some b) (x : ℚ) (k : ℕ × ℕ) :
    lockedBalanceOf (balances.save { b with lockedBalance := x }) k =
      if k₀ = k then x else lockedBalanceOf balances k := by
  have hkey : UserBalance.key { b with lockedBalance := x } = k₀ :=
    show b.key = k₀ from Table.key_of_find hb
  unfold lockedBalanceOf
  rw [Table.find_save, hkey]
  by_cases hk : k₀ = k
  · rw [if_pos hk.symm, if_pos hk]
  · rw [if_neg (Ne.symm hk), if_neg hk]

section Shares

variable {k : ℕ × ℕ} {o : Order}

theorem lockShare_of_other (h : ¬ (o.side = .sell ∧ (o.userId, o.assetId) = k)) :
    lockShare k o = 0 := by
  have hopen : ¬ (o.side = .sell ∧ (o.userId, o.assetId) = k ∧ o.Open) :=
    fun hc => h ⟨hc.1, hc.2.1⟩
  rw [lockShare, openSell, filledSell, if_neg hopen, if_neg h, add_zero]

theorem lockShare_of_open (hside : o.side = .sell) (hk : (o.userId, o.assetId) = k)
    (hopen : o.Open) : lockShare k o = o.amount := by
  rw [lockShare, openSell, filledSell, if_pos ⟨hside, hk, hopen⟩, if_pos ⟨hside, hk⟩]
  exact sub_add_cancel ..

theorem lockShare_of_closed (hside : o.side = .sell) (hk : (o.userId, o.assetId) = k)
    (hopen : ¬ o.Open) : lockShare k o = o.filledAmount := by
  have hno : ¬ (o.side = .sell ∧ (o.userId, o.assetId) = k ∧ o.Open) := fun hc => hopen hc.2.2
  rw [lockShare, openSell, filledSell, if_neg hno, if_pos ⟨hside, hk⟩, zero_add]

theorem openSell_nonneg (h : o.Sound) : 0 ≤ openSell k o := by
  unfold openSell
  split
  · exact h.remaining_nonneg
  · exact le_rfl

theorem filledSell_nonneg (h : o.Sound) : 0 ≤ filledSell k o := by
  unfold filledSell
  split
  · exact h.filled_nonneg
  · exact le_rfl

theorem lockShare_nonneg (h : o.Sound) : 0 ≤ lockShare k o :=
  add_nonneg (openSell_nonneg h) (filledSell_nonneg h)

/-- A fill of at most the remainder moves the share from what remains to what was filled. -/
theorem lockShare_applyFill (now : ℤ) (p : ℚ) {a : ℚ} (hopen : o.Open)
    (hle : a ≤ o.remainingAmount) : lockShare k (applyFill now o a p) = lockShare k o := by
  by_cases hk : o.side = .sell ∧ (o.userId, o.assetId) = k
  · obtain ⟨hside, hk⟩ := hk
    rw [lockShare_of_open hside hk hopen]
    by_cases ho : (applyFill now o a p).Open
    · rw [lockShare_of_open (by simpa using hside) (by simpa using hk) ho, applyFill_amount]
    · rw [lockShare_of_closed (by simpa using hside) (by simpa using hk) ho]
      rw [applyFill_open_iff, not_lt] at ho
      rw [applyFill_filledAmount, le_antisymm hle ho, Order.remainingAmount]
      ring
  · rw [lockShare_of_other hk, lockShare_of_other (by simpa using hk)]

end Shares

/-! ## The ledger -/

/-- A reservation raises the locked balance of the order's user and asset. -/
theorem Reserves.locked {d : OrdersDb} {o : Order} {amount : ℚ} {balances : Table UserBalance.key}
    (h : Reserves d o amount balances) (k : ℕ × ℕ) :
    lockedBalanceOf balances k = lockedBalanceOf d.balances k +
      if o.side = .sell ∧ (o.userId, o.assetId) = k then amount else 0 := by
  unfold Reserves at h
  rcases o.side.buy_or_sell with hside | hside
  · simp only [hside] at h
    simp [h, hside]
  · simp only [hside] at h
    obtain ⟨b, hb, -, rfl⟩ := h
    rw [UserBalance.lock, lockedBalanceOf_relock hb]
    by_cases hk : (o.userId, o.assetId) = k
    · subst hk
      rw [if_pos rfl, if_pos ⟨hside, rfl⟩, lockedBalanceOf_of_find hb]
    · rw [if_neg hk, if_neg fun hc => hk hc.2, add_zero]

/-- A release lowers it by the remainder: the ledger leaves the clamp nothing to do. -/
theorem Releases.locked {d : OrdersDb} {o : Order} {balances : Table UserBalance.key}
    (h : Releases d o balances)
    (hle : o.side = .sell → o.remainingAmount ≤ lockedBalanceOf d.balances (o.userId, o.assetId))
    (hpos : 0 ≤ o.remainingAmount) (k : ℕ × ℕ) :
    lockedBalanceOf balances k = lockedBalanceOf d.balances k -
      if o.side = .sell ∧ (o.userId, o.assetId) = k then o.remainingAmount else 0 := by
  unfold Releases at h
  rcases o.side.buy_or_sell with hside | hside
  · simp only [hside] at h
    simp [h, hside]
  · simp only [hside] at h
    have hle := hle hside
    cases hb : d.balances.find (o.userId, o.assetId) with
    | none =>
      simp only [hb] at h
      rw [lockedBalanceOf, hb] at hle
      rw [h, le_antisymm hle hpos, ite_self, sub_zero]
    | some b =>
      simp only [hb] at h
      rw [h, lockedBalanceOf_relock hb]
      by_cases hk : (o.userId, o.assetId) = k
      · subst hk
        rw [lockedBalanceOf_of_find hb] at hle ⊢
        rw [if_pos rfl, if_pos ⟨hside, rfl⟩]
        exact max_eq_right (sub_nonneg.mpr hle)
      · rw [if_neg hk, if_neg fun hc => hk hc.2, sub_zero]

/-- What is locked beyond the shares of the orders. -/
def lockSurplus (d : OrdersDb) (k : ℕ × ℕ) : ℚ :=
  lockedBalanceOf d.balances k - d.orders.sum (lockShare k)

/-- The shares of the orders are locked. -/
def SharesLocked (d : OrdersDb) : Prop := ∀ k, 0 ≤ lockSurplus d k

theorem lockLedger_iff {d : OrdersDb} : LockLedger d ↔ ∀ k, lockSurplus d k = 0 := by
  simp only [LockLedger, lockSurplus, sub_eq_zero]

theorem SharesLocked.sum_le {d : OrdersDb} (h : SharesLocked d) (k : ℕ × ℕ) :
    d.orders.sum (lockShare k) ≤ lockedBalanceOf d.balances k :=
  sub_nonneg.mp (h k)

theorem SharesLocked.lockedBalanceOf_nonneg {d : OrdersDb} (h : SharesLocked d) (hs : SoundRows d)
    (k : ℕ × ℕ) : 0 ≤ lockedBalanceOf d.balances k :=
  (Table.sum_nonneg fun o ho => lockShare_nonneg (hs o ho)).trans (h.sum_le k)

theorem Order.Sound.open_of_cancellable {o : Order} (h : o.Sound)
    (hstatus : o.status ≠ .filled ∧ o.status ≠ .cancelled) : o.Open := by
  rcases h.status with ho | hf | hc
  · exact ho
  · exact absurd hf hstatus.1
  · exact absurd hc hstatus.2

/-- An edit moves the locked balances with the shares: the clamp of a release has nothing to
do. -/
theorem lockSurplus_edit {now : ℤ} {A : Order → Prop} {d d' : OrdersDb} (hs : SoundRows d)
    (hd : SharesLocked d) (h : Edit now A d d') (k : ℕ × ℕ) :
    lockSurplus d' k = lockSurplus d k := by
  unfold lockSurplus
  cases h with
  | @enter o balances hid hfresh hres =>
    -- a sell locks what its share adds
    rw [hres.locked k, Table.sum_save_new hid]
    by_cases hk : o.side = .sell ∧ (o.userId, o.assetId) = k
    · rw [if_pos hk, lockShare_of_open hk.1 hk.2 (.inl hfresh.status)]
      ring
    · rw [if_neg hk, lockShare_of_other hk]
      ring
  | @cancel o balances ho hstatus hrel =>
    have hopen : o.Open := (hs o ho).open_of_cancellable hstatus
    have hclosed : ¬ (o.asCancelled now).Open := by simp [Order.asCancelled, Order.Open]
    -- the share of one order is at most the locked balance, so the clamp is inactive
    have hle : o.side = .sell →
        o.remainingAmount ≤ lockedBalanceOf d.balances (o.userId, o.assetId) := by
      intro hside
      calc o.remainingAmount ≤ lockShare (o.userId, o.assetId) o := by
            rw [lockShare_of_open hside rfl hopen, Order.remainingAmount]
            have := (hs o ho).filled_nonneg
            linarith
        _ ≤ d.orders.sum (lockShare (o.userId, o.assetId)) :=
            Table.le_sum (fun x hx => lockShare_nonneg (hs x hx)) ho
        _ ≤ _ := hd.sum_le _
    rw [hrel.locked hle (hs o ho).remaining_nonneg k,
      Table.sum_save (r := o.asCancelled now) ho rfl]
    by_cases hk : o.side = .sell ∧ (o.userId, o.assetId) = k
    · rw [if_pos hk, lockShare_of_open hk.1 hk.2 hopen,
        lockShare_of_closed (o := o.asCancelled now) hk.1 hk.2 hclosed, Order.remainingAmount]
      simp only [Order.asCancelled]
      ring
    · rw [if_neg hk, lockShare_of_other hk, lockShare_of_other (o := o.asCancelled now) hk]
      ring
  | @amend userId dto o balances ho hadm hA hres =>
    -- the lock moves by what the amount moves
    have hlocked : lockedBalanceOf balances k = lockedBalanceOf d.balances k +
        if o.side = .sell ∧ (o.userId, o.assetId) = k then (o.amendedBy dto).amount - o.amount
        else 0 := by
      rcases hres with ⟨hnone, rfl⟩ | hres
      · have : (o.amendedBy dto).amount = o.amount := by simp [Order.amendedBy, hnone]
        rw [this, sub_self, ite_self, add_zero]
      · exact hres.locked k
    rw [hlocked, Table.sum_save (r := o.amendedBy dto) ho rfl]
    by_cases hk : o.side = .sell ∧ (o.userId, o.assetId) = k
    · rw [if_pos hk, lockShare_of_open hk.1 hk.2 hadm.isOpen,
        lockShare_of_open (o := o.amendedBy dto) hk.1 hk.2 hadm.isOpen]
      ring
    · rw [if_neg hk, lockShare_of_other hk, lockShare_of_other (o := o.amendedBy dto) hk]
      ring
  | @touch o ho triggeredAt reference =>
    -- a stop order that is armed or ratcheted keeps its share
    have hshare : lockShare k (o.touchedBy triggeredAt reference) = lockShare k o := rfl
    simp only [OrdersDb.settle]
    rw [Table.sum_save_of_eq (r := o.touchedBy triggeredAt reference) ho rfl hshare]

/-- Every change does. -/
theorem lockSurplus_change {now : ℤ} {A : Order → Prop} {d d' : OrdersDb} (hs : SoundRows d)
    (hd : SharesLocked d) (hc : Change now A d d') (k : ℕ × ℕ) :
    lockSurplus d' k = lockSurplus d k := by
  cases hc with
  | edit h => exact lockSurplus_edit hs hd h k
  | @fill taker maker ht hm hopen hpos hcross =>
    have hne := hcross.id_ne ht hm
    have hmaker : lockShare k (makerAfter now taker maker) = lockShare k maker :=
      lockShare_applyFill now _ hcross.2.2.2.1 (fillAmount_le_maker _ _)
    have htaker : lockShare k (takerAfter now taker maker) = lockShare k taker :=
      lockShare_applyFill now _ hopen (fillAmount_le_taker _ _)
    have ht' : taker ∈ (d.orders.save (makerAfter now taker maker)).rows :=
      Table.mem_save.mpr (.inr ⟨ht, by simpa using hne.symm⟩)
    simp only [lockSurplus, OrdersDb.fill, OrdersDb.afterFill, OrdersDb.settle]
    rw [Table.sum_save_of_eq ht' (takerAfter_id ..) htaker,
      Table.sum_save_of_eq hm (makerAfter_id ..) hmaker]

/-- No balance is locked beyond itself. -/
def WithinBalances (d : OrdersDb) : Prop := ∀ b ∈ d.balances.rows, b.lockedBalance ≤ b.balance

/-- A reservation stays within the balance: more than what is available is not reserved. -/
theorem Reserves.within {d : OrdersDb} {o : Order} {amount : ℚ} {balances : Table UserBalance.key}
    (h : Reserves d o amount balances) (hd : WithinBalances d) :
    ∀ b ∈ balances.rows, b.lockedBalance ≤ b.balance := by
  unfold Reserves at h
  rcases o.side.buy_or_sell with hside | hside
  · simp only [hside] at h
    exact h ▸ hd
  · simp only [hside] at h
    obtain ⟨b, hb, havail, rfl⟩ := h
    have hle := hd b (Table.mem_of_find hb)
    intro x hx
    rcases Table.mem_save.mp hx with rfl | ⟨hx, -⟩
    · simp only [UserBalance.lock]
      rcases lt_or_ge 0 amount with hpos | hneg
      · have := havail hpos
        unfold UserBalance.availableBalance at this
        linarith
      · linarith
    · exact hd x hx

theorem Releases.within {d : OrdersDb} {o : Order} {balances : Table UserBalance.key}
    (h : Releases d o balances) (hd : WithinBalances d) (hpos : 0 ≤ o.remainingAmount)
    (hlocked : ∀ k, 0 ≤ lockedBalanceOf d.balances k) :
    ∀ b ∈ balances.rows, b.lockedBalance ≤ b.balance := by
  unfold Releases at h
  rcases o.side.buy_or_sell with hside | hside
  · simp only [hside] at h
    exact h ▸ hd
  · simp only [hside] at h
    cases hb : d.balances.find (o.userId, o.assetId) with
    | none =>
      simp only [hb] at h
      exact h ▸ hd
    | some b =>
      simp only [hb] at h
      subst h
      have hle := hd b (Table.mem_of_find hb)
      have hnonneg := hlocked (o.userId, o.assetId)
      rw [lockedBalanceOf_of_find hb] at hnonneg
      intro x hx
      rcases Table.mem_save.mp hx with rfl | ⟨hx, -⟩
      · exact max_le (hnonneg.trans hle) (by simp only; linarith)
      · exact hd x hx

theorem withinBalances_change {now : ℤ} {A : Order → Prop} {d d' : OrdersDb} (hs : SoundRows d)
    (hd : SharesLocked d) (hw : WithinBalances d) (hc : Change now A d d') : WithinBalances d' := by
  cases hc with
  | edit h =>
    cases h with
    | enter hid hfresh hres => exact hres.within hw
    | cancel ho hstatus hrel =>
      exact hrel.within hw (hs _ ho).remaining_nonneg fun k => hd.lockedBalanceOf_nonneg hs k
    | amend ho hadm hA hres =>
      rcases hres with ⟨-, rfl⟩ | hres
      · exact hw
      · exact hres.within hw
    | touch ho triggeredAt reference => exact hw
  | fill ht hm hopen hpos hcross => exact hw

/-- **A step of the order services** moves the locked balances with the shares of the orders, and
keeps them within the balances. -/
theorem locks_step {d : OrdersDb} (e : Event) (hs : SoundRows d) (hd : SharesLocked d) :
    (∀ k, lockSurplus (step d e) k = lockSurplus d k) ∧
      (WithinBalances d → WithinBalances (step d e)) := by
  have hstep : Changes e.now (fun _ => True) d (step d e) :=
    step_changes fun _ _ _ _ _ _ => trivial
  let I : OrdersDb → Prop := fun d' => SoundRows d' ∧ (∀ k, lockSurplus d' k = lockSurplus d k) ∧
    (WithinBalances d → WithinBalances d')
  have hI : I (step d e) := by
    refine Changes.invariant (I := I) ?_ hstep ⟨hs, fun _ => rfl, id⟩
    rintro d₁ d₂ ⟨hs₁, hsurplus, hwithin⟩ hc
    have hd₁ : SharesLocked d₁ := fun k => hsurplus k ▸ hd k
    exact ⟨(sound_kept e.now _).change d₁ d₂ hs₁ hc,
      fun k => (lockSurplus_change hs₁ hd₁ hc k).trans (hsurplus k),
      fun hw => withinBalances_change hs₁ hd₁ (hwithin hw) hc⟩
  exact hI.2

theorem lockLedger_step (d : OrdersDb) (e : Event) (hd : SoundRows d ∧ LockLedger d) :
    SoundRows (step d e) ∧ LockLedger (step d e) := by
  obtain ⟨hs, hledger⟩ := hd
  rw [lockLedger_iff] at hledger
  refine ⟨sound_step d e hs, lockLedger_iff.mpr fun k => ?_⟩
  rw [(locks_step e hs fun k => (hledger k).ge).1 k, hledger k]

theorem Initial.lockLedger {d : OrdersDb} (h : Initial d) : LockLedger d := by
  intro k
  have hsum : d.orders.sum (lockShare k) = 0 := by simp [Table.sum, h.orders]
  rw [hsum]
  cases hb : d.balances.find k with
  | none => rw [lockedBalanceOf, hb]
  | some b => rw [lockedBalanceOf_of_find hb, h.unlocked b (Table.mem_of_find hb)]

/-- **The ledger** holds in every state of every run. -/
theorem lockLedger_run {d : OrdersDb} (hd : Initial d) (es : List Event) :
    LockLedger (run step d es) :=
  (run_invariant' lockLedger_step ⟨hd.sound, hd.lockLedger⟩ es).2

/-- **The locks match** exactly when nothing of a SELL order was filled. -/
theorem locksMatch_iff {d : OrdersDb} (hs : SoundRows d) (hd : LockLedger d) :
    LocksMatch d ↔ ∀ o ∈ d.orders.rows, o.side = .sell → o.filledAmount = 0 := by
  have hsplit : ∀ k, d.orders.sum (lockShare k) =
      d.orders.sum (openSell k) + d.orders.sum (filledSell k) := by
    intro k
    exact List.sum_map_add
  constructor
  · intro h o ho hside
    have hzero : d.orders.sum (filledSell (o.userId, o.assetId)) = 0 := by
      have := hd (o.userId, o.assetId)
      rw [h, hsplit] at this
      linarith
    have hle : filledSell (o.userId, o.assetId) o ≤ 0 := by
      rw [← hzero]
      exact Table.le_sum (fun x hx => filledSell_nonneg (hs x hx)) ho
    rw [filledSell, if_pos ⟨hside, rfl⟩] at hle
    exact le_antisymm hle (hs o ho).filled_nonneg
  · intro h userId assetId
    have hzero : ∀ o ∈ d.orders.rows, filledSell (userId, assetId) o = 0 := by
      intro o ho
      unfold filledSell
      split
      · next hk => exact h o ho hk.1
      · rfl
    rw [hd, hsplit, Table.sum_congr (g := fun _ => 0) hzero]
    simp [Table.sum]

/-! ## Runs without fills -/

/-- The taker of the request, if any, crosses no resting order with anything remaining. -/
def NoFill (d : OrdersDb) (e : Event) : Prop :=
  ∀ taker, Activates d e taker → 0 < taker.remainingAmount →
    ∀ maker ∈ d.orders.rows, Crossable taker maker → maker.remainingAmount ≤ 0

/-- Nothing is filled of any order. -/
def Unfilled (d : OrdersDb) : Prop := ∀ o ∈ d.orders.rows, o.filledAmount = 0

theorem unfilled_kept (now : ℤ) : KeptByEdit now (fun _ => True) (·.filledAmount = 0) where
  enter := fun _ hfresh => hfresh.filledAmount
  cancel := fun _ h _ _ => h
  amend := fun _ _ _ h _ _ => h
  touch := fun _ _ _ h => h

/-- The taker's orders hold nothing: a fill against one of them fills nothing. -/
structure Barren (d : OrdersDb) (taker : Order) : Prop where
  sound : SoundRows d
  unfilled : Unfilled d
  empty : 0 < taker.remainingAmount →
    ∀ maker ∈ d.orders.rows, Crossable taker maker → maker.remainingAmount ≤ 0

theorem barren_fill {now : ℤ} {d : OrdersDb} {taker maker : Order} (ht : taker ∈ d.orders.rows)
    (hm : maker ∈ d.orders.rows) (hopen : taker.Open) (hpos : 0 < taker.remainingAmount)
    (hcross : Crossable taker maker) (h : Barren d taker) :
    Barren (d.fill now taker maker) (takerAfter now taker maker) := by
  have hzero : fillAmount taker maker = 0 := by
    have hle := (fillAmount_le_maker taker maker).trans (h.empty hpos maker hm hcross)
    exact le_antisymm hle (fillAmount_nonneg (h.sound taker ht) (h.sound maker hm))
  refine ⟨?_, ?_, ?_⟩
  · exact (sound_kept now fun _ => True).change _ _ h.sound (.fill ht hm hopen hpos hcross)
  · intro x hx
    rcases mem_fill hx with rfl | rfl | ⟨hx, -⟩
    · rw [takerAfter, applyFill_filledAmount, h.unfilled taker ht, hzero, add_zero]
    · rw [makerAfter, applyFill_filledAmount, h.unfilled maker hm, hzero, add_zero]
    · exact h.unfilled x hx
  · intro _ x hx hx'
    rw [takerAfter, crossable_applyFill] at hx'
    rcases mem_fill hx with rfl | rfl | ⟨hx, -⟩
    · exact absurd (by simp) hx'.side_ne
    · rw [makerAfter, applyFill_remainingAmount, hzero, sub_zero]
      exact h.empty hpos maker hm hcross
    · exact h.empty hpos x hx hx'

theorem unfilled_step (d : OrdersDb) (e : Event) (hs : SoundRows d) (hd : Unfilled d)
    (he : NoFill d e) : Unfilled (step d e) := by
  rcases step_entry d e with h | ⟨s, t, hentry, hmatched⟩
  · rw [h]
    exact hd
  have hedit := hentry.edit (A := fun _ => True) fun _ _ _ _ _ _ => trivial
  have hunfilled : Unfilled s := by
    rcases hedit with rfl | hedit
    · exact hd
    · exact (unfilled_kept e.now).edit hd hedit
  cases t with
  | none =>
    rw [show step d e = s from hmatched]
    exact hunfilled
  | some taker =>
    obtain ⟨taker', hfills, -⟩ := hmatched
    have hsound : SoundRows s := by
      rcases hedit with rfl | hedit
      · exact hs
      · exact (sound_kept e.now _).edit hs hedit
    refine (hfills.invariant (I := Barren) (fun _ _ _ ht hm ho hp hc => barren_fill ht hm ho hp hc)
      ⟨hsound, hunfilled, ?_⟩).unfilled
    intro hpos maker hm hcross
    exact he taker ⟨s, hentry⟩ hpos maker (hentry.mem_of_crossable hm hcross) hcross

/-- **Locks without fills**: as long as no taker meets anything to fill, every locked balance is
what remains of the open SELL orders, and is zero once no order is open. -/
theorem locks_match_without_fills {d : OrdersDb} (hd : Initial d) {es : List Event}
    (hes : Along step NoFill d es) :
    Throughout step (fun d => LocksMatch d ∧
      ((∀ o ∈ d.orders.rows, ¬ o.Open) → ∀ b ∈ d.balances.rows, b.lockedBalance = 0)) d es := by
  let I : OrdersDb → Prop := fun d => (SoundRows d ∧ LockLedger d) ∧ Unfilled d
  have hstep : ∀ d e, I d → NoFill d e → I (step d e) := fun d e h he =>
    ⟨lockLedger_step d e h.1, unfilled_step d e h.1.1 h.2 he⟩
  have hinit : I d := by
    refine ⟨⟨hd.sound, hd.lockLedger⟩, ?_⟩
    intro o ho
    rw [hd.orders] at ho
    cases ho
  refine (throughout_of_invariant hstep hinit hes).mono ?_
  rintro d ⟨⟨hs, hledger⟩, hunfilled⟩
  have hmatch : LocksMatch d := (locksMatch_iff hs hledger).mpr fun o ho _ => hunfilled o ho
  refine ⟨hmatch, fun hclosed b hb => ?_⟩
  have hzero : ∀ o ∈ d.orders.rows, openSell b.key o = 0 := by
    intro o ho
    exact if_neg fun hc => hclosed o ho hc.2.2
  have hlocked : lockedBalanceOf d.balances b.key = d.orders.sum (openSell b.key) := hmatch _ _
  rw [lockedBalanceOf_of_find (Table.find_of_mem hb)] at hlocked
  rw [hlocked, Table.sum_congr (g := fun _ => 0) hzero]
  simp [Table.sum]

/-- A SELL order over ten units, cancelled again. -/
theorem locks_match_cancelled :
    Throughout step (fun d => LocksMatch d ∧
        ((∀ o ∈ d.orders.rows, ¬ o.Open) → ∀ b ∈ d.balances.rows, b.lockedBalance = 0))
      sellerDb [⟨0, placeLimit 1 1 .sell 10 100⟩, ⟨1, .cancel 1 1⟩] := by
  refine locks_match_without_fills sellerDb_initial ⟨?_, ?_, trivial⟩
  · rintro taker - - maker hmaker
    cases hmaker
  · rintro taker ⟨s, hentry⟩
    cases hentry

/-- A SELL order over ten units, and the BUY order that takes all of it: the ten units stay locked,
with no open order left. -/
theorem locks_kept_after_sale : Initial sellerDb ∧ ¬ LocksMatch (run step sellerDb
    [⟨0, placeLimit 1 1 .sell 10 100⟩, ⟨1, placeLimit 2 2 .buy 10 100⟩]) := by
  refine ⟨sellerDb_initial, fun h => ?_⟩
  have h₁ := h 1 1
  revert h₁
  decide +kernel

end Orders
