import PeerX.SocialTrading.Subscriptions

/-!
# Social trading: the daily loss limit

The realized P&L of a subscription only grows: a copy adds the value of the trade without the fee.
The baseline of the day is a value that it had before. So the loss of the day is zero, whatever the
calls, and no copy ever reaches the limit at which its subscription is paused.
-/

namespace SocialTrading

open Relational Concurrency

/-- No loss since the baseline, and not paused for a loss. -/
structure CopySubscription.Profitable (sub : CopySubscription) : Prop where
  baseline_le : sub.intradayPnLBaseline ≤ sub.realizedPnL
  not_paused : sub.status ≠ .pausedDailyLoss

/-- A performance fee, in percent. -/
def IsFee (performanceFeePct : ℚ) : Prop := 0 ≤ performanceFeePct ∧ performanceFeePct ≤ 100

instance : DecidablePred IsFee := fun _ => inferInstanceAs (Decidable (_ ∧ _))

namespace CopySubscription

variable {sub saved : CopySubscription} {event : TradeExecutedEvent} {balance fee : ℚ}

/-- A subscription without a loss has no intraday loss. -/
theorem Profitable.intradayLoss_eq_zero (h : sub.Profitable) : sub.intradayLoss = 0 :=
  max_eq_left (neg_nonpos.mpr (sub_nonneg.mpr h.baseline_le))

theorem fee_le_totalValue (hvalue : 0 ≤ event.totalValue) (hfee : IsFee fee) :
    event.totalValue * (fee / 100) ≤ event.totalValue := by
  have hshare : fee / 100 ≤ 1 := by
    rw [div_le_iff₀ (by norm_num), one_mul]
    exact hfee.2
  exact mul_le_of_le_one_right hvalue hshare

/-- The risk control never pauses a profitable subscription: one that it saves keeps its
status. -/
theorem Profitable.not_pauses (h : sub.Profitable) (hsaved : (resolveCopyAmount sub event balance fee).1 = some saved) :
    saved.status = .active ∧ saved.intradayPnLBaseline = sub.intradayPnLBaseline ∧
      saved.realizedPnL = sub.realizedPnL + (event.totalValue - event.totalValue * (fee / 100)) := by
  unfold resolveCopyAmount at hsaved
  split at hsaved
  · cases hsaved
  next hactive =>
    split at hsaved
    · cases hsaved
    split at hsaved
    · cases hsaved
    split at hsaved
    next hlimit =>
      -- the limit is positive, the loss is zero
      rw [h.intradayLoss_eq_zero] at hlimit
      exact absurd hlimit.2 (not_le.mpr hlimit.1)
    dsimp only at hsaved
    split at hsaved
    · obtain rfl := Option.some.inj hsaved
      exact ⟨not_not.mp hactive, rfl, rfl⟩
    · cases hsaved

/-- A decision of the risk control keeps a subscription profitable. -/
theorem Profitable.resolveCopyAmount (h : sub.Profitable) (hvalue : 0 ≤ event.totalValue) (hfee : IsFee fee)
    (hsaved : (resolveCopyAmount sub event balance fee).1 = some saved) : saved.Profitable := by
  obtain ⟨hstatus, hbaseline, hrealized⟩ := h.not_pauses hsaved
  have hgain : 0 ≤ event.totalValue - event.totalValue * (fee / 100) :=
    sub_nonneg.mpr (fee_le_totalValue hvalue hfee)
  constructor
  · rw [hbaseline, hrealized]
    exact h.baseline_le.trans (le_add_of_nonneg_right hgain)
  · rw [hstatus]
    decide

theorem Profitable.copied (h : sub.Profitable) {master : TraderProfile} (copies : Copies)
    (hvalue : 0 ≤ event.totalValue) (hfee : IsFee master.performanceFeePct) :
    (sub.copied master event copies).Profitable := by
  unfold CopySubscription.copied
  cases hsaved : (SocialTrading.resolveCopyAmount sub event _ _).1 with
  | none => exact h
  | some saved => exact h.resolveCopyAmount hvalue hfee hsaved

/-- An update moves the baseline to the realized P&L, or leaves it, and pauses for no loss. -/
theorem Profitable.update (h : sub.Profitable) (dto : UpdateCopySubscriptionDto) : (sub.update dto).Profitable := by
  constructor
  · rw [show (sub.update dto).intradayPnLBaseline = sub.intradayPnLBaseline from
      if_neg fun hpaused => h.not_paused hpaused.2]
    exact h.baseline_le
  · unfold CopySubscription.update
    dsimp only
    cases dto.isActive with
    | none => exact h.not_paused
    | some isActive => cases isActive <;> nofun

theorem Profitable.reset (h : sub.Profitable) : sub.reset.Profitable := by
  unfold CopySubscription.reset
  rw [if_neg h.not_paused]
  split
  · exact h
  · exact ⟨le_rfl, h.not_paused⟩

theorem Profitable.unsubscribed (h : sub.Profitable) :
    CopySubscription.Profitable { sub with status := .unsubscribed } := ⟨h.baseline_le, nofun⟩

theorem profitable_new (followerUserId : String) (dto : CreateCopySubscriptionDto) (id : String) :
    (newSubscription followerUserId dto id).Profitable := ⟨le_rfl, nofun⟩

end CopySubscription

/-- A step: the risk control decides about a stored subscription, or a call is served. -/
inductive RiskStep : Type
  | resolveCopyAmount (subscriptionId : String) (event : TradeExecutedEvent)
      (followerAvailableBalance performanceFeePct : ℚ)
  | call (call : SocialCall)

/-- The tables after a step. -/
def riskStep (db : SocialDb) : RiskStep → SocialDb
  | .resolveCopyAmount subscriptionId event followerAvailableBalance performanceFeePct =>
    match db.subscriptions.find subscriptionId with
    | none => db
    | some sub =>
      (resolveCopyAmount sub event followerAvailableBalance performanceFeePct).1.elim db fun saved =>
        { db with subscriptions := db.subscriptions.save saved }
  | .call call => serve db call

/-- The values are within bounds: no trade has a negative value, and a fee is a percentage. -/
def WithinBounds (db : SocialDb) : RiskStep → Prop
  | .resolveCopyAmount _ event _ performanceFeePct => 0 ≤ event.totalValue ∧ IsFee performanceFeePct
  | .call (.handleTradeExecuted event _) =>
    0 ≤ event.totalValue ∧ ∀ master ∈ db.profiles.find event.masterUserId, IsFee master.performanceFeePct
  | .call _ => True

instance (db : SocialDb) : DecidablePred (WithinBounds db) := fun step => by
  cases step with
  | resolveCopyAmount => exact inferInstanceAs (Decidable (_ ∧ _))
  | call call =>
    cases call with
    | handleTradeExecuted => exact inferInstanceAs (Decidable (_ ∧ _))
    | _ => exact inferInstanceAs (Decidable True)

/-- Every subscription is profitable. -/
def AllProfitable (db : SocialDb) : Prop := ∀ sub ∈ db.subscriptions.rows, sub.Profitable

variable {db : SocialDb}

/-- A saved subscription that is profitable, among others that are. -/
theorem AllProfitable.save (h : AllProfitable db) {saved : CopySubscription} (hsaved : saved.Profitable)
    {profiles : Table TraderProfile.userId} : AllProfitable ⟨profiles, db.subscriptions.save saved⟩ := by
  intro sub hsub
  rcases Table.mem_save.mp hsub with rfl | ⟨hsub, -⟩
  · exact hsaved
  · exact h sub hsub

/-- A step keeps the subscriptions profitable. -/
theorem allProfitable_step (db : SocialDb) (step : RiskStep) (h : AllProfitable db) (hstep : WithinBounds db step) :
    AllProfitable (riskStep db step) := by
  cases step with
  | resolveCopyAmount subscriptionId event balance fee =>
    cases hsub : db.subscriptions.find subscriptionId with
    | none => simpa [riskStep, hsub] using h
    | some sub =>
      simp only [riskStep, hsub]
      cases hsaved : (resolveCopyAmount sub event balance fee).1 with
      | none => exact h
      | some saved =>
        exact h.save ((h sub (Table.mem_of_find hsub)).resolveCopyAmount hstep.1 hstep.2 hsaved)
  | call call =>
    have hdoes := does_serve db call
    rw [riskStep]
    generalize serve db call = db' at hdoes
    cases hdoes with
    | refuses | createsProfile | updatesProfile => exact h
    | subscribes => exact h.save (CopySubscription.profitable_new _ _ _)
    | updates hsub => exact h.save ((h _ (Table.mem_of_find hsub)).update _)
    | @unsubscribes _ sub _ hsub _ =>
      exact h.save (h sub (Table.mem_of_find hsub)).unsubscribed
    | @copies event copies _ master _ ids hmaster hrows _ =>
      intro sub hsub
      rw [hrows] at hsub
      obtain ⟨old, hold, rfl⟩ := List.mem_map.mp hsub
      -- the subscriptions that are copied into change, the others stay
      unfold CopySubscription.copiedIn
      split
      · exact (h old hold).copied copies hstep.1 (hstep.2 master hmaster)
      · exact h old hold
    | resets hrows =>
      intro sub hsub
      rw [hrows] at hsub
      obtain ⟨old, hold, rfl⟩ := List.mem_map.mp hsub
      exact (h old hold).reset

/-- **The realized P&L is never below the baseline of the day**: in every state of a run, no
subscription has an intraday loss or is paused for one, and no decision of the risk control pauses
one. -/
theorem never_paused {steps : List RiskStep} (hsteps : Along riskStep WithinBounds .initial steps) :
    Throughout riskStep (fun db => ∀ sub ∈ db.subscriptions.rows,
      sub.intradayPnLBaseline ≤ sub.realizedPnL ∧ sub.intradayLoss = 0 ∧ sub.status ≠ .pausedDailyLoss ∧
        ∀ event balance fee saved, (resolveCopyAmount sub event balance fee).1 = some saved →
          saved.status ≠ .pausedDailyLoss) .initial steps := by
  have hinitial : AllProfitable .initial := fun sub hsub => by cases hsub
  refine (throughout_of_invariant allProfitable_step hinitial hsteps).mono fun db h sub hsub => ?_
  have hprofit := h sub hsub
  refine ⟨hprofit.baseline_le, hprofit.intradayLoss_eq_zero, hprofit.not_paused, ?_⟩
  intro event balance fee saved hsaved
  rw [(hprofit.not_pauses hsaved).1]
  decide

/-- A follower with a loss limit copies a trade of 1000 units at a fee of 20 percent; then the day
ends, and another trade is copied at a fee of 100 percent. -/
def limited : List RiskStep :=
  [.call (.createProfile "m" ⟨"Mia", none, .public, 20⟩ "p"),
    .call (.subscribe "f" ⟨"m", none, some 5, none, none⟩ "s"),
    .resolveCopyAmount "s" ⟨"m", 10, 100, 1000, .market⟩ 100 20,
    .call .dailyReset,
    .resolveCopyAmount "s" ⟨"m", 10, 100, 1000, .market⟩ 100 100,
    .call (.updateSubscription "f" "s" ⟨none, some 1, none, none, some true⟩)]

/-- Its subscription has made 800 units, all of them before the day began. -/
theorem never_paused_limited :
    (Throughout riskStep (fun db => ∀ sub ∈ db.subscriptions.rows,
      sub.intradayPnLBaseline ≤ sub.realizedPnL ∧ sub.intradayLoss = 0 ∧ sub.status ≠ .pausedDailyLoss ∧
        ∀ event balance fee saved, (resolveCopyAmount sub event balance fee).1 = some saved →
          saved.status ≠ .pausedDailyLoss) .initial limited) ∧
      ((run riskStep .initial limited).subscriptions.rows.map fun sub =>
        (sub.realizedPnL, sub.intradayPnLBaseline)) = [(800, 800)] :=
  ⟨never_paused (by decide +kernel), by decide +kernel⟩

end SocialTrading
