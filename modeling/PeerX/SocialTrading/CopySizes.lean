import PeerX.SocialTrading.Listener
import Mathlib.Algebra.Order.Field.Basic

/-!
# Social trading: the sizes of copied orders

The risk control sizes a copy by the trade and the multiplier of the subscription, and caps it by a
fraction of the follower's available balance. The cap is not applied when the balance is zero or the
subscription has none, and no other bound is: then a sale is copied that the follower cannot cover.

## Main results

* `cappedAmount_pos_iff`, `cappedAmount_le`: the size of a copy
* `resolveCopyAmount_eq_some_iff`: when a copy is made, and its size
* `withinLimits_iff`: when the sizes are within their limits
-/

namespace SocialTrading

open Orders (OrdersDb Order OrderSide)

/-- The order that `copyTradeForFollower` places, if it places one; `id` is the generated
identifier. -/
def copiedOrder (orders : OrdersDb) (master : TraderProfile) (event : TradeExecuted) (id : ℕ) (now : ℤ)
    (sub : CopySubscription) : Option Order := do
  let decision ← (resolveCopyAmount sub event.toTradeExecutedEvent
    (followerAvailable orders sub.followerUserId event.assetId) master.performanceFeePct).2
  let userId ← numericFollowerId sub.followerUserId
  return followerOrder id now userId event decision.amount

/-- The size of a copy is within its limits: it is positive, at most the trade times the
multiplier, at most the fraction of the balance if there is a cap, and for a sale at most the
balance. No copied sale is for more than the follower has available. -/
structure WithinLimits (sub : CopySubscription) (event : TradeExecuted) (available fee : ℚ) : Prop where
  amount : ∀ decision, (resolveCopyAmount sub event.toTradeExecutedEvent available fee).2 = some decision →
    0 < decision.amount ∧ decision.amount ≤ event.amount * sub.copyMultiplier ∧
      (0 < sub.maxOrderSizePct → decision.amount ≤ available * sub.maxOrderSizePct) ∧
      (event.side = .sell → decision.amount ≤ available)
  order : ∀ orders (master : TraderProfile) id now, followerAvailable orders sub.followerUserId event.assetId = available →
    master.performanceFeePct = fee → ∀ order, copiedOrder orders master event id now sub = some order →
      order.side = .sell → order.amount ≤ available

/-- The subscription lets orders of a type pass. -/
def CopySubscription.PassesFilter (sub : CopySubscription) (event : TradeExecutedEvent) : Prop :=
  sub.getOrderTypeFilterSet = [] ∨ orderTypeText event.orderType ∈ sub.getOrderTypeFilterSet

/-- The trade is copied: the subscription is active, lets the order type pass, has a share of
the trade and has not reached its daily loss. -/
structure IsCopied (sub : CopySubscription) (event : TradeExecutedEvent) : Prop where
  active : sub.status = .active
  passes : sub.PassesFilter event
  share : 0 < event.amount * sub.copyMultiplier
  loss : ¬ (0 < sub.maxDailyLoss ∧ sub.maxDailyLoss ≤ sub.intradayLoss)

/-- The balance covers the copy: it is not zero if there is a cap, and for a sale it reaches for
the share of the trade, or caps it. -/
structure Covered (sub : CopySubscription) (event : TradeExecuted) (available : ℚ) : Prop where
  cap : 0 < sub.maxOrderSizePct → 0 < available
  sale : event.side = .sell → event.amount * sub.copyMultiplier ≤ available ∨
    0 < available ∧ 0 < sub.maxOrderSizePct ∧ sub.maxOrderSizePct ≤ 1

variable {sub : CopySubscription} {event : TradeExecutedEvent} {available fee : ℚ}

/-- A copy has a size when the subscription has a share of the trade. -/
theorem cappedAmount_pos_iff : 0 < sub.cappedAmount event available ↔ 0 < event.amount * sub.copyMultiplier := by
  rw [CopySubscription.cappedAmount]
  split
  next hcap =>
    have hpos : 0 < available * sub.maxOrderSizePct := mul_pos hcap.2 hcap.1
    exact lt_min_iff.trans (and_iff_left hpos)
  next => exact Iff.rfl

theorem cappedAmount_le : sub.cappedAmount event available ≤ event.amount * sub.copyMultiplier := by
  rw [CopySubscription.cappedAmount]
  split
  · exact min_le_left _ _
  · exact le_rfl

theorem cappedAmount_le_cap (hcap : 0 < sub.maxOrderSizePct) (hpos : 0 < available) :
    sub.cappedAmount event available ≤ available * sub.maxOrderSizePct := by
  rw [CopySubscription.cappedAmount, if_pos ⟨hcap, hpos⟩]
  exact min_le_right _ _

/-- The size of a copy is at most the balance when the share of the trade is, or when the cap is
applied and is no more than the balance. -/
theorem cappedAmount_le_available_iff : sub.cappedAmount event available ≤ available ↔
    event.amount * sub.copyMultiplier ≤ available ∨
      0 < available ∧ 0 < sub.maxOrderSizePct ∧ sub.maxOrderSizePct ≤ 1 := by
  rw [CopySubscription.cappedAmount]
  split
  next hcap =>
    rw [min_le_iff, mul_le_iff_le_one_right hcap.2, and_iff_right hcap.2, and_iff_right hcap.1]
  next hcap =>
    refine (or_iff_left ?_).symm
    rintro ⟨hpos, hpct, -⟩
    exact hcap ⟨hpct, hpos⟩

/-- **When a copy is made, and its size**: whenever the trade is copied, at the capped amount. -/
theorem resolveCopyAmount_eq_some_iff (available fee amount : ℚ) :
    (∃ decision, (resolveCopyAmount sub event available fee).2 = some decision ∧ decision.amount = amount) ↔
      IsCopied sub event ∧ sub.cappedAmount event available = amount := by
  constructor
  · rintro ⟨decision, hdecision, rfl⟩
    unfold resolveCopyAmount at hdecision
    split at hdecision
    · cases hdecision
    next hactive =>
    split at hdecision
    · cases hdecision
    next hfilter =>
    split at hdecision
    · cases hdecision
    next hamount =>
    split at hdecision
    · cases hdecision
    next hloss =>
    have hcopied : IsCopied sub event :=
      ⟨not_not.mp hactive, or_iff_not_imp_left.mpr fun hne => by_contra fun hmem => hfilter ⟨hne, hmem⟩,
        cappedAmount_pos_iff.mp (not_le.mp hamount), hloss⟩
    -- with a fee or without one, the amount is the capped one
    dsimp only at hdecision
    split at hdecision
    all_goals
      obtain rfl := Option.some.inj hdecision
      exact ⟨hcopied, rfl⟩
  · rintro ⟨h, rfl⟩
    have hfilter : ¬ (sub.getOrderTypeFilterSet ≠ [] ∧ orderTypeText event.orderType ∉ sub.getOrderTypeFilterSet) :=
      fun hout => h.passes.elim hout.1 hout.2
    rw [resolveCopyAmount, if_neg (not_not.mpr h.active), if_neg hfilter,
      if_neg (not_le.mpr (cappedAmount_pos_iff.mpr h.share)), if_neg h.loss]
    dsimp only
    split
    · exact ⟨_, rfl, rfl⟩
    · exact ⟨_, rfl, rfl⟩

/-- **The sizes are within their limits** exactly when the balance covers the copy, if the trade is
copied at all. -/
theorem withinLimits_iff (sub : CopySubscription) (event : TradeExecuted) (available fee : ℚ) (h : 0 ≤ available) :
    WithinLimits sub event available fee ↔ (IsCopied sub event.toTradeExecutedEvent → Covered sub event available) := by
  constructor
  · intro hwithin hcopied
    obtain ⟨decision, hdecision, hsize⟩ := (resolveCopyAmount_eq_some_iff available fee _).mpr ⟨hcopied, rfl⟩
    obtain ⟨hpos, -, hcap, hsale⟩ := hwithin.amount decision hdecision
    constructor
    · intro hpct
      by_contra hzero
      -- a zero balance has no positive fraction
      obtain rfl := le_antisymm (not_lt.mp hzero) h
      rw [zero_mul] at hcap
      exact absurd hpos (not_lt.mpr (hcap hpct))
    · intro hside
      rw [hsize] at hsale
      exact cappedAmount_le_available_iff.mp (hsale hside)
  · intro hcovered
    have hamount : ∀ decision, (resolveCopyAmount sub event.toTradeExecutedEvent available fee).2 = some decision →
        0 < decision.amount ∧ decision.amount ≤ event.amount * sub.copyMultiplier ∧
          (0 < sub.maxOrderSizePct → decision.amount ≤ available * sub.maxOrderSizePct) ∧
          (event.side = .sell → decision.amount ≤ available) := by
      intro decision hdecision
      obtain ⟨hcopied, hsize⟩ := (resolveCopyAmount_eq_some_iff _ _ _).mp ⟨decision, hdecision, rfl⟩
      obtain ⟨hcap, hsale⟩ := hcovered hcopied
      rw [← hsize]
      exact ⟨cappedAmount_pos_iff.mpr hcopied.share, cappedAmount_le, fun hpct => cappedAmount_le_cap hpct (hcap hpct),
        fun hside => cappedAmount_le_available_iff.mpr (hsale hside)⟩
    refine ⟨hamount, ?_⟩
    rintro orders master id now rfl rfl order horder hside
    simp only [copiedOrder, Option.bind_eq_bind, Option.bind_eq_some_iff] at horder
    obtain ⟨decision, hdecision, userId, -, horder⟩ := horder
    obtain rfl := Option.some.inj horder
    exact (hamount decision hdecision).2.2.2 hside

/-- A follower at half the size of the master, with at most a tenth of the balance in one order. -/
def halfSize : CopySubscription where
  id := "s"
  followerUserId := "7"
  masterUserId := "m"
  status := .active
  copyMultiplier := 1 / 2
  maxDailyLoss := 0
  maxOrderSizePct := 1 / 10
  orderTypeFilter := ""
  pendingFees := 0
  realizedPnL := 0
  intradayPnLBaseline := 0

/-- The master sells 10 units. -/
def tenSold : TradeExecuted where
  masterUserId := "m"
  amount := 10
  price := 3
  totalValue := 30
  orderType := .market
  assetId := 1
  side := .sell

/-- With 20 units the follower sells 2 of them. -/
theorem withinLimits_iff_halfSize : WithinLimits halfSize tenSold 20 5 ∧
    (resolveCopyAmount halfSize tenSold.toTradeExecutedEvent 20 5).2 = some ⟨2, true, 3 / 2⟩ := by
  refine ⟨(withinLimits_iff halfSize tenSold 20 5 (by decide +kernel)).mpr fun _ => ⟨?_, fun _ => .inr ?_⟩,
    by decide +kernel⟩
  · intro _
    decide +kernel
  · decide +kernel

/-- **A follower without a ledger row sells**: the cap is left out, and the copied order is for 5
units. -/
theorem not_withinLimits_halfSize : ¬ WithinLimits halfSize tenSold 0 5 ∧
    ∀ orders, followerAvailable orders halfSize.followerUserId tenSold.assetId = 0 → ∀ master : TraderProfile,
      copiedOrder orders master tenSold 1 0 halfSize = some (followerOrder 1 0 7 tenSold 5) := by
  constructor
  · intro h
    obtain ⟨-, -, -, hsale⟩ := h.amount ⟨5, true, 3 / 2⟩ (by decide +kernel)
    exact absurd (hsale rfl) (by decide +kernel)
  · intro orders horders master
    have hcopied : IsCopied halfSize tenSold.toTradeExecutedEvent :=
      ⟨rfl, .inl rfl, by decide +kernel, by decide +kernel⟩
    obtain ⟨decision, hdecision, hamount⟩ := (resolveCopyAmount_eq_some_iff 0
      master.performanceFeePct 5).mpr ⟨hcopied, by decide +kernel⟩
    have huser : numericFollowerId halfSize.followerUserId = some 7 := by decide +kernel
    simp [copiedOrder, horders, hdecision, huser, hamount]

end SocialTrading
