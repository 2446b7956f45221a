import PeerX.SocialTrading.Entities
import PeerX.Foundations.Runs

/-!
# Social trading: the services

The social-trading service, the risk control, the listener that mirrors the trades of a master, and
the nightly reset, as functions on the tables. A call that throws has written nothing. The listener
reads the available balances of the followers and opens a transaction for every mirrored order; both
are what the orders make of them, and are given with the event.
-/

namespace SocialTrading

open Relational Concurrency

/-- `SocialTradingService.createProfile`; `id` is the generated identifier. -/
def createProfile (db : SocialDb) (userId : String) (dto : CreateTraderProfileDto) (id : String) :
    Except SocialError (TraderProfile × SocialDb) :=
  match db.profiles.find userId with
  | some existing => .error (.conflict
      s!"Profile already exists for user {userId} (id={existing.id}); use PATCH to update")
  | none =>
    let profile : TraderProfile :=
      { id
        userId
        displayName := dto.displayName
        bio := dto.bio
        visibility := dto.visibility
        performanceFeePct := dto.performanceFeePct
        isAcceptingCopiers := true
        totalSubscribers := 0
        totalCopiedVolume := 0
        realizedFollowerPnL := 0 }
    .ok (profile, { db with profiles := db.profiles.save profile })

def updateProfile (db : SocialDb) (userId : String) (dto : UpdateTraderProfileDto) :
    Except SocialError (TraderProfile × SocialDb) :=
  match db.profiles.find userId with
  | none => .error (.notFound s!"No profile for user {userId}")
  | some profile =>
    let saved : TraderProfile :=
      { profile with
        displayName := dto.displayName.getD profile.displayName
        bio := dto.bio.or profile.bio
        visibility := dto.visibility.getD profile.visibility
        performanceFeePct := dto.performanceFeePct.getD profile.performanceFeePct
        isAcceptingCopiers := dto.isAcceptingCopiers.getD profile.isAcceptingCopiers }
    .ok (saved, { db with profiles := db.profiles.save saved })

/-- `(orderTypeFilter ?? []).join(',')`. -/
def filterString (orderTypeFilter : List CopyOrderTypeFilter) : String :=
  ",".intercalate (orderTypeFilter.map CopyOrderTypeFilter.text)

/-- The follower has an `ACTIVE` subscription to the master. -/
def SocialDb.isSubscribed (db : SocialDb) (followerUserId masterUserId : String) : Bool :=
  db.subscriptions.rows.any fun sub => sub.pair = (followerUserId, masterUserId) ∧ sub.status = .active

/-- The subscription that `subscribe` creates. -/
def newSubscription (followerUserId : String) (dto : CreateCopySubscriptionDto) (id : String) : CopySubscription :=
  { id
    followerUserId
    masterUserId := dto.masterUserId
    status := .active
    copyMultiplier := dto.copyMultiplier.getD 1
    maxDailyLoss := dto.maxDailyLoss.getD 0
    maxOrderSizePct := dto.maxOrderSizePct.getD 0
    orderTypeFilter := filterString (dto.orderTypeFilter.getD [])
    pendingFees := 0
    realizedPnL := 0
    intradayPnLBaseline := 0 }

/-- The profile with `n` subscribers more. -/
def TraderProfile.addSubscribers (profile : TraderProfile) (n : ℤ) : TraderProfile :=
  { profile with totalSubscribers := profile.totalSubscribers + n }

/-- `SocialTradingService.subscribe`; `id` is the generated identifier. -/
def subscribe (db : SocialDb) (followerUserId : String) (dto : CreateCopySubscriptionDto) (id : String) :
    Except SocialError (CopySubscription × SocialDb) :=
  if followerUserId = dto.masterUserId then
    .error (.badRequest "Cannot subscribe to your own profile")
  else
    match db.profiles.find dto.masterUserId with
    | none => .error (.notFound s!"Master profile not found for user {dto.masterUserId}")
    | some master =>
      if master.isAcceptingCopiers = false then
        .error (.badRequest s!"Master {dto.masterUserId} is not accepting copiers")
      else if master.visibility = .private then
        .error (.badRequest s!"Master {dto.masterUserId} has a PRIVATE profile")
      else if db.isSubscribed followerUserId dto.masterUserId then
        .error (.conflict s!"Already subscribed to master {dto.masterUserId}")
      else if (db.subscriptions.find id).isSome then
        .error .duplicateKey
      else
        let sub := newSubscription followerUserId dto id
        .ok (sub,
          { db with
            subscriptions := db.subscriptions.save sub
            profiles := db.profiles.save (master.addSubscribers 1) })

/-- The fields that `updateSubscription` changes. -/
def CopySubscription.update (sub : CopySubscription) (dto : UpdateCopySubscriptionDto) : CopySubscription :=
  { sub with
    copyMultiplier := dto.copyMultiplier.getD sub.copyMultiplier
    maxDailyLoss := dto.maxDailyLoss.getD sub.maxDailyLoss
    maxOrderSizePct := dto.maxOrderSizePct.getD sub.maxOrderSizePct
    orderTypeFilter := (dto.orderTypeFilter.map filterString).getD sub.orderTypeFilter
    intradayPnLBaseline :=
      if dto.isActive.isSome ∧ sub.status = .pausedDailyLoss then sub.realizedPnL else sub.intradayPnLBaseline
    status := (dto.isActive.map fun isActive =>
      if isActive then SubscriptionStatus.active else SubscriptionStatus.paused).getD sub.status }

def updateSubscription (db : SocialDb) (followerUserId subscriptionId : String) (dto : UpdateCopySubscriptionDto) :
    Except SocialError (CopySubscription × SocialDb) :=
  match db.subscriptions.find subscriptionId with
  | none => .error (.notFound s!"Subscription {subscriptionId} not found")
  | some sub =>
    if sub.followerUserId ≠ followerUserId then
      .error (.notFound s!"Subscription {subscriptionId} not found")
    else
      .ok (sub.update dto, { db with subscriptions := db.subscriptions.save (sub.update dto) })

def unsubscribe (db : SocialDb) (followerUserId subscriptionId : String) :
    Except SocialError (CopySubscription × SocialDb) :=
  match db.subscriptions.find subscriptionId with
  | none => .error (.notFound s!"Subscription {subscriptionId} not found")
  | some sub =>
    if sub.followerUserId ≠ followerUserId then
      .error (.notFound s!"Subscription {subscriptionId} not found")
    else
      let saved : CopySubscription := { sub with status := .unsubscribed }
      let db' := { db with subscriptions := db.subscriptions.save saved }
      match db'.profiles.find sub.masterUserId with
      | none => .ok (saved, db')
      | some master =>
        if 0 < master.totalSubscribers then
          .ok (saved, { db' with profiles := db'.profiles.save (master.addSubscribers (-1)) })
        else
          .ok (saved, db')

/-- A copy that the risk control admits. -/
structure CopyDecision where
  amount : ℚ
  feeAccrued : Bool
  fee : ℚ
deriving DecidableEq

/-- `rawAmount`, capped by the fraction of the follower's balance. -/
def CopySubscription.cappedAmount (sub : CopySubscription) (event : TradeExecutedEvent)
    (followerAvailableBalance : ℚ) : ℚ :=
  let rawAmount := event.amount * sub.copyMultiplier
  if 0 < sub.maxOrderSizePct ∧ 0 < followerAvailableBalance then
    min rawAmount (followerAvailableBalance * sub.maxOrderSizePct)
  else rawAmount

def CopySubscription.intradayLoss (sub : CopySubscription) : ℚ :=
  max 0 (-(sub.realizedPnL - sub.intradayPnLBaseline))

/-- `RiskControlService.resolveCopyAmount`: the subscription that it saves, if it saves one, and the
decision. -/
def resolveCopyAmount (sub : CopySubscription) (event : TradeExecutedEvent)
    (followerAvailableBalance performanceFeePct : ℚ) : Option CopySubscription × Option CopyDecision :=
  if sub.status ≠ .active then (none, none)
  else if sub.getOrderTypeFilterSet ≠ [] ∧ orderTypeText event.orderType ∉ sub.getOrderTypeFilterSet then
    (none, none)
  else if sub.cappedAmount event followerAvailableBalance ≤ 0 then (none, none)
  else if 0 < sub.maxDailyLoss ∧ sub.maxDailyLoss ≤ sub.intradayLoss then
    (some { sub with status := .pausedDailyLoss }, none)
  else
    let fee := event.totalValue * (performanceFeePct / 100)
    if 0 < fee then
      (some
        { sub with
          pendingFees := sub.pendingFees + fee
          realizedPnL := sub.realizedPnL + (event.totalValue - fee) },
        some ⟨sub.cappedAmount event followerAvailableBalance, true, fee⟩)
    else (none, some ⟨sub.cappedAmount event followerAvailableBalance, false, 0⟩)

/-- The subscription with its losses counted from now. -/
def CopySubscription.rebaselined (sub : CopySubscription) : CopySubscription :=
  { sub with intradayPnLBaseline := sub.realizedPnL }

/-- The subscription, no longer paused. -/
def CopySubscription.unpaused (sub : CopySubscription) : CopySubscription :=
  { sub with
    status := .active
    intradayPnLBaseline := sub.realizedPnL }

/-- `RiskControlService.rollbackDailyReset`: the number of subscriptions it unpauses, and the
tables. -/
def rollbackDailyReset (db : SocialDb) : ℕ × SocialDb :=
  let paused := db.subscriptions.rows.filter fun sub => sub.status = .pausedDailyLoss
  (paused.length, { db with subscriptions := Table.saveAll CopySubscription.unpaused paused db.subscriptions })

def dailyReset (db : SocialDb) : SocialDb :=
  let actives := db.subscriptions.rows.filter fun sub => sub.status = .active ∨ sub.status = .paused
  (rollbackDailyReset
    { db with subscriptions := Table.saveAll CopySubscription.rebaselined actives db.subscriptions }).2

/-- What the orders make of the copies: the available balances of the followers, and the
subscriptions whose mirrored order goes through. -/
structure Copies where
  available : String → ℚ
  mirrored : String → Bool

/-- The tables and the deltas in the loop of the listener. -/
structure CopyState where
  db : SocialDb
  totalCopiedVolumeDelta : ℚ
  realizedFollowerPnLDelta : ℚ

/-- `CopyTradingListener.copyTradeForFollower`, and the deltas that the loop adds. An exception of
the mirrored order is caught. -/
def copyTradeForFollower (master : TraderProfile) (event : TradeExecutedEvent) (copies : Copies) (s : CopyState)
    (sub : CopySubscription) : CopyState :=
  let resolved := resolveCopyAmount sub event (copies.available sub.followerUserId) master.performanceFeePct
  let db := resolved.1.elim s.db fun saved =>
    { s.db with subscriptions := s.db.subscriptions.save saved }
  match resolved.2 with
  | none => { s with db }
  | some decision =>
    if copies.mirrored sub.id then
      { db
        totalCopiedVolumeDelta := s.totalCopiedVolumeDelta + decision.amount
        realizedFollowerPnLDelta :=
          s.realizedFollowerPnLDelta + if decision.feeAccrued then decision.amount * event.price else 0 }
    else { s with db }

/-- `master` with the deltas of the loop, when they are saved. -/
def TraderProfile.addCopies (master : TraderProfile) (s : CopyState) : TraderProfile :=
  { master with
    totalCopiedVolume := master.totalCopiedVolume + s.totalCopiedVolumeDelta
    realizedFollowerPnL := master.realizedFollowerPnL + s.realizedFollowerPnLDelta }

/-- The subscriptions that the listener reads. -/
def SocialDb.copiers (db : SocialDb) (masterUserId : String) : List CopySubscription :=
  db.subscriptions.rows.filter fun sub =>
    sub.masterUserId = masterUserId ∧ (sub.status = .active ∨ sub.status = .pausedDailyLoss)

def handleTradeExecuted (db : SocialDb) (event : TradeExecutedEvent) (copies : Copies) : SocialDb :=
  if event.masterUserId = "" then db
  else if db.copiers event.masterUserId = [] then db
  else
    match db.profiles.find event.masterUserId with
    | none => db
    | some master =>
      if master.isAcceptingCopiers = false then db
      else
        let s := (db.copiers event.masterUserId).foldl (copyTradeForFollower master event copies) ⟨db, 0, 0⟩
        if 0 < s.totalCopiedVolumeDelta ∨ 0 < s.realizedFollowerPnLDelta then
          { s.db with profiles := s.db.profiles.save (master.addCopies s) }
        else s.db

/-- A request to the service, a trade of a master, or the nightly reset. -/
inductive SocialCall : Type
  | createProfile (userId : String) (dto : CreateTraderProfileDto) (id : String)
  | updateProfile (userId : String) (dto : UpdateTraderProfileDto)
  | subscribe (followerUserId : String) (dto : CreateCopySubscriptionDto) (id : String)
  | updateSubscription (followerUserId subscriptionId : String) (dto : UpdateCopySubscriptionDto)
  | unsubscribe (followerUserId subscriptionId : String)
  | handleTradeExecuted (event : TradeExecutedEvent) (copies : Copies)
  | dailyReset

/-- The tables after a call of the service: those before it, when it throws. -/
def after {α : Type} (db : SocialDb) (result : Except SocialError (α × SocialDb)) : SocialDb :=
  match result with
  | .ok (_, db') => db'
  | .error _ => db

/-- The tables after a call. -/
def serve (db : SocialDb) : SocialCall → SocialDb
  | .createProfile userId dto id => after db (createProfile db userId dto id)
  | .updateProfile userId dto => after db (updateProfile db userId dto)
  | .subscribe followerUserId dto id => after db (subscribe db followerUserId dto id)
  | .updateSubscription followerUserId subscriptionId dto =>
    after db (updateSubscription db followerUserId subscriptionId dto)
  | .unsubscribe followerUserId subscriptionId => after db (unsubscribe db followerUserId subscriptionId)
  | .handleTradeExecuted event copies => handleTradeExecuted db event copies
  | .dailyReset => dailyReset db

end SocialTrading
