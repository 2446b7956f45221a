import PeerX.SocialTrading.Listener
import PeerX.Sharding.Entities
import PeerX.Foundations.RecentGroups
import PeerX.Foundations.JsMap

/-!
# Social trading: the feed

The feed reads a window of the most recent trades of the masters that a user follows, and goes
through it master by master until it has enough entries. Only then are the entries sorted. So the
order of the subscriptions decides what is shown, and a master with two subscriptions is shown
twice. An id that only begins with digits is read as a number too.
-/

namespace SocialTrading

open Relational RecentGroups
open Sharding (Trade)

/-! ## The service -/

structure SocialFeedEntryDto where
  id : String
  masterUserId : String
  masterDisplayName : String
  masterVisibility : StrategyVisibility
  asset : String
  side : String
  amount : ℚ
  price : ℚ
  totalValue : ℚ
  timestamp : ℤ
deriving DecidableEq

/-- The entry of a trade, under a user id of its master. -/
def feedEntry (id : String) (master : TraderProfile) (t : Trade) : SocialFeedEntryDto where
  id := t.id
  masterUserId := id
  masterDisplayName := master.displayName
  masterVisibility := master.visibility
  asset := t.asset
  side := t.type
  amount := t.amount
  price := t.price
  totalValue := t.totalValue
  timestamp := t.timestamp

/-- The subscriptions that the feed reads. -/
def followedSubscriptions (db : SocialDb) (followerUserId : String) : List CopySubscription :=
  db.subscriptions.rows.filter fun s =>
    s.followerUserId = followerUserId ∧ s.status ∈ [SubscriptionStatus.active, .paused, .pausedDailyLoss]

def masterIds (db : SocialDb) (followerUserId : String) : List String :=
  (followedSubscriptions db followerUserId).map CopySubscription.masterUserId

/-- The trades that the feed reads: the most recent ones of the numeric ids. Those of one time come
in the order of the table. -/
def feedWindow (trades : Table Trade.id) (numericIds : List ℤ) (limit : ℕ) : List Trade :=
  (byRecency Trade.timestamp (trades.rows.filter fun t => t.userId ∈ numericIds)).take (limit * 6)

def tradesByUserNumeric (trades : List Trade) : JsMap ℤ (List Trade) :=
  trades.foldl (fun m t => m.set t.userId ((m.get t.userId).getD [] ++ [t])) JsMap.new

/-- The loop over the trades of a master. -/
def pushTrades (limit : ℕ) (id : String) (master : TraderProfile) :
    List Trade → List SocialFeedEntryDto → List SocialFeedEntryDto
  | [], result => result
  | t :: ts, result =>
    let result := result ++ [feedEntry id master t]
    if limit ≤ result.length then result else pushTrades limit id master ts result

/-- The loop over the masters. -/
def pushMasters (db : SocialDb) (limit : ℕ) (byUser : JsMap ℤ (List Trade)) :
    List String → List SocialFeedEntryDto → List SocialFeedEntryDto
  | [], result => result
  | id :: ids, result =>
    match db.profiles.find id with
    | none => pushMasters db limit byUser ids result
    | some master =>
      let masterTrades := (parseInt id).elim [] fun numericId => (byUser.get numericId).getD []
      let result := pushTrades limit id master masterTrades result
      if limit ≤ result.length then result else pushMasters db limit byUser ids result

def getSocialFeed (db : SocialDb) (trades : Table Trade.id) (followerUserId : String) (limit : ℕ) :
    List SocialFeedEntryDto :=
  if followedSubscriptions db followerUserId = [] then []
  else
    let masterIds := masterIds db followerUserId
    let numericIds := masterIds.filterMap parseInt
    if numericIds = [] then []
    else
      let result := pushMasters db limit (tradesByUserNumeric (feedWindow trades numericIds limit)) masterIds []
      (byRecency SocialFeedEntryDto.timestamp result).take limit

/-! ## What the feed is for -/

/-- The number of a numeric id: it has digits only. -/
def numericId (id : String) : Option ℤ := if id.toList.all Char.isDigit then parseInt id else none

/-- The users that are followed, in the order of the subscriptions: the masters with a profile and a
numeric id. -/
def followedUsers (db : SocialDb) (followerUserId : String) : List ℤ :=
  (masterIds db followerUserId).filterMap fun id => (db.profiles.find id).bind fun _ => numericId id

/-- The trades that a feed is about. -/
def followedTrades (db : SocialDb) (trades : Table Trade.id) (followerUserId : String) : List Trade :=
  trades.rows.filter fun t => t.userId ∈ followedUsers db followerUserId

/-- An entry shows a trade, under one of the masters that are followed. -/
def Shows (db : SocialDb) (followerUserId : String) (entry : SocialFeedEntryDto) (t : Trade) : Prop :=
  ∃ id ∈ masterIds db followerUserId, ∃ master, db.profiles.find id = some master ∧ numericId id = some t.userId ∧
    entry = feedEntry id master t

/-- A feed is right: it shows the most recent trades of the masters that are followed, each
once, and most recent first. -/
def IsFeed (db : SocialDb) (trades : Table Trade.id) (followerUserId : String) (limit : ℕ)
    (feed : List SocialFeedEntryDto) : Prop :=
  ∃ shown, List.Forall₂ (Shows db followerUserId) feed shown ∧
    MostRecent Trade.timestamp limit (followedTrades db trades followerUserId) shown

/-- The trades that the service reads for a follower. -/
def windowOf (db : SocialDb) (trades : Table Trade.id) (followerUserId : String) (limit : ℕ) : List Trade :=
  feedWindow trades ((masterIds db followerUserId).filterMap parseInt) limit

/-- The trades of the window that are shown for an id. -/
def tradesUnder (db : SocialDb) (window : List Trade) (id : String) : List Trade :=
  (db.profiles.find id).elim [] fun _ => (parseInt id).elim [] fun n => window.filter fun t => t.userId = n

/-- The subscriptions come in order, for the trades of the window. -/
def SubscriptionsInOrder (db : SocialDb) (trades : Table Trade.id) (followerUserId : String) (limit : ℕ) : Prop :=
  InOrder Trade.timestamp Trade.userId limit (followedUsers db followerUserId)
    (followedTrades db trades followerUserId) (windowOf db trades followerUserId limit)

/-- No other id is read as a number: before there are enough trades, the window has none for an
id that is not numeric. -/
def MastersNumeric (db : SocialDb) (trades : Table Trade.id) (followerUserId : String) (limit : ℕ) : Prop :=
  ∀ before id after, masterIds db followerUserId = before ++ id :: after → (numericId id).isSome = false →
    (before.flatMap (tradesUnder db (windowOf db trades followerUserId limit))).length < limit →
    tradesUnder db (windowOf db trades followerUserId limit) id = []

variable {db : SocialDb} {trades : Table Trade.id} {followerUserId : String} {limit : ℕ}

/-! ## What the loops gather -/

theorem get_tradesByUserNumeric (trades : List Trade) (n : ℤ) :
    ((tradesByUserNumeric trades).get n).getD [] = trades.filter fun t => t.userId = n := by
  induction trades using List.reverseRecOn with
  | nil => rfl
  | append_singleton trades t ih =>
    rw [tradesByUserNumeric, List.foldl_append, List.foldl_cons, List.foldl_nil, JsMap.get_set, List.filter_append]
    change (if n = t.userId then _ else (tradesByUserNumeric trades).get n).getD [] = _
    split
    next heq =>
      subst heq
      change ((tradesByUserNumeric trades).get t.userId).getD [] ++ [t] = _
      rw [ih]
      simp
    next hne =>
      rw [ih]
      simp [Ne.symm hne]

theorem pushTrades_eq (id : String) (master : TraderProfile) {ts : List Trade} {result : List SocialFeedEntryDto}
    (h : result.length < limit) :
    pushTrades limit id master ts result = (result ++ ts.map (feedEntry id master)).take limit := by
  induction ts generalizing result with
  | nil => simp [pushTrades, List.take_of_length_le h.le]
  | cons t ts ih =>
    rw [pushTrades, List.map_cons, List.append_cons result (feedEntry id master t) (ts.map _)]
    have hlength : (result ++ [feedEntry id master t]).length = result.length + 1 := List.length_append
    split
    next hfull =>
      -- the limit is reached
      rw [List.take_append_of_le_length hfull, List.take_of_length_le (by omega)]
    next hmore => exact ih (not_le.mp hmore)

/-- The entries of a master. -/
def entriesOf (db : SocialDb) (window : List Trade) (id : String) : List SocialFeedEntryDto :=
  (db.profiles.find id).elim [] fun master => (tradesUnder db window id).map (feedEntry id master)

/-- **What the loops gather**: the entries of the masters, one after the other, up to the limit. -/
theorem pushMasters_eq (window : List Trade) {ids : List String} {result : List SocialFeedEntryDto}
    (h : result.length < limit) : pushMasters db limit (tradesByUserNumeric window) ids result =
      (result ++ ids.flatMap (entriesOf db window)).take limit := by
  induction ids generalizing result with
  | nil => simp [pushMasters, List.take_of_length_le h.le]
  | cons id ids ih =>
    rw [pushMasters, List.flatMap_cons]
    cases hmaster : db.profiles.find id with
    | none => simpa [entriesOf, hmaster] using ih h
    | some master =>
      simp only [get_tradesByUserNumeric, pushTrades_eq id master h]
      have hentries : ((parseInt id).elim [] fun n => window.filter fun t => t.userId = n).map (feedEntry id master) =
          entriesOf db window id := by
        rw [entriesOf, tradesUnder, hmaster]
        rfl
      rw [hentries, ← List.append_assoc]
      split
      next hfull =>
        rw [List.length_take, le_min_iff] at hfull
        rw [List.take_append_of_le_length hfull.2]
      next hmore =>
        rw [List.length_take, not_le, min_lt_iff, or_iff_right (lt_irrefl _)] at hmore
        rw [List.take_of_length_le hmore.le, ih hmore]

theorem length_entriesOf (window : List Trade) (id : String) :
    (entriesOf db window id).length = (tradesUnder db window id).length := by
  rw [entriesOf, tradesUnder]
  cases db.profiles.find id <;> simp

/-- The feed of the service. -/
theorem getSocialFeed_eq : getSocialFeed db trades followerUserId limit = byRecency SocialFeedEntryDto.timestamp
    (((masterIds db followerUserId).flatMap (entriesOf db (windowOf db trades followerUserId limit))).take limit) := by
  unfold getSocialFeed
  split
  next hsubs =>
    rw [masterIds, hsubs]
    simp [byRecency]
  next =>
  dsimp only
  split
  next hnumeric =>
    -- no id is read as a number, so none has entries
    have hnone : (masterIds db followerUserId).flatMap (entriesOf db (windowOf db trades followerUserId limit)) = [] := by
      refine List.flatMap_eq_nil_iff.mpr fun id hid => ?_
      have hparse : parseInt id = none := by
        rw [List.filterMap_eq_nil_iff] at hnumeric
        exact hnumeric id hid
      cases hmaster : db.profiles.find id <;> simp [entriesOf, tradesUnder, hparse, hmaster]
    rw [hnone]
    simp [byRecency]
  next =>
  rcases Nat.eq_zero_or_pos limit with rfl | hlimit
  · simp [byRecency]
  · rw [pushMasters_eq _ hlimit, List.nil_append,
      List.take_of_length_le (length_byRecency.trans_le (List.length_take_le _ _))]
    rfl

/-- The entries of the numeric ids show the trades of the users that are followed. -/
theorem forall₂_entries (window : List Trade) {ids : List String} (hids : ids ⊆ masterIds db followerUserId) :
    List.Forall₂ (Shows db followerUserId) ((ids.filter fun id => (numericId id).isSome).flatMap (entriesOf db window))
      (gathered Trade.userId (ids.filterMap fun id => (db.profiles.find id).bind fun _ => numericId id) window) := by
  induction ids with
  | nil => exact .nil
  | cons id ids ih =>
    obtain ⟨hid, hids⟩ := List.cons_subset.mp hids
    specialize ih hids
    cases hn : numericId id with
    | none =>
      simpa [hn] using ih
    | some n =>
      have hparse : parseInt id = some n := by
        rw [numericId] at hn
        split at hn
        · exact hn
        · cases hn
      rw [List.filter_cons_of_pos (by simp [hn]), List.flatMap_cons]
      cases hmaster : db.profiles.find id with
      | none =>
        simpa [entriesOf, hmaster] using ih
      | some master =>
        have hkept : (id :: ids).filterMap (fun id => (db.profiles.find id).bind fun _ => numericId id) =
            [n] ++ ids.filterMap fun id => (db.profiles.find id).bind fun _ => numericId id := by
          simp [hmaster, hn]
        rw [hkept, gathered_append, gathered_singleton, entriesOf, tradesUnder, hmaster, hparse]
        refine List.rel_append ?_ ih
        rw [Option.elim_some, Option.elim_some, Option.elim_some, List.forall₂_map_left_iff, List.forall₂_same]
        intro t ht
        have huser : t.userId = n := by simpa using (List.mem_filter.mp ht).2
        exact ⟨id, hid, master, hmaster, huser ▸ hn, rfl⟩

theorem followedUsers_subset :
    followedUsers db followerUserId ⊆ (masterIds db followerUserId).filterMap parseInt := by
  intro n hn
  obtain ⟨id, hid, hn⟩ := List.mem_filterMap.mp hn
  obtain ⟨master, -, hn⟩ := Option.bind_eq_some_iff.mp hn
  rw [numericId] at hn
  split at hn
  · exact List.mem_filterMap.mpr ⟨id, hid, hn⟩
  · cases hn

/-- The trades that the service shows, when no other id is read as a number. -/
theorem forall₂_getSocialFeed (h : MastersNumeric db trades followerUserId limit) :
    List.Forall₂ (Shows db followerUserId) (getSocialFeed db trades followerUserId limit)
      (byRecency Trade.timestamp ((gathered Trade.userId (followedUsers db followerUserId)
        (windowOf db trades followerUserId limit)).take limit)) := by
  have hlength (ids : List String) :
      (ids.flatMap (entriesOf db (windowOf db trades followerUserId limit))).length =
        (ids.flatMap (tradesUnder db (windowOf db trades followerUserId limit))).length := by
    simp [List.length_flatMap, length_entriesOf]
  have hnumeric := take_flatMap_filter (f := entriesOf db (windowOf db trades followerUserId limit)) (k := limit)
    (p := fun id => (numericId id).isSome) (m := masterIds db followerUserId)
    fun before id after hids hid hmore => List.length_eq_zero_iff.mp <| by
      rw [length_entriesOf, h before id after hids hid (hlength before ▸ hmore), List.length_nil]
  rw [getSocialFeed_eq, hnumeric]
  refine forall₂_byRecency (List.forall₂_take limit (forall₂_entries _ (List.Subset.refl _))) ?_
  rintro entry t ⟨id, -, master, -, -, rfl⟩
  rfl

/-- An entry of another id shows no trade. -/
theorem mastersNumeric_of_forall₂ {shown : List Trade}
    (h : List.Forall₂ (Shows db followerUserId) (getSocialFeed db trades followerUserId limit) shown) :
    MastersNumeric db trades followerUserId limit := by
  intro before id after hids hid hmore
  cases hmaster : db.profiles.find id with
  | none => rw [tradesUnder, hmaster, Option.elim_none]
  | some master =>
  cases htrades : tradesUnder db (windowOf db trades followerUserId limit) id with
  | nil => rfl
  | cons t ts =>
    have hentries : entriesOf db (windowOf db trades followerUserId limit) id =
        feedEntry id master t :: ts.map (feedEntry id master) := by
      rw [entriesOf, hmaster, htrades]
      rfl
    have hentry : feedEntry id master t ∈ getSocialFeed db trades followerUserId limit := by
      rw [getSocialFeed_eq, mem_byRecency, hids, List.flatMap_append, List.flatMap_cons, hentries, List.cons_append,
        List.mem_iff_getElem?]
      refine ⟨(before.flatMap (tradesUnder db (windowOf db trades followerUserId limit))).length, ?_⟩
      have hlength : (before.flatMap (entriesOf db (windowOf db trades followerUserId limit))).length =
          (before.flatMap (tradesUnder db (windowOf db trades followerUserId limit))).length := by
        simp [List.length_flatMap, length_entriesOf]
      rw [List.getElem?_take_of_lt hmore, ← hlength, List.getElem?_append_right le_rfl, Nat.sub_self]
      rfl
    obtain ⟨i, hi, hget⟩ := List.mem_iff_getElem.mp hentry
    obtain ⟨id', -, master', -, hnumeric, heq⟩ := h.get hi (h.length_eq ▸ hi)
    rw [List.get_eq_getElem, hget] at heq
    obtain rfl : id = id' := congrArg SocialFeedEntryDto.masterUserId heq
    rw [hnumeric] at hid
    cases hid

/-! ## When the feed is right -/

theorem Shows.find {entry : SocialFeedEntryDto} {t : Trade} (h : Shows db followerUserId entry t)
    (ht : t ∈ trades.rows) : trades.find entry.id = some t := by
  obtain ⟨id, -, master, -, -, rfl⟩ := h
  exact Table.find_of_mem ht

theorem shown_unique {feed : List SocialFeedEntryDto} {shown shown' : List Trade}
    (h : List.Forall₂ (Shows db followerUserId) feed shown) (h' : List.Forall₂ (Shows db followerUserId) feed shown')
    (hrows : shown ⊆ trades.rows) (hrows' : shown' ⊆ trades.rows) : shown = shown' := by
  induction h generalizing shown' with
  | nil =>
    cases h'
    rfl
  | cons hentry _ ih =>
    cases h' with
    | cons hentry' h' =>
      obtain ⟨ht, hrows⟩ := List.cons_subset.mp hrows
      obtain ⟨ht', hrows'⟩ := List.cons_subset.mp hrows'
      rw [Option.some.inj ((hentry.find ht).symm.trans (hentry'.find ht')), ih h' hrows hrows']

/-- **The feed is right** exactly when no other id is read as a number and the subscriptions come in
order. -/
theorem isFeed_iff (db : SocialDb) (trades : Table Trade.id) (followerUserId : String) (limit : ℕ) :
    IsFeed db trades followerUserId limit (getSocialFeed db trades followerUserId limit) ↔
      MastersNumeric db trades followerUserId limit ∧ SubscriptionsInOrder db trades followerUserId limit := by
  have hrows : trades.rows.Nodup := List.Nodup.of_map _ trades.nodup
  have hwindow : MostRecent Trade.timestamp (limit * 6)
      (trades.rows.filter fun t => t.userId ∈ (masterIds db followerUserId).filterMap parseInt)
      (windowOf db trades followerUserId limit) :=
    mostRecent_take Trade.timestamp (limit * 6) (hrows.filter _)
  -- the trades that are followed are among those that are asked for
  have hfollowed : followedTrades db trades followerUserId =
      (trades.rows.filter fun t => t.userId ∈ (masterIds db followerUserId).filterMap parseInt).filter
        fun t => t.userId ∈ followedUsers db followerUserId := by
    rw [List.filter_filter, followedTrades]
    refine List.filter_congr fun t _ => ?_
    rw [← Bool.decide_and, decide_eq_decide]
    exact (and_iff_left_of_imp fun h => followedUsers_subset h).symm
  rw [SubscriptionsInOrder, hfollowed, ← mostRecent_gathered_iff hwindow, ← hfollowed]
  constructor
  · rintro ⟨shown, hshows, hrecent⟩
    have hnumeric := mastersNumeric_of_forall₂ hshows
    have hshown : shown ⊆ trades.rows := fun t ht => List.mem_of_mem_filter (hrecent.subset ht)
    have hgathered : ∀ t ∈ byRecency Trade.timestamp ((gathered Trade.userId (followedUsers db followerUserId)
        (windowOf db trades followerUserId limit)).take limit), t ∈ trades.rows :=
      fun t ht => List.mem_of_mem_filter
        (hwindow.subset (mem_gathered.mp (List.mem_of_mem_take (mem_byRecency.mp ht))).1)
    rw [← shown_unique hshows (forall₂_getSocialFeed hnumeric) hshown hgathered]
    exact ⟨hnumeric, hrecent⟩
  · rintro ⟨hnumeric, hrecent⟩
    exact ⟨_, forall₂_getSocialFeed hnumeric, hrecent⟩

/-- A profile with the numeric id of its user. -/
def numericMaster (userId : String) : TraderProfile where
  id := "p" ++ userId
  userId := userId
  displayName := "Master " ++ userId
  bio := none
  visibility := .public
  performanceFeePct := 0
  isAcceptingCopiers := true
  totalSubscribers := 1
  totalCopiedVolume := 0
  realizedFollowerPnL := 0

/-- A live subscription of the follower `f`. -/
def followed (masterUserId : String) : CopySubscription where
  id := "s" ++ masterUserId
  followerUserId := "f"
  masterUserId := masterUserId
  status := .active
  copyMultiplier := 1
  maxDailyLoss := 0
  maxOrderSizePct := 0
  orderTypeFilter := ""
  pendingFees := 0
  realizedPnL := 0
  intradayPnLBaseline := 0

/-- The follower `f` copies the users 1 and 2, in this order. -/
def twoMasters : SocialDb where
  profiles := ⟨[numericMaster "1", numericMaster "2"], by decide⟩
  subscriptions := ⟨[followed "1", followed "2"], by decide⟩

/-- A trade of a user, in milliseconds. -/
def tradeAt (id : String) (userId timestamp : ℤ) : Trade where
  id := id
  userId := userId
  asset := "BTC"
  type := "BUY"
  amount := 1
  price := 100
  totalValue := 100
  status := "COMPLETED"
  timestamp := timestamp
  createdAt := timestamp

/-- User 2 traded after user 1. -/
def twoTrades : Table Trade.id := ⟨[tradeAt "older" 1 1000, tradeAt "newer" 2 2000], by decide⟩

/-- **A feed of one entry shows the older of two trades**: that of the first subscription. -/
theorem not_isFeed_twoMasters : ¬ IsFeed twoMasters twoTrades "f" 1 (getSocialFeed twoMasters twoTrades "f" 1) := by
  have hfeed : getSocialFeed twoMasters twoTrades "f" 1 =
      [feedEntry "1" (numericMaster "1") (tradeAt "older" 1 1000)] := by decide +kernel
  rintro ⟨shown, hshows, hrecent⟩
  rw [hfeed] at hshows
  cases hshows with
  | cons hentry hnil =>
    cases hnil
    have hmem := List.mem_of_mem_filter (hrecent.subset List.mem_cons_self)
    have holder : twoTrades.find "older" = some (tradeAt "older" 1 1000) := by decide +kernel
    obtain rfl := Option.some.inj ((hentry.find hmem).symm.trans holder)
    have hle := hrecent.le (tradeAt "newer" 2 2000) (by decide +kernel) (by decide +kernel) _ List.mem_cons_self
    exact absurd hle (by decide +kernel)

end SocialTrading
