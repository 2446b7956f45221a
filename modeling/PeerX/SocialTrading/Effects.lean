import PeerX.SocialTrading.Services
import PeerX.Foundations.Indexed

/-!
# Social trading: what a call does

A call is refused and leaves the tables as they are, or makes one change. The listener and the
nightly reset update subscriptions in place. This is all that the properties of runs use of the
services.
-/

namespace SocialTrading

open Relational Concurrency

variable {db : SocialDb}

/-- The subscription after a copy. -/
def CopySubscription.copied (master : TraderProfile) (event : TradeExecutedEvent) (copies : Copies)
    (sub : CopySubscription) : CopySubscription :=
  (resolveCopyAmount sub event (copies.available sub.followerUserId) master.performanceFeePct).1.getD sub

section Copied

variable (master : TraderProfile) (event : TradeExecutedEvent) (copies : Copies) (sub : CopySubscription)

/-- A saved subscription is the one that was read, with its ledger or with its status changed. -/
theorem resolveCopyAmount_saved {sub saved : CopySubscription} {event : TradeExecutedEvent} {balance fee : ℚ}
    (h : (resolveCopyAmount sub event balance fee).1 = some saved) :
    saved.id = sub.id ∧ saved.pair = sub.pair ∧ sub.status = .active ∧
      (saved.status = .active ∨ saved.status = .pausedDailyLoss) := by
  unfold resolveCopyAmount at h
  split at h
  · cases h
  next hactive =>
    have hstatus : sub.status = .active := not_not.mp hactive
    split at h
    · cases h
    split at h
    · cases h
    split at h
    · obtain rfl := Option.some.inj h
      exact ⟨rfl, rfl, hstatus, .inr rfl⟩
    dsimp only at h
    split at h
    · obtain rfl := Option.some.inj h
      exact ⟨rfl, rfl, hstatus, .inl hstatus⟩
    · cases h

@[simp] theorem copied_id : (sub.copied master event copies).id = sub.id := by
  unfold CopySubscription.copied
  cases h : (resolveCopyAmount sub event _ _).1 with
  | none => rfl
  | some saved => exact (resolveCopyAmount_saved h).1

@[simp] theorem copied_pair : (sub.copied master event copies).pair = sub.pair := by
  unfold CopySubscription.copied
  cases h : (resolveCopyAmount sub event _ _).1 with
  | none => rfl
  | some saved => exact (resolveCopyAmount_saved h).2.1

/-- A copy keeps the status, or pauses an active subscription. -/
theorem copied_status : (sub.copied master event copies).status = sub.status ∨
    sub.status = .active ∧ (sub.copied master event copies).status = .pausedDailyLoss := by
  unfold CopySubscription.copied
  cases h : (resolveCopyAmount sub event _ _).1 with
  | none => exact .inl rfl
  | some saved =>
    obtain ⟨-, -, hactive, hstatus | hstatus⟩ := resolveCopyAmount_saved h
    · exact .inl (hstatus.trans hactive.symm)
    · exact .inr ⟨hactive, hstatus⟩

/-- The subscription after the copies of the listed ones. -/
def CopySubscription.copiedIn (ids : List String) (sub : CopySubscription) : CopySubscription :=
  if sub.id ∈ ids then sub.copied master event copies else sub

theorem copiedIn_id (ids : List String) (sub : CopySubscription) :
    (sub.copiedIn master event copies ids).id = sub.id := by
  unfold CopySubscription.copiedIn
  split
  · exact copied_id ..
  · rfl

theorem copiedIn_pair (ids : List String) (sub : CopySubscription) :
    (sub.copiedIn master event copies ids).pair = sub.pair := by
  unfold CopySubscription.copiedIn
  split
  · exact copied_pair ..
  · rfl

theorem copiedIn_status (ids : List String) (sub : CopySubscription) :
    (sub.copiedIn master event copies ids).status = sub.status ∨
      sub.status = .active ∧ (sub.copiedIn master event copies ids).status = .pausedDailyLoss := by
  unfold CopySubscription.copiedIn
  split
  · exact copied_status ..
  · exact .inl rfl

theorem db_copyTradeForFollower {s : CopyState} (hsub : sub ∈ s.db.subscriptions.rows) :
    (copyTradeForFollower master event copies s sub).db =
      { s.db with subscriptions := s.db.subscriptions.save (sub.copied master event copies) } := by
  have hdb : (copyTradeForFollower master event copies s sub).db =
      (resolveCopyAmount sub event (copies.available sub.followerUserId) master.performanceFeePct).1.elim s.db
        fun saved => { s.db with subscriptions := s.db.subscriptions.save saved } := by
    unfold copyTradeForFollower
    generalize resolveCopyAmount sub event _ _ = resolved
    obtain ⟨saved, _ | decision⟩ := resolved
    · rfl
    · cases copies.mirrored sub.id <;> rfl
  -- when nothing is saved, the row stands as it was read
  rw [hdb, CopySubscription.copied]
  cases (resolveCopyAmount sub event _ _).1 with
  | none => rw [Option.elim_none, Option.getD_none, Table.save_of_mem hsub]
  | some saved => rfl

/-- The loop of the listener saves the subscriptions that it has read. -/
theorem db_copies {l : List CopySubscription} {s : CopyState} (hnodup : (l.map CopySubscription.id).Nodup)
    (hmem : ∀ sub ∈ l, sub ∈ s.db.subscriptions.rows) :
    (l.foldl (copyTradeForFollower master event copies) s).db =
      { s.db with
        subscriptions := Table.saveAll (CopySubscription.copied master event copies) l s.db.subscriptions } := by
  induction l generalizing s with
  | nil => rfl
  | cons sub l ih =>
    rw [List.map_cons, List.nodup_cons] at hnodup
    have hdb := db_copyTradeForFollower master event copies sub (hmem sub List.mem_cons_self)
    have hmem' : ∀ x ∈ l, x ∈ (copyTradeForFollower master event copies s sub).db.subscriptions.rows := by
      intro x hx
      rw [hdb]
      refine Table.mem_save.mpr (.inr ⟨hmem x (List.mem_cons_of_mem _ hx), ?_⟩)
      rw [copied_id]
      exact fun he => hnodup.1 (he ▸ List.mem_map_of_mem hx)
    rw [List.foldl_cons, ih hnodup.2 hmem', hdb, Table.saveAll_cons]

end Copied

/-- The call is refused; an update and an unsubscription need the caller's own subscription. -/
def Refused (db : SocialDb) : SocialCall → Prop
  | .updateSubscription followerUserId subscriptionId _ | .unsubscribe followerUserId subscriptionId =>
    ∀ sub ∈ db.subscriptions.find subscriptionId, sub.followerUserId ≠ followerUserId
  | .dailyReset => False
  | _ => True

/-- The subscription after the nightly reset. -/
def CopySubscription.reset (sub : CopySubscription) : CopySubscription :=
  if sub.status = .pausedDailyLoss then sub.unpaused
  else if sub.status = .unsubscribed then sub
  else sub.rebaselined

/-- The changes of a call. -/
inductive Does (db : SocialDb) : SocialCall → SocialDb → Prop
  | refuses {call} (hcall : Refused db call) : Does db call db
  | createsProfile {userId dto id} {profile : TraderProfile} (hnew : db.profiles.find userId = none)
      (huser : profile.userId = userId) (hcount : profile.totalSubscribers = 0) :
      Does db (.createProfile userId dto id) { db with profiles := db.profiles.save profile }
  | updatesProfile {userId dto} {profile saved : TraderProfile} (hprofile : db.profiles.find userId = some profile)
      (huser : saved.userId = userId) (hcount : saved.totalSubscribers = profile.totalSubscribers) :
      Does db (.updateProfile userId dto) { db with profiles := db.profiles.save saved }
  | subscribes {followerUserId dto id} {master : TraderProfile}
      (hmaster : db.profiles.find dto.masterUserId = some master)
      (hnone : db.isSubscribed followerUserId dto.masterUserId = false) (hnew : db.subscriptions.find id = none) :
      Does db (.subscribe followerUserId dto id)
        { db with
          subscriptions := db.subscriptions.save (newSubscription followerUserId dto id)
          profiles := db.profiles.save (master.addSubscribers 1) }
  | updates {subscriptionId dto} {sub : CopySubscription} (hsub : db.subscriptions.find subscriptionId = some sub) :
      Does db (.updateSubscription sub.followerUserId subscriptionId dto)
        { db with subscriptions := db.subscriptions.save (sub.update dto) }
  /-- The counter of the master goes down, unless it is not positive. -/
  | unsubscribes {subscriptionId} {sub : CopySubscription} {profiles : Table TraderProfile.userId}
      (hsub : db.subscriptions.find subscriptionId = some sub)
      (hprofiles : (∀ master ∈ db.profiles.find sub.masterUserId, master.totalSubscribers ≤ 0) ∧
          profiles = db.profiles ∨
        ∃ master ∈ db.profiles.find sub.masterUserId, 0 < master.totalSubscribers ∧
          profiles = db.profiles.save (master.addSubscribers (-1))) :
      Does db (.unsubscribe sub.followerUserId subscriptionId)
        { db with subscriptions := db.subscriptions.save { sub with status := .unsubscribed }, profiles }
  /-- The copies of a trade, each of which may pause its subscription. -/
  | copies {event copies profiles} {master : TraderProfile} {subscriptions : Table CopySubscription.id}
      {ids : List String} (hmaster : db.profiles.find event.masterUserId = some master)
      (hrows : subscriptions.rows = db.subscriptions.rows.map (CopySubscription.copiedIn master event copies ids))
      (hprofiles : profiles = db.profiles ∨ ∃ s, profiles = db.profiles.save (master.addCopies s)) :
      Does db (.handleTradeExecuted event copies) ⟨profiles, subscriptions⟩
  | resets {subscriptions : Table CopySubscription.id}
      (hrows : subscriptions.rows = db.subscriptions.rows.map CopySubscription.reset) :
      Does db .dailyReset { db with subscriptions }

theorem does_createProfile (userId : String) (dto : CreateTraderProfileDto) (id : String) :
    Does db (.createProfile userId dto id) (after db (createProfile db userId dto id)) := by
  unfold createProfile
  split
  · exact .refuses trivial
  next hnew => exact .createsProfile hnew rfl rfl

theorem does_updateProfile (userId : String) (dto : UpdateTraderProfileDto) :
    Does db (.updateProfile userId dto) (after db (updateProfile db userId dto)) := by
  unfold updateProfile
  split
  · exact .refuses trivial
  next profile hprofile =>
    have hkey : profile.userId = userId := Table.key_of_find hprofile
    exact .updatesProfile hprofile hkey rfl

theorem does_subscribe (followerUserId : String) (dto : CreateCopySubscriptionDto) (id : String) :
    Does db (.subscribe followerUserId dto id) (after db (subscribe db followerUserId dto id)) := by
  unfold subscribe
  split
  · exact .refuses trivial
  split
  · exact .refuses trivial
  next master hmaster =>
    split
    · exact .refuses trivial
    split
    · exact .refuses trivial
    split
    · exact .refuses trivial
    next hnone =>
      split
      · exact .refuses trivial
      next hnew =>
        exact .subscribes hmaster (Bool.not_eq_true _ ▸ hnone) (Option.not_isSome_iff_eq_none.mp hnew)

theorem does_updateSubscription (followerUserId subscriptionId : String) (dto : UpdateCopySubscriptionDto) :
    Does db (.updateSubscription followerUserId subscriptionId dto)
      (after db (updateSubscription db followerUserId subscriptionId dto)) := by
  unfold updateSubscription
  split
  next hsub => exact .refuses fun sub h => absurd (hsub.symm.trans h) (by simp)
  next sub hsub =>
    split
    next hother =>
      refine .refuses fun sub' h => ?_
      obtain rfl := Option.some.inj (hsub.symm.trans h)
      exact hother
    next hown =>
      obtain rfl : sub.followerUserId = followerUserId := not_not.mp hown
      exact .updates hsub

theorem does_unsubscribe (followerUserId subscriptionId : String) :
    Does db (.unsubscribe followerUserId subscriptionId)
      (after db (unsubscribe db followerUserId subscriptionId)) := by
  unfold unsubscribe
  split
  next hsub => exact .refuses fun sub h => absurd (hsub.symm.trans h) (by simp)
  next sub hsub =>
    split
    next hother =>
      refine .refuses fun sub' h => ?_
      obtain rfl := Option.some.inj (hsub.symm.trans h)
      exact hother
    next hown =>
      obtain rfl : sub.followerUserId = followerUserId := not_not.mp hown
      dsimp only
      split
      next hnone => exact .unsubscribes hsub (.inl ⟨fun master h => absurd (hnone.symm.trans h) (by simp), rfl⟩)
      next master hmaster =>
        split
        next hpos => exact .unsubscribes hsub (.inr ⟨master, hmaster, hpos, rfl⟩)
        next hpos =>
          refine .unsubscribes hsub (.inl ⟨fun master' h => ?_, rfl⟩)
          obtain rfl := Option.some.inj (hmaster.symm.trans h)
          exact not_lt.mp hpos

theorem does_handleTradeExecuted (event : TradeExecutedEvent) (copies : Copies) :
    Does db (.handleTradeExecuted event copies) (handleTradeExecuted db event copies) := by
  unfold handleTradeExecuted
  split
  · exact .refuses trivial
  split
  · exact .refuses trivial
  split
  · exact .refuses trivial
  next master hmaster =>
    split
    · exact .refuses trivial
    -- the listener saves the subscriptions that it has read, one after the other
    have hnodup : ((db.copiers event.masterUserId).map CopySubscription.id).Nodup :=
      db.subscriptions.nodup.sublist (List.filter_sublist.map _)
    have hmem : ∀ sub ∈ db.copiers event.masterUserId, sub ∈ db.subscriptions.rows := fun sub hsub =>
      (List.mem_filter.mp hsub).1
    have hdb := db_copies master event copies (s := ⟨db, 0, 0⟩) hnodup hmem
    have hrows := Table.rows_saveAll (copied_id master event copies) hnodup hmem
    dsimp only
    rw [hdb]
    split
    · exact .copies hmaster hrows (.inr ⟨_, rfl⟩)
    · exact .copies hmaster hrows (.inl rfl)

theorem does_dailyReset : Does db .dailyReset (dailyReset db) := by
  have hunpaused : ∀ sub : CopySubscription, sub.unpaused.id = sub.id := fun _ => rfl
  have hrebaselined : ∀ sub : CopySubscription, sub.rebaselined.id = sub.id := fun _ => rfl
  refine .resets ?_
  dsimp only
  rw [Table.rows_saveAll_filter hunpaused, Table.rows_saveAll_filter hrebaselined, List.map_map]
  apply List.map_congr_left
  intro sub _
  unfold CopySubscription.reset CopySubscription.unpaused CopySubscription.rebaselined
  cases hstatus : sub.status <;> simp [hstatus]

/-- A call makes one of its changes. -/
theorem does_serve (db : SocialDb) (call : SocialCall) : Does db call (serve db call) := by
  cases call
  case createProfile userId dto id => exact does_createProfile userId dto id
  case updateProfile userId dto => exact does_updateProfile userId dto
  case subscribe followerUserId dto id => exact does_subscribe followerUserId dto id
  case updateSubscription followerUserId subscriptionId dto =>
    exact does_updateSubscription followerUserId subscriptionId dto
  case unsubscribe followerUserId subscriptionId => exact does_unsubscribe followerUserId subscriptionId
  case handleTradeExecuted event copies => exact does_handleTradeExecuted event copies
  case dailyReset => exact does_dailyReset

end SocialTrading
