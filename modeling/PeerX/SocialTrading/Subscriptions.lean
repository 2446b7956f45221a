import PeerX.SocialTrading.Effects

/-!
# Social trading: the live subscriptions

A follower has at most one active subscription to a master, and the profile of a master caches how
many of its subscriptions are not unsubscribed. `subscribe` checks for an active row and counts the
new one. The other calls that make a row active do not check, and `unsubscribe` does not look at the
status of the row: each call keeps the two properties exactly when the missing check would have
passed.

## Main results

* `counted_iff`: the counters after a change of one status
* `consistent_serve_iff`: a call keeps the properties exactly when it meets the condition
* `consistent_throughout_iff`: so do the states of a run
* `resumed_and_unsubscribed_again`: runs that break the properties
-/

namespace SocialTrading

open Relational Concurrency

variable {db db' : SocialDb} {call : SocialCall} {sub saved : CopySubscription} {m : String}

/-! ## The properties -/

/-- The counter of a master. -/
def SocialDb.totalSubscribers (db : SocialDb) (m : String) : Option ℤ :=
  (db.profiles.find m).map TraderProfile.totalSubscribers

/-- The number of subscriptions to a master whose status is not `UNSUBSCRIBED`. -/
def SocialDb.liveSubscriptions (db : SocialDb) (m : String) : ℤ :=
  db.subscriptions.count fun sub => sub.masterUserId = m ∧ sub.status ≠ .unsubscribed

/-- Each pair of a follower and a master has at most one subscription in status `ACTIVE`. -/
def OneActive (db : SocialDb) : Prop :=
  db.subscriptions.UniqueWhere CopySubscription.pair fun sub => sub.status = .active

instance (db : SocialDb) : Decidable (OneActive db) := inferInstanceAs (Decidable (Table.UniqueWhere _ _ _))

/-- The counter of each master is the number of its live subscriptions. -/
def Counted (db : SocialDb) : Prop := ∀ m, ∀ n ∈ db.totalSubscribers m, n = db.liveSubscriptions m

/-- The subscriptions are consistent. -/
structure Consistent (db : SocialDb) : Prop where
  oneActive : OneActive db
  counted : Counted db

/-- Each subscription is to a user with a profile. -/
def Profiled (db : SocialDb) : Prop :=
  ∀ sub ∈ db.subscriptions.rows, (db.profiles.find sub.masterUserId).isSome

/-- The other subscriptions of the pair are not active. -/
def NoOtherActive (db : SocialDb) (sub : CopySubscription) : Prop :=
  ∀ other ∈ db.subscriptions.rows, other.id ≠ sub.id → other.pair = sub.pair → other.status ≠ .active

/-- What the missing checks would ask of a call: an update that pauses or resumes a subscription
finds it live, and a resumed one is the only active one of its pair; a subscription is not
unsubscribed again, unless its master has no subscriptions; the nightly reset does not unpause a
second subscription of a pair. -/
def KeepsConsistent (db : SocialDb) : SocialCall → Prop
  | .updateSubscription followerUserId subscriptionId dto =>
    ∀ sub ∈ db.subscriptions.find subscriptionId, sub.followerUserId = followerUserId → ∀ isActive ∈ dto.isActive,
      sub.status ≠ .unsubscribed ∧ (isActive = true → NoOtherActive db sub)
  | .unsubscribe followerUserId subscriptionId =>
    ∀ sub ∈ db.subscriptions.find subscriptionId, sub.followerUserId = followerUserId →
      sub.status = .unsubscribed → db.liveSubscriptions sub.masterUserId = 0
  | .dailyReset =>
    db.subscriptions.UniqueWhere CopySubscription.pair fun sub =>
      sub.status = .active ∨ sub.status = .pausedDailyLoss
  | _ => True

/-! ## One subscription changes -/

/-- Whether a subscription counts. -/
def CopySubscription.live (sub : CopySubscription) : ℤ := if sub.status = .unsubscribed then 0 else 1

theorem liveSubscriptions_save (hsub : sub ∈ db.subscriptions.rows) (hid : saved.id = sub.id)
    (hpair : saved.pair = sub.pair) (hdb : db'.subscriptions = db.subscriptions.save saved) (m : String) :
    db'.liveSubscriptions m =
      db.liveSubscriptions m + if m = sub.masterUserId then saved.live - sub.live else 0 := by
  have hmaster : saved.masterUserId = sub.masterUserId := congrArg Prod.snd hpair
  rw [SocialDb.liveSubscriptions, hdb, Table.count_save hsub hid, hmaster, SocialDb.liveSubscriptions,
    CopySubscription.live, CopySubscription.live]
  by_cases hm : sub.masterUserId = m
  · by_cases hs : sub.status = .unsubscribed <;> by_cases hs' : saved.status = .unsubscribed <;>
      simp [hm, hs, hs', Int.sub_eq_add_neg]
  · have hm' : m ≠ sub.masterUserId := fun he => hm he.symm
    simp [hm, hm']

/-- **The counters after one counter moves by `n` and the live subscriptions by `k`.** -/
theorem counted_iff (h : Counted db) {n k : ℤ} (hm : (db.profiles.find m).isSome)
    (hcounters : ∀ m', db'.totalSubscribers m' = (db.totalSubscribers m').map (· + if m' = m then n else 0))
    (hlive : ∀ m', db'.liveSubscriptions m' = db.liveSubscriptions m' + if m' = m then k else 0) :
    Counted db' ↔ n = k := by
  constructor
  · intro h'
    obtain ⟨profile, hprofile⟩ := Option.isSome_iff_exists.mp hm
    have hold : db.totalSubscribers m = some profile.totalSubscribers := by
      rw [SocialDb.totalSubscribers, hprofile]
      rfl
    have hnew : db'.totalSubscribers m = some (profile.totalSubscribers + n) := by
      rw [hcounters, hold]
      simp
    have heq := h' m _ hnew
    rw [hlive, ← h m _ hold, if_pos rfl] at heq
    exact Int.add_left_cancel heq
  · rintro rfl m' n' hn'
    rw [hcounters] at hn'
    obtain ⟨old, hold, rfl⟩ := Option.map_eq_some_iff.mp hn'
    rw [hlive, h m' old hold]

/-- The counters after a profile is saved with `n` subscribers more. -/
theorem totalSubscribers_save {profile : TraderProfile} (saved : TraderProfile) {n : ℤ}
    (hdb : db'.profiles = db.profiles.save saved) (hprofile : db.profiles.find m = some profile)
    (huser : saved.userId = m) (hcount : saved.totalSubscribers = profile.totalSubscribers + n) (m' : String) :
    db'.totalSubscribers m' = (db.totalSubscribers m').map (· + if m' = m then n else 0) := by
  rw [SocialDb.totalSubscribers, hdb, Table.find_save, SocialDb.totalSubscribers]
  by_cases hm : m' = m
  · rw [if_pos (hm.trans huser.symm), hm, hprofile]
    simp [hcount]
  · rw [if_neg fun he => hm (he.trans huser)]
    simp [hm, Function.comp_def]

theorem totalSubscribers_same (hdb : db'.profiles = db.profiles) (m m' : String) :
    db'.totalSubscribers m' = (db.totalSubscribers m').map (· + if m' = m then 0 else 0) := by
  rw [SocialDb.totalSubscribers, hdb, SocialDb.totalSubscribers]
  simp [Function.comp_def]

/-- A saved subscription, with its master's counter moved by `n`. -/
theorem consistent_save_iff (h : Consistent db) (saved : CopySubscription) {n : ℤ}
    (hdb : db'.subscriptions = db.subscriptions.save saved) (hm : (db.profiles.find sub.masterUserId).isSome)
    (hsub : sub ∈ db.subscriptions.rows) (hid : saved.id = sub.id) (hpair : saved.pair = sub.pair)
    (hcounters : ∀ m, db'.totalSubscribers m =
      (db.totalSubscribers m).map (· + if m = sub.masterUserId then n else 0)) :
    Consistent db' ↔ (saved.status = .active → NoOtherActive db sub) ∧ n = saved.live - sub.live := by
  have hactive : OneActive db' ↔ (saved.status = .active → NoOtherActive db sub) := by
    rw [OneActive, hdb, Table.uniqueWhere_save_iff h.oneActive, hid, hpair]
    rfl
  rw [← counted_iff h.counted hm hcounters (liveSubscriptions_save hsub hid hpair hdb), ← hactive]
  exact ⟨fun hc => ⟨hc.oneActive, hc.counted⟩, fun hc => ⟨hc.1, hc.2⟩⟩

theorem OneActive.noOtherActive (h : OneActive db) (hsub : sub ∈ db.subscriptions.rows)
    (hactive : sub.status = .active) : NoOtherActive db sub := by
  intro other hother hne hpair hstatus
  exact hne (congrArg _ (h other hother hstatus sub hsub hactive hpair))

/-! ## All subscriptions change -/

/-- Every subscription changes its status, and stays live or stays unsubscribed. -/
theorem consistent_map_iff {f : CopySubscription → CopySubscription} (h : Consistent db)
    (hid : ∀ sub, (f sub).id = sub.id) (hpair : ∀ sub, (f sub).pair = sub.pair)
    (hlive : ∀ sub, (f sub).status = .unsubscribed ↔ sub.status = .unsubscribed)
    (hrows : db'.subscriptions.rows = db.subscriptions.rows.map f)
    (hcounters : ∀ m, db'.totalSubscribers m = db.totalSubscribers m) :
    Consistent db' ↔ db.subscriptions.UniqueWhere CopySubscription.pair fun sub => (f sub).status = .active := by
  have hactive : OneActive db' ↔
      db.subscriptions.UniqueWhere CopySubscription.pair fun sub => (f sub).status = .active :=
    Table.uniqueWhere_map_iff hrows hid hpair
  have hcounted : Counted db' := by
    intro m n hn
    have hmaster : ∀ sub, (f sub).masterUserId = sub.masterUserId := fun sub => congrArg Prod.snd (hpair sub)
    rw [hcounters] at hn
    rw [h.counted m n hn, SocialDb.liveSubscriptions, SocialDb.liveSubscriptions]
    refine (Table.count_map hrows fun sub => ?_).symm
    rw [hmaster, ne_eq, ne_eq, hlive]
  rw [← hactive]
  exact ⟨fun hc => hc.oneActive, fun ha => ⟨ha, hcounted⟩⟩

theorem reset_id (sub : CopySubscription) : sub.reset.id = sub.id := by
  unfold CopySubscription.reset
  split_ifs <;> rfl

theorem reset_pair (sub : CopySubscription) : sub.reset.pair = sub.pair := by
  unfold CopySubscription.reset
  split_ifs <;> rfl

theorem reset_status (sub : CopySubscription) :
    sub.reset.status = if sub.status = .pausedDailyLoss then .active else sub.status := by
  unfold CopySubscription.reset
  split_ifs <;> rfl

/-! ## Calls -/

theorem Profiled.liveSubscriptions_eq_zero (h : Profiled db) (hm : db.profiles.find m = none) :
    db.liveSubscriptions m = 0 := by
  rw [SocialDb.liveSubscriptions, Table.count_eq_length, Int.natCast_eq_zero, List.length_eq_zero_iff,
    List.filter_eq_nil_iff]
  intro sub hsub hlive
  obtain ⟨rfl, -⟩ := of_decide_eq_true hlive
  have hprofile := h sub hsub
  rw [hm] at hprofile
  cases hprofile

/-- Profiles stay, and a subscription keeps its master. -/
theorem Profiled.of_masters (h : Profiled db)
    (hprofiles : ∀ m, (db.profiles.find m).isSome → (db'.profiles.find m).isSome)
    (hmasters : ∀ sub ∈ db'.subscriptions.rows, (db.profiles.find sub.masterUserId).isSome ∨
      ∃ old ∈ db.subscriptions.rows, old.masterUserId = sub.masterUserId) : Profiled db' := by
  intro sub hsub
  apply hprofiles
  obtain hprofile | ⟨old, hold, hmaster⟩ := hmasters sub hsub
  · exact hprofile
  · exact hmaster ▸ h old hold

theorem masters_save {old : CopySubscription} (hold : old ∈ db.subscriptions.rows)
    (hsub : sub ∈ (db.subscriptions.save saved).rows) (hpair : saved.pair = old.pair) :
    ∃ old ∈ db.subscriptions.rows, old.masterUserId = sub.masterUserId := by
  rcases Table.mem_save.mp hsub with rfl | ⟨hsub, -⟩
  · exact ⟨old, hold, (congrArg Prod.snd hpair).symm⟩
  · exact ⟨sub, hsub, rfl⟩

theorem masters_map {f : CopySubscription → CopySubscription} (hpair : ∀ sub, (f sub).pair = sub.pair)
    {rows : List CopySubscription} (hsub : sub ∈ rows.map f) :
    ∃ old ∈ rows, old.masterUserId = sub.masterUserId := by
  obtain ⟨old, hold, rfl⟩ := List.mem_map.mp hsub
  exact ⟨old, hold, (congrArg Prod.snd (hpair old)).symm⟩

/-- Subscriptions stay with users who have profiles. -/
theorem profiled_serve (db : SocialDb) (call : SocialCall) (h : Profiled db) : Profiled (serve db call) := by
  have hdoes := does_serve db call
  generalize serve db call = db' at hdoes
  cases hdoes with
  | refuses => exact h
  | createsProfile | updatesProfile => exact fun sub hsub => Table.isSome_find_save (h sub hsub)
  | @subscribes followerUserId dto id master hmaster =>
    refine h.of_masters (fun _ => Table.isSome_find_save) fun sub hsub => ?_
    rcases Table.mem_save.mp hsub with rfl | ⟨hsub, -⟩
    · exact .inl (Option.isSome_iff_exists.mpr ⟨master, hmaster⟩)
    · exact .inr ⟨sub, hsub, rfl⟩
  | updates hsub =>
    exact h.of_masters (fun _ => id) fun sub hmem => .inr (masters_save (Table.mem_of_find hsub) hmem rfl)
  | unsubscribes hsub hprofiles =>
    refine h.of_masters (fun m hm => ?_) fun sub hmem =>
      .inr (masters_save (Table.mem_of_find hsub) hmem rfl)
    obtain ⟨-, rfl⟩ | ⟨master, -, -, rfl⟩ := hprofiles
    · exact hm
    · exact Table.isSome_find_save hm
  | @copies event copies profiles master subscriptions ids hmaster hrows hprofiles =>
    refine h.of_masters (fun m hm => ?_) fun sub hsub => ?_
    · obtain rfl | ⟨s, rfl⟩ := hprofiles
      · exact hm
      · exact Table.isSome_find_save hm
    · rw [hrows] at hsub
      exact .inr (masters_map (copiedIn_pair master event copies ids) hsub)
  | resets hrows =>
    refine h.of_masters (fun _ => id) fun sub hsub => ?_
    rw [hrows] at hsub
    exact .inr (masters_map reset_pair hsub)

theorem Refused.keepsConsistent (h : Refused db call) : KeepsConsistent db call := by
  cases call with
  | createProfile | updateProfile | subscribe | handleTradeExecuted => trivial
  | updateSubscription => exact fun sub hsub hown => absurd hown (h sub hsub)
  | unsubscribe => exact fun sub hsub hown => absurd hown (h sub hsub)
  | dailyReset => exact absurd h id

/-- The condition of a call that changes one's own subscription. -/
theorem forall_find_iff {id : String} {P : CopySubscription → Prop} (hsub : db.subscriptions.find id = some sub) :
    (∀ sub' ∈ db.subscriptions.find id, sub'.followerUserId = sub.followerUserId → P sub') ↔ P sub := by
  constructor
  · exact fun h => h sub hsub rfl
  · intro h sub' hsub' _
    obtain rfl := Option.some.inj (hsub.symm.trans hsub')
    exact h

theorem Consistent.of_createsProfile (h : Consistent db) (hprofiled : Profiled db) {profile : TraderProfile}
    (hnew : db.profiles.find profile.userId = none) (hcount : profile.totalSubscribers = 0) :
    Consistent { db with profiles := db.profiles.save profile } := by
  refine ⟨h.oneActive, fun m n hn => ?_⟩
  rw [SocialDb.totalSubscribers, Table.find_save] at hn
  split at hn
  next hm =>
    obtain rfl := Option.some.inj hn
    rw [hcount, hm]
    exact (hprofiled.liveSubscriptions_eq_zero hnew).symm
  · exact h.counted m n hn

theorem Consistent.of_subscribes (h : Consistent db) {followerUserId id : String} {dto : CreateCopySubscriptionDto}
    {master : TraderProfile} (hmaster : db.profiles.find dto.masterUserId = some master)
    (hnone : db.isSubscribed followerUserId dto.masterUserId = false) (hnew : db.subscriptions.find id = none) :
    Consistent
      { db with
        subscriptions := db.subscriptions.save (newSubscription followerUserId dto id)
        profiles := db.profiles.save (master.addSubscribers 1) } := by
  refine ⟨(Table.uniqueWhere_save_iff h.oneActive _).mpr ?_, ?_⟩
  · -- another active row of the pair would have been found
    intro _ other hother _ hpair hactive
    have hfound : db.isSubscribed followerUserId dto.masterUserId = true :=
      List.any_eq_true.mpr ⟨other, hother, decide_eq_true ⟨hpair, hactive⟩⟩
    rw [hnone] at hfound
    cases hfound
  · have hlive : ∀ m, SocialDb.liveSubscriptions
        { db with
          subscriptions := db.subscriptions.save (newSubscription followerUserId dto id)
          profiles := db.profiles.save (master.addSubscribers 1) } m =
        db.liveSubscriptions m + if m = dto.masterUserId then 1 else 0 := by
      intro m
      refine (Table.count_save_new hnew).trans ?_
      simp [newSubscription, SocialDb.liveSubscriptions, eq_comm]
    refine (counted_iff h.counted ?_ (totalSubscribers_save _ rfl hmaster ?_ rfl) hlive).mpr rfl
    · exact Option.isSome_iff_exists.mpr ⟨master, hmaster⟩
    · have hkey : master.userId = dto.masterUserId := Table.key_of_find hmaster
      exact hkey

/-- An update of a subscription keeps the properties exactly when it neither revives an
unsubscribed one nor resumes one next to another. -/
theorem consistent_updates_iff (h : Consistent db) (hprofiled : Profiled db) (hsub : sub ∈ db.subscriptions.rows)
    (dto : UpdateCopySubscriptionDto) :
    Consistent { db with subscriptions := db.subscriptions.save (sub.update dto) } ↔
      ∀ isActive ∈ dto.isActive, sub.status ≠ .unsubscribed ∧ (isActive = true → NoOtherActive db sub) := by
  refine Iff.trans (consistent_save_iff h (sub.update dto) rfl (hprofiled sub hsub) hsub rfl rfl
    (totalSubscribers_same rfl _)) ?_
  cases hactive : dto.isActive with
  | none =>
    -- only the settings change
    have hstatus : (sub.update dto).status = sub.status := by simp [CopySubscription.update, hactive]
    refine iff_of_true ⟨fun ha => h.oneActive.noOtherActive hsub (hstatus.symm.trans ha), ?_⟩ (by simp)
    rw [CopySubscription.live, hstatus, CopySubscription.live, Int.sub_self]
  | some isActive =>
    -- the status is written whatever it was, and the row is live after it
    have hstatus : (sub.update dto).status = if isActive then .active else .paused := by
      simp [CopySubscription.update, hactive]
    have hlive : 0 = (sub.update dto).live - sub.live ↔ sub.status ≠ .unsubscribed := by
      rw [CopySubscription.live, hstatus, CopySubscription.live]
      cases isActive <;> cases hs : sub.status <;> simp
    rw [hlive, hstatus]
    cases isActive <;> simp [and_comm]

/-- An unsubscription keeps the properties exactly when the subscription was live, or its master
has none. -/
theorem consistent_unsubscribes_iff (h : Consistent db) (hprofiled : Profiled db)
    (hsub : sub ∈ db.subscriptions.rows) {profiles : Table TraderProfile.userId}
    (hprofiles : (∀ master ∈ db.profiles.find sub.masterUserId, master.totalSubscribers ≤ 0) ∧
        profiles = db.profiles ∨
      ∃ master ∈ db.profiles.find sub.masterUserId, 0 < master.totalSubscribers ∧
        profiles = db.profiles.save (master.addSubscribers (-1))) :
    Consistent { db with subscriptions := db.subscriptions.save { sub with status := .unsubscribed }, profiles } ↔
      (sub.status = .unsubscribed → db.liveSubscriptions sub.masterUserId = 0) := by
  let saved : CopySubscription := { sub with status := .unsubscribed }
  have hstatus : saved.status = .unsubscribed := rfl
  have hsome := hprofiled sub hsub
  obtain ⟨profile, hprofile⟩ := Option.isSome_iff_exists.mp hsome
  have hcounted : profile.totalSubscribers = db.liveSubscriptions sub.masterUserId :=
    h.counted _ _ (congrArg (Option.map TraderProfile.totalSubscribers) hprofile)
  obtain ⟨hzero, rfl⟩ | ⟨master, hmaster, hpos, rfl⟩ := hprofiles
  · -- a master with the counter 0 has no live subscription, this one included
    have hnone : db.liveSubscriptions sub.masterUserId ≤ 0 := hcounted ▸ hzero profile hprofile
    have hdead : sub.status = .unsubscribed := by
      by_contra hlive
      exact absurd (Table.count_pos hsub ⟨rfl, hlive⟩) (not_lt.mpr hnone)
    refine Iff.trans (consistent_save_iff h saved rfl hsome hsub rfl rfl (totalSubscribers_same rfl _)) ?_
    refine iff_of_true ⟨nofun, ?_⟩ fun _ => le_antisymm hnone Table.count_nonneg
    simp [CopySubscription.live, hstatus, hdead]
  · -- the counter goes down by one, the live subscriptions only if this one was live
    obtain rfl := Option.some.inj (hprofile.symm.trans hmaster)
    have hkey : profile.userId = sub.masterUserId := Table.key_of_find hprofile
    refine Iff.trans (consistent_save_iff h saved rfl hsome hsub rfl rfl
      (totalSubscribers_save (profile.addSubscribers (-1)) rfl hprofile hkey rfl)) ?_
    have hcount : db.liveSubscriptions sub.masterUserId ≠ 0 := hcounted ▸ hpos.ne'
    by_cases hdead : sub.status = .unsubscribed
    · simp [CopySubscription.live, hstatus, hdead, hcount]
    · simp [CopySubscription.live, hstatus, hdead]

/-- The copies of a trade keep the properties: they pause active subscriptions at most. -/
theorem Consistent.of_copies (h : Consistent db) {event : TradeExecutedEvent} {copies : Copies}
    {master : TraderProfile} {subscriptions : Table CopySubscription.id} {profiles : Table TraderProfile.userId}
    {ids : List String} (hmaster : db.profiles.find event.masterUserId = some master)
    (hrows : subscriptions.rows = db.subscriptions.rows.map (CopySubscription.copiedIn master event copies ids))
    (hprofiles : profiles = db.profiles ∨ ∃ s, profiles = db.profiles.save (master.addCopies s)) :
    Consistent ⟨profiles, subscriptions⟩ := by
  have hcounters : ∀ m, SocialDb.totalSubscribers ⟨profiles, subscriptions⟩ m = db.totalSubscribers m := by
    intro m
    have hshift : SocialDb.totalSubscribers ⟨profiles, subscriptions⟩ m =
        (db.totalSubscribers m).map (· + if m = event.masterUserId then 0 else 0) := by
      obtain rfl | ⟨s, rfl⟩ := hprofiles
      · exact totalSubscribers_same rfl _ m
      · have hkey : master.userId = event.masterUserId := Table.key_of_find hmaster
        exact totalSubscribers_save (master.addCopies s) rfl hmaster hkey (Int.add_zero _).symm m
    simpa using hshift
  -- a copy takes a subscription out of the active ones, at most
  refine (consistent_map_iff h (copiedIn_id master event copies ids) (copiedIn_pair master event copies ids)
    (fun sub => ?_) hrows hcounters).mpr (h.oneActive.mono fun sub hactive => ?_)
  · obtain hstatus | ⟨hactive, hpaused⟩ := copiedIn_status master event copies ids sub
    · rw [hstatus]
    · simp [hactive, hpaused]
  · obtain hstatus | ⟨-, hpaused⟩ := copiedIn_status master event copies ids sub
    · exact hstatus.symm.trans hactive
    · exact absurd (hpaused.symm.trans hactive) (by decide)

/-- **A call keeps the properties exactly when it meets the condition.** -/
theorem consistent_serve_iff (db : SocialDb) (call : SocialCall) (hprofiled : Profiled db) (h : Consistent db) :
    Consistent (serve db call) ↔ KeepsConsistent db call := by
  have hdoes := does_serve db call
  generalize serve db call = db' at hdoes
  cases hdoes with
  | refuses hcall => exact iff_of_true h hcall.keepsConsistent
  | createsProfile hnew huser hcount =>
    subst huser
    exact iff_of_true (h.of_createsProfile hprofiled hnew hcount) trivial
  | @updatesProfile userId dto profile saved hprofile huser hcount =>
    refine iff_of_true ?_ trivial
    refine ⟨h.oneActive, fun m n hn => ?_⟩
    rw [totalSubscribers_save saved rfl hprofile huser (hcount.trans (Int.add_zero _).symm)] at hn
    exact h.counted m n (by simpa using hn)
  | subscribes hmaster hnone hnew => exact iff_of_true (h.of_subscribes hmaster hnone hnew) trivial
  | @updates subscriptionId dto sub hsub =>
    rw [KeepsConsistent, forall_find_iff hsub]
    exact consistent_updates_iff h hprofiled (Table.mem_of_find hsub) dto
  | unsubscribes hsub hprofiles =>
    rw [KeepsConsistent, forall_find_iff hsub]
    exact consistent_unsubscribes_iff h hprofiled (Table.mem_of_find hsub) hprofiles
  | copies hmaster hrows hprofiles => exact iff_of_true (h.of_copies hmaster hrows hprofiles) trivial
  | resets hrows =>
    -- a reset reactivates what the daily loss had paused, and unsubscribes nobody
    have hlive : ∀ sub : CopySubscription, sub.reset.status = .unsubscribed ↔ sub.status = .unsubscribed := by
      intro sub
      rw [reset_status]
      cases sub.status <;> simp
    refine Iff.trans (consistent_map_iff h reset_id reset_pair hlive hrows fun _ => rfl) ?_
    have hactive : ∀ sub : CopySubscription,
        sub.reset.status = .active ↔ sub.status = .active ∨ sub.status = .pausedDailyLoss := by
      intro sub
      rw [reset_status]
      cases sub.status <;> simp
    simp only [hactive]
    rfl

/-! ## Runs -/

/-- The tables before the first call. -/
def SocialDb.initial : SocialDb := ⟨.empty, .empty⟩

/-- **In every state of a run each pair has at most one active subscription, and each counter is the
number of live subscriptions, exactly when every call meets the condition.** -/
theorem consistent_throughout_iff (calls : List SocialCall) :
    Throughout serve Consistent .initial calls ↔ Along serve KeepsConsistent .initial calls := by
  refine throughout_iff_along profiled_serve consistent_serve_iff (fun sub hsub => ?_) ⟨?_, fun m n hn => ?_⟩
  · cases hsub
  · exact Table.uniqueWhere_of_rows_eq_nil rfl
  · cases hn

/-- A master, and a follower who pauses a subscription, opens a second one, and resumes the
first. -/
def resumed : List SocialCall :=
  [.createProfile "m" ⟨"Mia", none, .public, 20⟩ "p",
    .subscribe "f" ⟨"m", none, none, none, none⟩ "s1",
    .updateSubscription "f" "s1" ⟨none, none, none, none, some false⟩,
    .subscribe "f" ⟨"m", none, none, none, none⟩ "s2",
    .updateSubscription "f" "s1" ⟨none, none, none, none, some true⟩]

/-- A master with two followers, one of whom unsubscribes twice. -/
def unsubscribedAgain : List SocialCall :=
  [.createProfile "m" ⟨"Mia", none, .public, 20⟩ "p",
    .subscribe "f" ⟨"m", none, none, none, none⟩ "s1",
    .subscribe "g" ⟨"m", none, none, none, none⟩ "s2",
    .unsubscribe "f" "s1",
    .unsubscribe "f" "s1"]

/-- **Two active subscriptions of a pair, and a counter that misses a subscriber.** -/
theorem resumed_and_unsubscribed_again :
    ¬ OneActive (run serve .initial resumed) ∧ ¬ Counted (run serve .initial unsubscribedAgain) := by
  constructor
  · decide +kernel
  · intro hcounted
    have hzero : (run serve .initial unsubscribedAgain).totalSubscribers "m" = some 0 := by decide +kernel
    have hone : (run serve .initial unsubscribedAgain).liveSubscriptions "m" = 1 := by decide +kernel
    exact absurd ((hcounted "m" 0 hzero).trans hone) (by decide)

end SocialTrading
