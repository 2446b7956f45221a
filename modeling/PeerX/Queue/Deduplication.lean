import PeerX.Foundations.JsMap
import PeerX.Foundations.Runs
import PeerX.Queue.Fingerprint
import Mathlib.Algebra.Order.Ring.Int
import Mathlib.Data.List.Induction

/-!
# Queue: message deduplication

The deduplication service remembers the messages of a time window: their entries in one map, and
their fingerprints in a second one. When a message is registered and there are too many entries, the
oldest tenth is forgotten.

## Main results

* `consistent_apply`, `size_apply_le`: the maps stay consistent and bounded
* `evicted_le_kept`: only the oldest entries are forgotten when there are too many
* `remembers_register`: an entry stays while few messages are registered
-/

namespace Queue

open Concurrency Relational Serialization

/-! ## The state -/

/-- A hexadecimal digest of SHA-256. -/
structure Digest where
  text : JsString
  length : text.length = 64
deriving DecidableEq

/-- The settings of the service. -/
structure DeduplicationConfig where
  enabled : Bool
  windowMs : ℤ
  maxDeduplicationEntries : ℕ
deriving DecidableEq

/-- `DeduplicationEntry`. Times are in milliseconds. -/
structure DeduplicationEntry where
  messageId : String
  fingerprint : Digest
  timestamp : ℤ
  expiresAt : ℤ
deriving DecidableEq

/-- The deduplication service: its two maps. -/
structure DeduplicationService where
  deduplicationCache : JsMap String DeduplicationEntry
  messageFingerprints : JsMap String Digest

section Operations

variable (sha256 : JsString → Digest) (config : DeduplicationConfig)

namespace DeduplicationService

/-- The service at its start. -/
def initial : DeduplicationService where
  deduplicationCache := JsMap.new
  messageFingerprints := JsMap.new

def isDuplicate (service : DeduplicationService) (messageId : String)
    (messageData : Value) : Bool :=
  if ¬ config.enabled then false
  else
    let fingerprint := generateFingerprint sha256 messageData
    -- an empty text would count as no fingerprint
    let seenUnderId :=
      match service.messageFingerprints.get messageId with
      | some existingFingerprint =>
        existingFingerprint.text ≠ [] && existingFingerprint = fingerprint
      | none => false
    seenUnderId || service.messageFingerprints.entries.any fun (existingId, existingFp) =>
      existingFp = fingerprint && existingId ≠ messageId

/-- Both maps without some messages. -/
def forget (service : DeduplicationService) (messageIds : List String) : DeduplicationService where
  deduplicationCache := service.deduplicationCache.deleteAll messageIds
  messageFingerprints := service.messageFingerprints.deleteAll messageIds

/-- The entries, the oldest first. -/
def oldestFirst (service : DeduplicationService) : List (String × DeduplicationEntry) :=
  service.deduplicationCache.entries.insertionSort fun a b => a.2.timestamp ≤ b.2.timestamp

/-- `Math.ceil(entries.length * 0.1)`, with exact tenths. -/
def removeCount (length : ℕ) : ℕ := (length + 9) / 10

def cleanupOldestEntries (service : DeduplicationService) : DeduplicationService :=
  let entries := service.oldestFirst
  service.forget ((entries.take (removeCount entries.length)).map Prod.fst)

/-- Both maps with a new message. -/
def insert (service : DeduplicationService) (entry : DeduplicationEntry) :
    DeduplicationService where
  deduplicationCache := service.deduplicationCache.set entry.messageId entry
  messageFingerprints := service.messageFingerprints.set entry.messageId entry.fingerprint

/-- The entry of a message that is registered at a time. -/
def newEntry (messageId : String) (messageData : Value) (now : ℤ) : DeduplicationEntry where
  messageId := messageId
  fingerprint := generateFingerprint sha256 messageData
  timestamp := now
  expiresAt := now + config.windowMs

/-- `registerMessage` at a time. -/
def registerMessage (service : DeduplicationService) (messageId : String) (messageData : Value)
    (now : ℤ) :
    DeduplicationService :=
  if ¬ config.enabled then service
  else
    let inserted := service.insert (newEntry sha256 config messageId messageData now)
    if inserted.deduplicationCache.size > config.maxDeduplicationEntries
      then inserted.cleanupOldestEntries
    else inserted

def unregisterMessage (service : DeduplicationService) (messageId : String) :
    DeduplicationService where
  deduplicationCache := service.deduplicationCache.delete messageId
  messageFingerprints := service.messageFingerprints.delete messageId

/-- The entries that have expired at a time. -/
def expired (service : DeduplicationService) (now : ℤ) : List String :=
  (service.deduplicationCache.entries.filter fun entry => entry.2.expiresAt ≤ now).map Prod.fst

/-- `cleanupExpiredEntries` at a time. -/
def cleanupExpiredEntries (service : DeduplicationService) (now : ℤ) : DeduplicationService :=
  if ¬ config.enabled then service else service.forget (service.expired now)

def clearAll : DeduplicationService := initial

end DeduplicationService

open DeduplicationService

/-- The calls, with their times where they read one. -/
inductive DeduplicationCall : Type
  | registerMessage (messageId : String) (messageData : Value) (now : ℤ)
  | unregisterMessage (messageId : String)
  | cleanupExpiredEntries (now : ℤ)
  | clearAll

/-- The service after a call. -/
def DeduplicationCall.apply (service : DeduplicationService) :
    DeduplicationCall → DeduplicationService
  | .registerMessage messageId messageData now =>
    service.registerMessage sha256 config messageId messageData now
  | .unregisterMessage messageId => service.unregisterMessage messageId
  | .cleanupExpiredEntries now => service.cleanupExpiredEntries config now
  | .clearAll => DeduplicationService.clearAll

/-- The service after a run from its start. -/
def deduplicationRun (calls : List DeduplicationCall) : DeduplicationService :=
  run (DeduplicationCall.apply sha256 config) initial calls

end Operations

open DeduplicationService

/-- The time of a call, if it reads one. -/
def DeduplicationCall.time? : DeduplicationCall → Option ℤ
  | .registerMessage _ _ now => some now
  | .cleanupExpiredEntries now => some now
  | _ => none

/-- The time of a registration. -/
def DeduplicationCall.registered? : DeduplicationCall → Option ℤ
  | .registerMessage _ _ now => some now
  | _ => none

/-- The registrations of a period of time, its end excluded. -/
def registrations (calls : List DeduplicationCall) (start finish : ℤ) : ℕ :=
  (calls.filterMap DeduplicationCall.registered?).countP fun time => start ≤ time ∧ time < finish

/-- The two maps agree: they have the same keys, with the same fingerprints. -/
def Consistent (service : DeduplicationService) : Prop :=
  ∀ messageId, (service.deduplicationCache.get messageId).map DeduplicationEntry.fingerprint =
    service.messageFingerprints.get messageId

variable {sha256 : JsString → Digest} {config : DeduplicationConfig}
    {service : DeduplicationService}
  {call : DeduplicationCall} {messageId : String}

/-! ## Consistent maps -/

theorem consistent_initial : Consistent DeduplicationService.initial := fun _ => rfl

theorem consistent_forget (h : Consistent service) (messageIds : List String) :
    Consistent (service.forget messageIds) := by
  intro messageId
  simp only [forget, JsMap.get_deleteAll]
  split
  · rfl
  · exact h messageId

theorem consistent_insert (h : Consistent service) (entry : DeduplicationEntry) :
    Consistent (service.insert entry) := by
  intro messageId
  simp only [DeduplicationService.insert, JsMap.get_set]
  split
  · rfl
  · exact h messageId

theorem consistent_unregister (h : Consistent service) (messageId : String) :
    Consistent (service.unregisterMessage messageId) := by
  intro other
  simp only [DeduplicationService.unregisterMessage, JsMap.get_delete]
  split
  · rfl
  · exact h other

theorem consistent_apply (h : Consistent service) (call : DeduplicationCall) :
    Consistent (call.apply sha256 config service) := by
  cases call with
  | registerMessage messageId messageData now =>
    simp only [DeduplicationCall.apply, DeduplicationService.registerMessage]
    split
    · exact h
    · split
      · exact consistent_forget (consistent_insert h _) _
      · exact consistent_insert h _
  | unregisterMessage messageId => exact consistent_unregister h messageId
  | cleanupExpiredEntries now =>
    simp only [DeduplicationCall.apply, DeduplicationService.cleanupExpiredEntries]
    split
    · exact h
    · exact consistent_forget h _
  | clearAll => exact consistent_initial

theorem size_eq_of_consistent (h : Consistent service) :
    service.messageFingerprints.size = service.deduplicationCache.size := by
  refine JsMap.size_eq_of_has fun messageId => ?_
  rw [JsMap.has, JsMap.has, ← h messageId, Option.isSome_map]

/-! ## The oldest entries -/

theorem oldestFirst_perm (service : DeduplicationService) :
    service.oldestFirst.Perm service.deduplicationCache.entries :=
  List.perm_insertionSort _ _

theorem pairwise_oldestFirst (service : DeduplicationService) :
    service.oldestFirst.Pairwise fun a b => a.2.timestamp ≤ b.2.timestamp := by
  have : Std.Total fun a b : String × DeduplicationEntry => a.2.timestamp ≤ b.2.timestamp :=
    ⟨fun a b => le_total a.2.timestamp b.2.timestamp⟩
  have : IsTrans (String × DeduplicationEntry) fun a b => a.2.timestamp ≤ b.2.timestamp :=
    ⟨fun _ _ _ => le_trans⟩
  exact List.pairwise_insertionSort _ _

/-- The keys of the entries that a cleanup forgets. -/
def oldestIds (service : DeduplicationService) : List String :=
  (service.oldestFirst.take (removeCount service.oldestFirst.length)).map Prod.fst

theorem nodup_oldestFirst (service : DeduplicationService) :
    (service.oldestFirst.map Prod.fst).Nodup :=
  ((oldestFirst_perm service).map Prod.fst).nodup_iff.mpr service.deduplicationCache.nodup

theorem size_cleanupOldest (service : DeduplicationService) :
    service.cleanupOldestEntries.deduplicationCache.size +
        removeCount service.deduplicationCache.size =
      service.deduplicationCache.size := by
  have hlength : service.oldestFirst.length = service.deduplicationCache.size :=
    (oldestFirst_perm service).length_eq
  have hnodup : (oldestIds service).Nodup :=
    (nodup_oldestFirst service).sublist ((List.take_sublist _ _).map Prod.fst)
  have hmem : ∀ messageId ∈ oldestIds service, service.deduplicationCache.has messageId := by
    intro messageId h
    obtain ⟨entry, hentry, rfl⟩ := List.mem_map.mp h
    have hcache := (oldestFirst_perm service).mem_iff.mp (List.mem_of_mem_take hentry)
    exact JsMap.mem_keys.mp (List.mem_map_of_mem hcache)
  have hsize := JsMap.size_deleteAll hnodup hmem
  have hcount : (oldestIds service).length = removeCount service.deduplicationCache.size := by
    rw [oldestIds, List.length_map, List.length_take, hlength]
    unfold removeCount
    omega
  rw [hcount] at hsize
  exact hsize

theorem size_insert_le (service : DeduplicationService) (entry : DeduplicationEntry) :
    (service.insert entry).deduplicationCache.size ≤ service.deduplicationCache.size + 1 :=
  JsMap.size_set_le

/-- **The maps are bounded.** -/
theorem size_apply_le (hmax : 1 ≤ config.maxDeduplicationEntries)
    (h : service.deduplicationCache.size ≤ config.maxDeduplicationEntries)
    (call : DeduplicationCall) :
    (call.apply sha256 config service).deduplicationCache.size ≤
      config.maxDeduplicationEntries := by
  cases call with
  | registerMessage messageId messageData now =>
    simp only [DeduplicationCall.apply, DeduplicationService.registerMessage]
    split
    · exact h
    · split
      · next hover =>
        have hcleaned :=
          size_cleanupOldest (service.insert (newEntry sha256 config messageId messageData now))
        have hinsert := size_insert_le service (newEntry sha256 config messageId messageData now)
        unfold removeCount at hcleaned
        omega
      · next hover => exact Nat.le_of_not_gt hover
  | unregisterMessage messageId => exact (JsMap.size_delete_le _ _).trans h
  | cleanupExpiredEntries now =>
    simp only [DeduplicationCall.apply, DeduplicationService.cleanupExpiredEntries]
    split
    · exact h
    · exact (JsMap.size_deleteAll_le _ _).trans h
  | clearAll => exact Nat.zero_le _

/-- **A cleanup forgets the oldest entries only.** -/
theorem evicted_le_kept {evicted kept : String × DeduplicationEntry}
    (hevicted : evicted ∈ service.deduplicationCache.entries)
    (hgone : evicted ∉ service.cleanupOldestEntries.deduplicationCache.entries)
    (hkept : kept ∈ service.cleanupOldestEntries.deduplicationCache.entries) :
    evicted.2.timestamp ≤ kept.2.timestamp := by
  obtain ⟨hcache, hnot⟩ := JsMap.mem_deleteAll.mp hkept
  -- the evicted one is among the first of the sorted entries, the kept one is not
  have hfirst : evicted ∈ service.oldestFirst.take (removeCount service.oldestFirst.length) := by
    have hid : evicted.1 ∈ oldestIds service := by
      by_contra hid
      exact hgone (JsMap.mem_deleteAll.mpr ⟨hevicted, hid⟩)
    obtain ⟨entry, hentry, heq⟩ := List.mem_map.mp hid
    have hmem := (oldestFirst_perm service).mem_iff.mp (List.mem_of_mem_take hentry)
    exact JsMap.entry_eq hmem hevicted heq ▸ hentry
  have hlater : kept ∈ service.oldestFirst.drop (removeCount service.oldestFirst.length) := by
    have hmem := (oldestFirst_perm service).mem_iff.mpr hcache
    rw [← List.take_append_drop (removeCount service.oldestFirst.length) service.oldestFirst]
      at hmem
    refine (List.mem_append.mp hmem).resolve_left fun htake => hnot ?_
    exact List.mem_map_of_mem htake
  have hsorted := pairwise_oldestFirst service
  rw [← List.take_append_drop (removeCount service.oldestFirst.length) service.oldestFirst]
    at hsorted
  exact (List.pairwise_append.mp hsorted).2.2 _ hfirst _ hlater

/-! ## Few registrations -/

/-- Of a sorted list, one of the first `k` has all but `k - 1` at or after it. -/
theorem count_of_mem_take {β : Type} {l : List β} {f : β → ℤ}
    (hsorted : l.Pairwise fun a b => f a ≤ f b) {k : ℕ}
    {x : β} (hx : x ∈ l.take k) : l.length + 1 ≤ k + l.countP fun y => f x ≤ f y := by
  obtain ⟨i, hi, rfl⟩ := List.mem_take_iff_getElem.mp hx
  have hlength : i < l.length := hi.trans_le (min_le_right k l.length)
  have hall : ∀ y ∈ l.drop i, decide (f l[i] ≤ f y) = true := by
    intro y hy
    have hdrop := hsorted.sublist (List.drop_sublist i l)
    rw [List.drop_eq_getElem_cons hlength] at hy hdrop
    rcases List.mem_cons.mp hy with rfl | hy
    · exact decide_eq_true le_rfl
    · exact decide_eq_true ((List.pairwise_cons.mp hdrop).1 y hy)
  have hcount := (List.drop_sublist i l).countP_le (p := fun y => f l[i] ≤ f y)
  rw [List.countP_eq_length.mpr hall, List.length_drop] at hcount
  omega

theorem mem_cleanupOldest {entry : String × DeduplicationEntry}
    (hentry : entry ∈ service.deduplicationCache.entries)
    (hfew : removeCount service.deduplicationCache.size +
      service.deduplicationCache.entries.countP
      (fun other => entry.2.timestamp ≤ other.2.timestamp) ≤
        service.deduplicationCache.size) :
    entry ∈ service.cleanupOldestEntries.deduplicationCache.entries := by
  refine JsMap.mem_deleteAll.mpr ⟨hentry, fun hid => ?_⟩
  obtain ⟨other, hother, heq⟩ := List.mem_map.mp hid
  have hmem := (oldestFirst_perm service).mem_iff.mp (List.mem_of_mem_take hother)
  obtain rfl := JsMap.entry_eq hmem hentry heq
  have hcount := count_of_mem_take (pairwise_oldestFirst service) hother
  rw [(oldestFirst_perm service).length_eq, (oldestFirst_perm service).countP_eq] at hcount
  unfold JsMap.size at hfew
  omega

def entryTimes (service : DeduplicationService) : List ℤ :=
  service.deduplicationCache.entries.map fun entry => entry.2.timestamp

/-- The times of the registrations of a run. -/
def registrationTimes (calls : List DeduplicationCall) : List ℤ :=
  calls.filterMap DeduplicationCall.registered?

theorem entryTimes_insert (service : DeduplicationService) (entry : DeduplicationEntry) :
    (entryTimes (service.insert entry)).Subperm (entry.timestamp :: entryTimes service) := by
  have hperm :=
    (JsMap.perm_set service.deduplicationCache entry.messageId entry).map fun e => e.2.timestamp
  have hsublist :=
    (JsMap.delete_sublist service.deduplicationCache entry.messageId).map fun e => e.2.timestamp
  exact hperm.subperm.trans (List.Sublist.subperm (hsublist.cons_cons entry.timestamp))

theorem entryTimes_forget (service : DeduplicationService) (messageIds : List String) :
    (entryTimes (service.forget messageIds)).Subperm (entryTimes service) :=
  ((JsMap.deleteAll_sublist _ _).map _).subperm

theorem registrationTimes_append (calls : List DeduplicationCall) (call : DeduplicationCall) :
    registrationTimes (calls ++ [call]) = registrationTimes calls ++
      [call].filterMap DeduplicationCall.registered? :=
  List.filterMap_append

theorem entryTimes_apply {calls : List DeduplicationCall}
    (h : (entryTimes service).Subperm (registrationTimes calls)) :
    (entryTimes (call.apply sha256 config service)).Subperm
    (registrationTimes (calls ++ [call])) := by
  have hmore : (registrationTimes calls).Subperm (registrationTimes (calls ++ [call])) := by
    rw [registrationTimes_append]
    exact (List.sublist_append_left _ _).subperm
  cases call with
  | registerMessage messageId messageData now =>
    -- the entry brings its own time, and replaces an old entry or none
    have hinsert :
      (entryTimes (service.insert (newEntry sha256 config messageId messageData now))).Subperm
        (registrationTimes (calls ++ [.registerMessage messageId messageData now])) := by
      rw [registrationTimes_append]
      refine (entryTimes_insert service _).trans ?_
      exact ((List.subperm_cons now).mpr h).trans (List.perm_append_singleton now _).symm.subperm
    simp only [DeduplicationCall.apply, DeduplicationService.registerMessage]
    split
    · exact h.trans hmore
    · split
      · exact (entryTimes_forget _ _).trans hinsert
      · exact hinsert
  | unregisterMessage messageId =>
    exact (((JsMap.delete_sublist _ _).map _).subperm.trans h).trans hmore
  | cleanupExpiredEntries now =>
    simp only [DeduplicationCall.apply, DeduplicationService.cleanupExpiredEntries]
    split
    · exact h.trans hmore
    · exact ((entryTimes_forget _ _).trans h).trans hmore
  | clearAll => exact List.nil_subperm

/-! ## Runs -/

theorem deduplicationRun_append (calls : List DeduplicationCall) (call : DeduplicationCall) :
    deduplicationRun sha256 config (calls ++ [call]) =
      call.apply sha256 config (deduplicationRun sha256 config calls) := run_append _ _ _

theorem consistent_run (calls : List DeduplicationCall) :
    Consistent (deduplicationRun sha256 config calls) :=
  run_invariant' (I := Consistent) (fun _ call h => consistent_apply h call)
    consistent_initial calls

theorem size_run_le (hmax : 1 ≤ config.maxDeduplicationEntries) (calls : List DeduplicationCall) :
    (deduplicationRun sha256 config calls).deduplicationCache.size ≤
      config.maxDeduplicationEntries :=
  run_invariant' (I := fun service : DeduplicationService => service.deduplicationCache.size ≤
    config.maxDeduplicationEntries)
    (fun _ call h => size_apply_le hmax h call) (Nat.zero_le _) calls

theorem entryTimes_run (calls : List DeduplicationCall) :
    (entryTimes (deduplicationRun sha256 config calls)).Subperm (registrationTimes calls) := by
  induction calls using List.reverseRecOn with
  | nil => exact List.nil_subperm
  | append_singleton calls call ih =>
    rw [deduplicationRun_append]
    exact entryTimes_apply ih

/-- The call takes a message out of the maps, or registers another one in its place. -/
def DeduplicationCall.Replaces (messageId : String) : DeduplicationCall → Prop
  | .registerMessage other _ _ => other = messageId
  | .unregisterMessage other => other = messageId
  | .cleanupExpiredEntries _ => False
  | .clearAll => True

/-- The entry of a message that was registered with a fingerprint at a time. -/
def Remembers (config : DeduplicationConfig) (service : DeduplicationService) (messageId : String)
    (fingerprint : Digest) (timestamp : ℤ) : Prop :=
  service.deduplicationCache.get messageId =
    some { messageId, fingerprint, timestamp, expiresAt := timestamp + config.windowMs }

/-- The times that the calls read are at most a given one. -/
def Until (now : ℤ) (calls : List DeduplicationCall) : Prop :=
  ∀ time ∈ calls.filterMap DeduplicationCall.time?, time ≤ now

/-- Few messages are registered in any period of the length of the window. -/
def Few (config : DeduplicationConfig) (calls : List DeduplicationCall) : Prop :=
  ∀ start, registrations calls start (start + config.windowMs) ≤
    config.maxDeduplicationEntries + 1 - removeCount (config.maxDeduplicationEntries + 1)

variable {fingerprint : Digest} {timestamp now : ℤ} {calls : List DeduplicationCall}

theorem until_of_append {call : DeduplicationCall} (h : Until now (calls ++ [call])) :
    Until now calls ∧ ∀ time, call.time? = some time → time ≤ now := by
  rw [Until, List.filterMap_append, List.forall_mem_append] at h
  refine ⟨h.1, fun time htime => h.2 time ?_⟩
  exact List.mem_filterMap.mpr ⟨call, List.mem_singleton_self call, htime⟩

theorem few_of_append {call : DeduplicationCall} (h : Few config (calls ++ [call])) :
    Few config calls := by
  intro start
  refine le_trans ?_ (h start)
  unfold registrations
  rw [List.filterMap_append, List.countP_append]
  exact Nat.le_add_right _ _

theorem registrationTimes_le (h : Until now calls) :
    ∀ time ∈ registrationTimes calls, time ≤ now := by
  intro time htime
  obtain ⟨call, hcall, hregistered⟩ := List.mem_filterMap.mp htime
  refine h time (List.mem_filterMap.mpr ⟨call, hcall, ?_⟩)
  cases call with
  | registerMessage messageId messageData time' => exact hregistered
  | _ => cases hregistered

/-- A remembered message survives a cleanup of the oldest entries within its window. -/
theorem remembers_cleanupOldest (h : Remembers config service messageId fingerprint timestamp)
    (hsize : service.deduplicationCache.size = config.maxDeduplicationEntries + 1)
    (htimes : (entryTimes service).Subperm (registrationTimes calls)) (huntil : Until now calls)
    (hwindow : now < timestamp + config.windowMs) (hfew : Few config calls) :
    Remembers config service.cleanupOldestEntries messageId fingerprint timestamp := by
  refine JsMap.mem_entries.mp (mem_cleanupOldest (JsMap.mem_entries.mpr h) ?_)
  -- the younger entries were registered within the window of the message
  have hyoung : service.deduplicationCache.entries.countP
    (fun other => timestamp ≤ other.2.timestamp) =
      (entryTimes service).countP fun time => timestamp ≤ time ∧
        time < timestamp + config.windowMs := by
    rw [entryTimes, List.countP_map]
    refine List.countP_congr fun other hother => ?_
    have hle : other.2.timestamp ≤ now :=
      registrationTimes_le huntil _ (htimes.subset (List.mem_map_of_mem hother))
    have hlt : other.2.timestamp < timestamp + config.windowMs := by omega
    simp [hlt]
  have hcount :=
    htimes.countP_le (fun time => timestamp ≤ time ∧ time < timestamp + config.windowMs)
  have hbound := hfew timestamp
  unfold registrations at hbound
  unfold registrationTimes at hcount
  rw [hsize]
  unfold removeCount at hbound ⊢
  dsimp only
  omega

theorem remembers_forget (h : Remembers config service messageId fingerprint timestamp)
    {messageIds : List String}
    (hnot : messageId ∉ messageIds) : Remembers config
    (service.forget messageIds) messageId fingerprint timestamp := by
  unfold Remembers forget at *
  rw [JsMap.get_deleteAll, if_neg hnot]
  exact h

/-- A message is registered, this one or another, and too many entries are cleaned up. -/
theorem remembers_register (henabled : config.enabled = true)
    (hsize : service.deduplicationCache.size ≤ config.maxDeduplicationEntries)
    (htimes : (entryTimes service).Subperm (registrationTimes calls)) {other : String}
    {data : Value} {time : ℤ}
    (h : Remembers config (service.insert (newEntry sha256 config other data time)) messageId
      fingerprint timestamp)
    (huntil : Until now (calls ++ [.registerMessage other data time]))
    (hwindow : now < timestamp + config.windowMs)
    (hfew : Few config (calls ++ [.registerMessage other data time])) :
    Remembers config (service.registerMessage sha256 config other data time) messageId fingerprint
      timestamp := by
  simp only [DeduplicationService.registerMessage, henabled, not_true_eq_false, if_false]
  split
  · next hover =>
    have hinsert := size_insert_le service (newEntry sha256 config other data time)
    refine remembers_cleanupOldest h (by omega) ?_ huntil hwindow hfew
    rw [registrationTimes_append]
    refine (entryTimes_insert service _).trans ?_
    exact ((List.subperm_cons time).mpr htimes).trans
      (List.perm_append_singleton time _).symm.subperm
  · exact h

/-- A message is remembered within its window, unless it is taken out or registered again. -/
theorem remembers_run (hmax : 1 ≤ config.maxDeduplicationEntries) (henabled : config.enabled = true)
    {before after : List DeduplicationCall} {data : Value}
    (hkept : ∀ call ∈ after, ¬ call.Replaces messageId)
    (huntil : Until now (before ++ [.registerMessage messageId data timestamp] ++ after))
    (hwindow : now < timestamp + config.windowMs)
    (hfew : Few config (before ++ [.registerMessage messageId data timestamp] ++ after)) :
    Remembers config
    (deduplicationRun sha256 config (before ++
      [.registerMessage messageId data timestamp] ++ after))
      messageId (generateFingerprint sha256 data) timestamp := by
  -- backwards over the calls after the registration
  induction after using List.reverseRecOn with
  | nil =>
    rw [List.append_nil] at huntil hfew ⊢
    rw [deduplicationRun_append]
    exact remembers_register henabled (size_run_le hmax before) (entryTimes_run before)
      (JsMap.get_set_self _ _ _)
      huntil hwindow hfew
  | append_singleton after call ih =>
    rw [← List.append_assoc] at huntil hfew ⊢
    obtain ⟨huntil', htime⟩ := until_of_append huntil
    have hlast : ¬ call.Replaces messageId :=
      hkept call (List.mem_append_right _ (List.mem_singleton_self call))
    have hremembers :=
      ih (fun call hcall => hkept call (List.mem_append_left _ hcall)) huntil' (few_of_append hfew)
    rw [deduplicationRun_append]
    cases call with
    | registerMessage other data' time =>
      refine remembers_register henabled (size_run_le hmax _)
        (entryTimes_run _) ?_ huntil hwindow hfew
      have hne : messageId ≠ other := fun heq => hlast heq.symm
      exact (JsMap.get_set_of_ne _ hne _).trans hremembers
    | unregisterMessage other =>
      have hne : messageId ≠ other := fun heq => hlast heq.symm
      exact (JsMap.get_delete_of_ne _ hne).trans hremembers
    | cleanupExpiredEntries time =>
      simp only [DeduplicationCall.apply, DeduplicationService.cleanupExpiredEntries, henabled,
        not_true_eq_false,
        if_false]
      refine remembers_forget hremembers fun hexpired => ?_
      -- its entry has not expired yet
      obtain ⟨⟨other, entry⟩, hentry, rfl⟩ := List.mem_map.mp hexpired
      obtain ⟨hmem, hle⟩ := List.mem_filter.mp hentry
      have hstored := Option.some.inj ((JsMap.mem_entries.mp hmem).symm.trans hremembers)
      have hexpires : entry.expiresAt ≤ time := of_decide_eq_true hle
      rw [hstored] at hexpires
      have hnow := htime time rfl
      dsimp only at hexpires
      omega
    | clearAll => exact absurd trivial hlast

/-- A remembered message makes every message with its fingerprint a duplicate. -/
theorem isDuplicate_of_remembers (henabled : config.enabled = true)
    (hconsistent : Consistent service) {data : Value}
    (h : Remembers config service messageId (generateFingerprint sha256 data) timestamp)
    (other : String) :
    service.isDuplicate sha256 config other data = true := by
  have hget : service.messageFingerprints.get messageId = some
      (generateFingerprint sha256 data) := by
    rw [← hconsistent messageId, h]
    rfl
  simp only [DeduplicationService.isDuplicate, henabled, not_true_eq_false, if_false,
    Bool.or_eq_true]
  by_cases hid : messageId = other
  · -- the own entry counts only if its fingerprint is truthy, which a digest is
    left
    have hnonempty : (generateFingerprint sha256 data).text ≠ [] := by
      intro hnil
      have hlength := (generateFingerprint sha256 data).length
      rw [hnil] at hlength
      cases hlength
    rw [← hid, hget]
    simp [hnonempty]
  · right
    refine List.any_eq_true.mpr ⟨(messageId, generateFingerprint sha256 data),
      JsMap.mem_entries.mpr hget, ?_⟩
    simp [hid]

/-- **The deduplication.** After every run the two maps agree, and hold at most the given number of
entries; a registration that is one too many forgets the oldest entries only; and while few messages
are registered in the length of a window, every message is a duplicate whose fingerprint was
registered within the window. -/
theorem deduplication (sha256 : JsString → Digest) (config : DeduplicationConfig)
    (henabled : config.enabled = true) (hmax : 1 ≤ config.maxDeduplicationEntries) :
    (∀ calls, Consistent (deduplicationRun sha256 config calls) ∧
      (deduplicationRun sha256 config calls).deduplicationCache.size ≤
        config.maxDeduplicationEntries ∧
      (deduplicationRun sha256 config calls).messageFingerprints.size ≤
        config.maxDeduplicationEntries) ∧
    (∀ calls messageId data now, ∀ evicted ∈ ((deduplicationRun sha256 config calls).insert
        (newEntry sha256 config messageId data now)).deduplicationCache.entries,
      evicted ∉ (deduplicationRun sha256 config
        (calls ++ [.registerMessage messageId data now])).deduplicationCache.entries →
      ∀ kept ∈ (deduplicationRun sha256 config
        (calls ++ [.registerMessage messageId data now])).deduplicationCache.entries,
        evicted.2.timestamp ≤ kept.2.timestamp) ∧
    ∀ before after messageId data timestamp now,
      Until now (before ++ [.registerMessage messageId data timestamp] ++ after) →
      Few config (before ++ [.registerMessage messageId data timestamp] ++ after) →
      (∀ call ∈ after, ¬ call.Replaces messageId) → now < timestamp + config.windowMs →
      ∀ other data', generateFingerprint sha256 data' = generateFingerprint sha256 data →
        (deduplicationRun sha256 config
          (before ++ [.registerMessage messageId data timestamp] ++ after)).isDuplicate sha256
            config other data' := by
  refine ⟨fun calls => ?_, fun calls messageId data now evicted hevicted hgone kept hkept => ?_, ?_⟩
  · have hconsistent : Consistent (deduplicationRun sha256 config calls) := consistent_run calls
    refine ⟨hconsistent, size_run_le hmax calls, ?_⟩
    rw [size_eq_of_consistent hconsistent]
    exact size_run_le hmax calls
  · -- the last call is the registration; what it evicts are the oldest entries
    rw [deduplicationRun_append] at hgone hkept
    simp only [DeduplicationCall.apply, DeduplicationService.registerMessage, henabled,
      not_true_eq_false,
      if_false] at hgone hkept
    split at hgone
    · next hover =>
      rw [if_pos hover] at hkept
      exact evicted_le_kept hevicted hgone hkept
    · exact absurd hevicted hgone
  · -- the entry is remembered until now, and the lookup goes by its fingerprint
    intro before after messageId data timestamp now huntil hfew hreplaces hwindow other data' hsame
    have hremembers : Remembers config
        (deduplicationRun sha256 config (before ++ [.registerMessage messageId data timestamp] ++
          after)) messageId
        (generateFingerprint sha256 data') timestamp := by
      rw [hsame]
      exact remembers_run hmax henabled hreplaces huntil hwindow hfew
    exact isDuplicate_of_remembers henabled (consistent_run _) hremembers other

/-- The digest of the empty object. -/
def emptyObjectDigest : Digest where
  text := ascii "44136fa355b3678a1146ad16f7e8649e94fb4fc21fe77e8310c060f61caaff8a"
  length := by decide

/-- A message that is seen again under another id. -/
theorem deduplication_again :
    (deduplicationRun (fun _ => emptyObjectDigest) ⟨true, 300000, 1⟩
      ([] ++ [.registerMessage "m1" (.object []) 0] ++ [.cleanupExpiredEntries 60000])).isDuplicate
        (fun _ => emptyObjectDigest) ⟨true, 300000, 1⟩ "m2" (.object []) := by
  refine (deduplication (fun _ => emptyObjectDigest)
    ⟨true, 300000, 1⟩ rfl le_rfl).2.2 [] [.cleanupExpiredEntries 60000]
    "m1" (.object []) 0 120000 ?_ ?_ ?_ (by decide) "m2" (.object []) rfl
  · unfold Until
    decide
  · exact fun start => List.countP_le_length
  · intro call hcall
    obtain rfl := List.mem_singleton.mp hcall
    exact id

end Queue
