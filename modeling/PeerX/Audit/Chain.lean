import PeerX.Foundations.HashChain
import PeerX.Foundations.Runs
import PeerX.Queue.Fingerprint

/-!
# Audit: the chain of log entries

An entry of the audit log carries a checksum over its content, over the time at which it was made
and over the checksum of the latest entry before it. The verification reads the entries in the order
of their creation and compares each with the one before it. It does not compute a checksum, and it
does not look at what the first entry carries.

## Main results

* `Hashed.committed`: what a checksum commits to
* `written_logAll`: the entries of a table are a chain of hashes
* `valid_iff_linked`: what the verification checks
* `reported_iff_seen`: the alterations that are reported
-/

namespace Audit

open Concurrency HashChain Queue Serialization

/-! ## Entries -/

inductive AuditEventType where
  | balanceCredit | balanceDebit | tradeOpened | tradeClosed | tradeCancelled | withdrawal | deposit | login
  | logout | register | passwordChanged | passwordResetRequested | accountLocked | accountActivated
  | accountSuspended | accountDeactivated | twoFaEnabled | twoFaDisabled | tokenRefreshed | sessionRevoked
  | suspiciousActivity | referralConfigUpdated | referralRewardAdjusted | referralBulkAdjusted
  | referralStatusChanged | referralFlagged | referralDisputeResolved | roleAssigned | roleRevoked
  | permissionGranted | permissionRevoked | userSuspended | userActivated | adminAction
deriving DecidableEq

def AuditEventType.text : AuditEventType → String
  | .balanceCredit => "BALANCE_CREDIT"
  | .balanceDebit => "BALANCE_DEBIT"
  | .tradeOpened => "TRADE_OPENED"
  | .tradeClosed => "TRADE_CLOSED"
  | .tradeCancelled => "TRADE_CANCELLED"
  | .withdrawal => "WITHDRAWAL"
  | .deposit => "DEPOSIT"
  | .login => "LOGIN"
  | .logout => "LOGOUT"
  | .register => "REGISTER"
  | .passwordChanged => "PASSWORD_CHANGED"
  | .passwordResetRequested => "PASSWORD_RESET_REQUESTED"
  | .accountLocked => "ACCOUNT_LOCKED"
  | .accountActivated => "ACCOUNT_ACTIVATED"
  | .accountSuspended => "ACCOUNT_SUSPENDED"
  | .accountDeactivated => "ACCOUNT_DEACTIVATED"
  | .twoFaEnabled => "TWO_FA_ENABLED"
  | .twoFaDisabled => "TWO_FA_DISABLED"
  | .tokenRefreshed => "TOKEN_REFRESHED"
  | .sessionRevoked => "SESSION_REVOKED"
  | .suspiciousActivity => "SUSPICIOUS_ACTIVITY"
  | .referralConfigUpdated => "REFERRAL_CONFIG_UPDATED"
  | .referralRewardAdjusted => "REFERRAL_REWARD_ADJUSTED"
  | .referralBulkAdjusted => "REFERRAL_BULK_ADJUSTED"
  | .referralStatusChanged => "REFERRAL_STATUS_CHANGED"
  | .referralFlagged => "REFERRAL_FLAGGED"
  | .referralDisputeResolved => "REFERRAL_DISPUTE_RESOLVED"
  | .roleAssigned => "ROLE_ASSIGNED"
  | .roleRevoked => "ROLE_REVOKED"
  | .permissionGranted => "PERMISSION_GRANTED"
  | .permissionRevoked => "PERMISSION_REVOKED"
  | .userSuspended => "USER_SUSPENDED"
  | .userActivated => "USER_ACTIVATED"
  | .adminAction => "ADMIN_ACTION"

inductive AuditSeverity where
  | info | warning | critical
deriving DecidableEq

/-- The fields of an entry that its checksum covers. -/
structure Content where
  userId : Option JsString
  eventType : AuditEventType
  entityType : Option JsString
  entityId : Option JsString
  beforeState : Option Value
  afterState : Option Value

structure CreateAuditLogDto extends Content where
  severity : Option AuditSeverity

structure AuditLog where
  id : String
  content : Content
  severity : AuditSeverity
  checksum : JsString
  previousChecksum : JsString
  createdAt : ℤ

/-- SHA-256, as the service uses it: different texts have different digests, in hexadecimal
digits. -/
structure Sha256 where
  digest : JsString → JsString
  injective : Function.Injective digest
  hexadecimal : ∀ text, ∀ u ∈ digest text, u ∈ ascii "0123456789abcdef"

/-- What the first entry carries. -/
def genesis : JsString := ascii "GENESIS"

/-- A string, as a value. -/
def text (s : JsString) : Value := .leaf (.scalar (.string s))

/-- The members of the object that is hashed, before the checksum of the last entry. A member
without a value is left out of the text. -/
def coveredMembers (content : Content) (timestamp : JsString) : List (JsString × Value) :=
  [("userId", content.userId.map text), ("eventType", some (text (ascii content.eventType.text))),
    ("entityType", content.entityType.map text), ("entityId", content.entityId.map text),
    ("beforeState", content.beforeState), ("afterState", content.afterState),
    ("timestamp", some (text timestamp))].filterMap fun member => member.2.map fun value => (ascii member.1, value)

def rawData (content : Content) (timestamp previousChecksum : JsString) : JsString :=
  stringify (.object (coveredMembers content timestamp ++ [(ascii "previousChecksum", text previousChecksum)]))

/-- The entry that `log` saves, at the time `now`. The database gives it its id and the time of its
creation. -/
def entry (sha256 : Sha256) (dto : CreateAuditLogDto) (previousChecksum : JsString) (now : ℤ) (id : String)
    (createdAt : ℤ) : AuditLog where
  id := id
  content := dto.toContent
  severity := dto.severity.getD .info
  checksum := sha256.digest (rawData dto.toContent (toISOString now) previousChecksum)
  previousChecksum := previousChecksum
  createdAt := createdAt

/-! ## The service -/

/-- `find`, in the order of creation. -/
def find (rows : List AuditLog) : List AuditLog := rows.insertionSort fun a b => a.createdAt ≤ b.createdAt

/-- `findOne`, the latest first. -/
def findOne (rows : List AuditLog) : Option AuditLog :=
  (rows.insertionSort fun a b => b.createdAt ≤ a.createdAt).head?

/-- `lastEntry?.checksum ?? 'GENESIS'`. -/
def previousOf (lastEntry : Option AuditLog) : JsString := (lastEntry.map AuditLog.checksum).getD genesis

/-- `save`. The column of the checksums is unique. -/
def save (rows : List AuditLog) (row : AuditLog) : Option (List AuditLog) :=
  if row.checksum ∈ rows.map AuditLog.checksum then none else some (rows ++ [row])

/-- A call of `log`, with the clock and what the database gives to the entry. -/
structure LogCall where
  dto : CreateAuditLogDto
  now : ℤ
  id : String
  createdAt : ℤ

/-- `log`: the table after the call. -/
def log (sha256 : Sha256) (rows : List AuditLog) (call : LogCall) : List AuditLog :=
  (save rows (entry sha256 call.dto (previousOf (findOne rows)) call.now call.id call.createdAt)).getD rows

/-- The table after calls of `log`, one at a time. -/
def logAll (sha256 : Sha256) (calls : List LogCall) : List AuditLog := run (log sha256) [] calls

/-- The entries that do not carry the checksum of the one before them. -/
def brokenLinks : List AuditLog → List AuditLog
  | first :: second :: logs =>
    if second.previousChecksum ≠ first.checksum then second :: brokenLinks (second :: logs)
    else brokenLinks (second :: logs)
  | _ => []

/-- The result of the verification. -/
structure IntegrityReport where
  broken : List AuditLog
  valid : Bool

/-- The comparisons of the verification, in the order in which the entries are found. -/
def verify (logs : List AuditLog) : IntegrityReport where
  broken := brokenLinks logs
  valid := (brokenLinks logs).length = 0

def verifyChainIntegrity (rows : List AuditLog) : IntegrityReport := verify (find rows)

/-! ## Alterations -/

/-- An alteration of a table: new content for an entry, a deleted entry, or two entries with the
times of their creation exchanged. -/
inductive Tampering where
  | change (k : ℕ) (content : Content)
  | delete (k : ℕ)
  | exchange (j k : ℕ)

/-- Two entries with the times of their creation exchanged. -/
def exchangeCreatedAt (j k : ℕ) (rows : List AuditLog) : List AuditLog :=
  match rows[j]?, rows[k]? with
  | some a, some b => (rows.set j { a with createdAt := b.createdAt }).set k { b with createdAt := a.createdAt }
  | _, _ => rows

/-- The altered table. -/
def Tampering.apply (rows : List AuditLog) : Tampering → List AuditLog
  | .change k content => rows.modify k fun row => { row with content }
  | .delete k => rows.eraseIdx k
  | .exchange j k => exchangeCreatedAt j k rows

/-- The alterations of stored entries: the content becomes another one, the last entry is not
deleted, and the two entries are different ones. -/
def Tampering.Alters (rows : List AuditLog) : Tampering → Prop
  | .change k content => ∃ row, rows[k]? = some row ∧ row.content ≠ content
  | .delete k => k + 1 < rows.length
  | .exchange j k => j < rows.length ∧ k < rows.length ∧ j ≠ k

/-- The alterations that the verification sees: an entry behind the first one is missing, or two
are exchanged. -/
def Tampering.Seen : Tampering → Prop
  | .change _ _ => False
  | .delete k => 0 < k
  | .exchange _ _ => True

/-- The entries are created one after the other. -/
def Increasing (calls : List LogCall) : Prop := calls.Pairwise fun a b => a.createdAt < b.createdAt

variable {sha256 : Sha256}

/-! ## What a checksum commits to -/

theorem digest_ne_genesis (raw : JsString) : sha256.digest raw ≠ genesis := by
  intro h
  have hmem := sha256.hexadecimal raw (Fin.ofNat 65536 'G'.toNat) (h ▸ List.mem_cons_self)
  revert hmem
  decide

/-- The checksum is that of the entry. -/
def Hashed (sha256 : Sha256) (row : AuditLog) : Prop :=
  ∃ timestamp, row.checksum = sha256.digest (rawData row.content timestamp row.previousChecksum)

/-- The hashed text tells the checksum of the entry before. -/
theorem previousChecksum_eq_of_rawData_eq {content content' : Content} {timestamp timestamp' previous previous' : JsString}
    (h : rawData content timestamp previous = rawData content' timestamp' previous') : previous = previous' := by
  have hdocument := text_injective h
  simp only [toDocument, JsonTree.map_object, List.map_append, List.map_singleton, JsonTree.object.injEq] at hdocument
  obtain ⟨-, hlast⟩ := List.append_inj' hdocument rfl
  simpa [Audit.text, DataLeaf.toJSON] using hlast

theorem Hashed.committed {a b : AuditLog} (ha : Hashed sha256 a) (hb : Hashed sha256 b) (h : a.checksum = b.checksum) :
    a.previousChecksum = b.previousChecksum := by
  obtain ⟨timestamp, ha⟩ := ha
  obtain ⟨timestamp', hb⟩ := hb
  exact previousChecksum_eq_of_rawData_eq (sha256.injective (ha.symm.trans (h.trans hb)))

theorem Hashed.ne_genesis {a : AuditLog} (ha : Hashed sha256 a) : a.checksum ≠ genesis := by
  obtain ⟨timestamp, ha⟩ := ha
  rw [ha]
  exact digest_ne_genesis _

theorem hashed_entry (dto : CreateAuditLogDto) (previousChecksum : JsString) (now : ℤ) (id : String) (createdAt : ℤ) :
    Hashed sha256 (entry sha256 dto previousChecksum now id createdAt) :=
  ⟨toISOString now, rfl⟩

/-! ## What the verification checks -/

variable {rows logs as bs cs : List AuditLog} {a b : AuditLog} {j k : ℕ}

theorem brokenLinks_eq_nil_iff : brokenLinks logs = [] ↔ Linked AuditLog.previousChecksum AuditLog.checksum logs := by
  induction logs with
  | nil => simp [brokenLinks, Linked]
  | cons first logs ih =>
    cases logs with
    | nil => simp [brokenLinks, Linked]
    | cons second logs =>
      have hcons : Linked AuditLog.previousChecksum AuditLog.checksum (first :: second :: logs) ↔
          second.previousChecksum = first.checksum ∧
            Linked AuditLog.previousChecksum AuditLog.checksum (second :: logs) := List.isChain_cons_cons
      rw [hcons, brokenLinks]
      split
      next hne => simp [hne]
      next heq => rw [ih, not_not.mp heq, eq_self_iff_true, true_and]

/-- **The verification checks the links**, in the order in which the entries are found. -/
theorem valid_iff_linked : (verify logs).valid ↔ Linked AuditLog.previousChecksum AuditLog.checksum logs := by
  rw [← brokenLinks_eq_nil_iff, ← List.length_eq_zero_iff]
  exact decide_eq_true_iff

/-! ## Entries in the order of their creation -/

/-- The entries stand in the order of their creation. -/
def InOrder (rows : List AuditLog) : Prop := rows.Pairwise fun a b => a.createdAt < b.createdAt

theorem InOrder.eq_of_createdAt_eq (h : InOrder rows) (ha : a ∈ rows) (hb : b ∈ rows) (heq : a.createdAt = b.createdAt) :
    a = b := by
  have htimes : (rows.map AuditLog.createdAt).Nodup := (List.pairwise_map.mpr h).imp ne_of_lt
  exact List.inj_on_of_nodup_map htimes ha hb heq

/-- What a query in the order of creation can return. Entries with the same time may stand in
any order. -/
structure Answers (rows logs : List AuditLog) : Prop where
  perm : logs.Perm rows
  ordered : logs.Pairwise fun a b => a.createdAt ≤ b.createdAt

theorem answers_find (rows : List AuditLog) : Answers rows (find rows) where
  perm := List.perm_insertionSort _ rows
  ordered := by
    have : Std.Total fun a b : AuditLog => a.createdAt ≤ b.createdAt := ⟨fun a b => le_total a.createdAt b.createdAt⟩
    have : IsTrans AuditLog fun a b => a.createdAt ≤ b.createdAt := ⟨fun _ _ _ => le_trans⟩
    exact List.pairwise_insertionSort _ rows

/-- Entries with different times can be returned in one order only. -/
theorem Answers.eq (hrows : Answers rows logs) (h : InOrder bs) (hperm : rows.Perm bs) : logs = bs := by
  have hlogs : logs.Perm bs := hrows.perm.trans hperm
  refine hlogs.eq_of_pairwise (fun a b ha hb hab hba => ?_) hrows.ordered (h.imp le_of_lt)
  exact h.eq_of_createdAt_eq (hlogs.mem_iff.mp ha) hb (le_antisymm hab hba)

/-- The entries are found in the order of their creation. -/
theorem find_eq (hperm : rows.Perm logs) (h : InOrder logs) : find rows = logs := (answers_find rows).eq h hperm

/-- The latest entry is the last one. -/
theorem findOne_eq (h : InOrder rows) : findOne rows = rows.getLast? := by
  have hfound : (rows.insertionSort fun a b => b.createdAt ≤ a.createdAt).Perm rows.reverse :=
    (List.perm_insertionSort _ rows).trans rows.reverse_perm.symm
  have : Std.Total fun a b : AuditLog => b.createdAt ≤ a.createdAt := ⟨fun a b => le_total b.createdAt a.createdAt⟩
  have : IsTrans AuditLog fun a b => b.createdAt ≤ a.createdAt := ⟨fun _ _ _ hab hbc => hbc.trans hab⟩
  have hreverse : (rows.insertionSort fun a b => b.createdAt ≤ a.createdAt) = rows.reverse := by
    refine hfound.eq_of_pairwise (fun a b ha hb hab hba => ?_) (List.pairwise_insertionSort _ rows)
      (List.pairwise_reverse.mpr (h.imp le_of_lt))
    exact h.eq_of_createdAt_eq (List.mem_reverse.mp (hfound.mem_iff.mp ha)) (List.mem_reverse.mp hb)
      (le_antisymm hba hab)
  rw [findOne, hreverse, List.head?_reverse]

/-! ## The table after calls, one at a time -/

/-- The entries of a table that `log` has written. -/
structure Written (sha256 : Sha256) (rows : List AuditLog) : Prop where
  grown : Grown AuditLog.previousChecksum AuditLog.checksum genesis rows
  hashed : ∀ row ∈ rows, Hashed sha256 row
  inOrder : InOrder rows

/-- An entry that carries the checksum of the last one is saved: its own one is a new one. -/
theorem Written.grown_concat (h : Written sha256 rows) (ha : Hashed sha256 a)
    (hprevious : a.previousChecksum = previousOf rows.getLast?) :
    Grown AuditLog.previousChecksum AuditLog.checksum genesis (rows ++ [a]) :=
  h.grown.concat hprevious (fun b hb heq => ha.committed (h.hashed b hb) heq) ha.ne_genesis

/-- One call of `log`. -/
theorem Written.log (h : Written sha256 rows) {call : LogCall} (hlater : ∀ row ∈ rows, row.createdAt < call.createdAt) :
    log sha256 rows call =
        rows ++ [entry sha256 call.dto (previousOf rows.getLast?) call.now call.id call.createdAt] ∧
      Written sha256 (log sha256 rows call) := by
  have hhashed : Hashed sha256 (entry sha256 call.dto (previousOf rows.getLast?) call.now call.id call.createdAt) :=
    hashed_entry _ _ _ _ _
  have hgrown := h.grown_concat hhashed rfl
  have hnew : (entry sha256 call.dto (previousOf rows.getLast?) call.now call.id call.createdAt).checksum ∉
      rows.map AuditLog.checksum := by
    have hnodup := hgrown.nodup
    rw [List.map_append, List.map_singleton] at hnodup
    exact (List.nodup_cons.mp (List.nodup_append_comm.mp hnodup)).1
  have hlog : Audit.log sha256 rows call =
      rows ++ [entry sha256 call.dto (previousOf rows.getLast?) call.now call.id call.createdAt] := by
    rw [Audit.log, findOne_eq h.inOrder, save, if_neg hnew]
    rfl
  refine ⟨hlog, hlog ▸ ⟨hgrown, ?_, ?_⟩⟩
  · intro row hrow
    rcases List.mem_append.mp hrow with hrow | hrow
    · exact h.hashed row hrow
    · exact List.mem_singleton.mp hrow ▸ hhashed
  · refine List.pairwise_append.mpr ⟨h.inOrder, List.pairwise_singleton _ _, fun row hrow a ha => ?_⟩
    rw [List.mem_singleton.mp ha]
    exact hlater row hrow

theorem Written.logAll (h : Written sha256 rows) {calls : List LogCall} (hcalls : Increasing calls)
    (hlater : ∀ row ∈ rows, ∀ call ∈ calls, row.createdAt < call.createdAt) :
    Written sha256 (run (Audit.log sha256) rows calls) ∧
      (run (Audit.log sha256) rows calls).map AuditLog.content =
        rows.map AuditLog.content ++ calls.map fun call => call.dto.toContent := by
  induction calls generalizing rows with
  | nil => exact ⟨h, (List.append_nil _).symm⟩
  | cons call calls ih =>
    obtain ⟨hfirst, hrest⟩ := List.pairwise_cons.mp hcalls
    obtain ⟨hlog, hwritten⟩ := h.log fun row hrow => hlater row hrow call List.mem_cons_self
    have hstep := ih hwritten hrest (by
      intro row hrow call' hcall'
      rw [hlog] at hrow
      rcases List.mem_append.mp hrow with hrow | hrow
      · exact hlater row hrow call' (List.mem_cons_of_mem _ hcall')
      · rw [List.mem_singleton.mp hrow]
        exact hfirst call' hcall')
    refine ⟨hstep.1, hstep.2.trans ?_⟩
    rw [hlog, List.map_append, List.append_assoc]
    rfl

/-- The entries of a table are a chain of hashes, and they have the contents of the calls. -/
theorem written_logAll (sha256 : Sha256) {calls : List LogCall} (h : Increasing calls) :
    Written sha256 (logAll sha256 calls) ∧
      (logAll sha256 calls).map AuditLog.content = calls.map fun call => call.dto.toContent := by
  have hnil : Written sha256 [] := ⟨.nil, by simp, List.Pairwise.nil⟩
  exact hnil.logAll h (by simp)

/-! ## The altered table -/

theorem exists_split (h : k < rows.length) : ∃ as a bs, rows = as ++ a :: bs ∧ as.length = k := by
  refine ⟨rows.take k, rows[k], rows.drop (k + 1), ?_, List.length_take_of_le h.le⟩
  rw [← List.drop_eq_getElem_cons h, List.take_append_drop]

/-- New content is not seen. -/
theorem valid_change (h : Written sha256 rows) (k : ℕ) (content : Content) :
    (verifyChainIntegrity (Tampering.apply rows (.change k content))).valid := by
  have hkeep : ∀ {β : Type} (f : AuditLog → β), (∀ row : AuditLog, f { row with content } = f row) →
      (rows.modify k fun row => { row with content }).map f = rows.map f := by
    intro β f hf
    apply List.ext_getElem?
    intro i
    rw [List.getElem?_map, List.getElem?_map, List.getElem?_modify]
    cases rows[i]? with
    | none => rfl
    | some row => by_cases hik : k = i <;> simp [hik, hf]
  have htimes : InOrder (rows.modify k fun row => { row with content }) := by
    apply List.pairwise_map.mp
    rw [hkeep AuditLog.createdAt fun _ => rfl]
    exact List.pairwise_map.mpr h.inOrder
  rw [Tampering.apply, verifyChainIntegrity, find_eq (List.Perm.refl _) htimes, valid_iff_linked]
  exact (linked_congr (hkeep _ fun _ => rfl)).mpr h.grown.linked

/-- A missing entry is seen if it is not the first one. -/
theorem valid_delete_iff (h : Written sha256 rows) (hk : k + 1 < rows.length) :
    (verifyChainIntegrity (Tampering.apply rows (.delete k))).valid ↔ k = 0 := by
  obtain ⟨as, a, bs, rfl, rfl⟩ := exists_split (show k < rows.length by omega)
  have hdelete : (as ++ a :: bs).eraseIdx as.length = as ++ bs := by
    rw [List.eraseIdx_append_of_length_le le_rfl, Nat.sub_self, List.eraseIdx_cons_zero]
  have hbs : bs ≠ [] := by
    rintro rfl
    rw [List.length_append, List.length_singleton] at hk
    omega
  have htimes : InOrder (as ++ bs) := hdelete ▸ h.inOrder.sublist (List.eraseIdx_sublist _ _)
  rw [Tampering.apply, hdelete, verifyChainIntegrity, find_eq (List.Perm.refl _) htimes, valid_iff_linked,
    h.grown.linked_delete_iff hbs, List.length_eq_zero_iff]

theorem exchangeCreatedAt_comm (hjk : j ≠ k) : exchangeCreatedAt j k rows = exchangeCreatedAt k j rows := by
  unfold exchangeCreatedAt
  cases hj : rows[j]? with
  | none => cases hk : rows[k]? <;> rfl
  | some a =>
    cases hk : rows[k]? with
    | none => rfl
    | some b => exact List.set_comm _ _ hjk

/-- Exchanged entries are seen. -/
theorem not_valid_exchange_of_lt (h : Written sha256 rows) (hjk : j < k) (hk : k < rows.length) :
    ¬ (verifyChainIntegrity (exchangeCreatedAt j k rows)).valid := by
  obtain ⟨as, a, rest, rfl, rfl⟩ := exists_split (show j < rows.length by omega)
  rw [List.length_append, List.length_cons] at hk
  obtain ⟨bs, b, cs, rfl, hbs⟩ := exists_split (show k - as.length - 1 < rest.length by omega)
  obtain rfl : k = as.length + (bs.length + 1) := by omega
  have hexchange : exchangeCreatedAt as.length (as.length + (bs.length + 1)) (as ++ a :: (bs ++ b :: cs)) =
      as ++ { a with createdAt := b.createdAt } :: (bs ++ { b with createdAt := a.createdAt } :: cs) := by
    simp [exchangeCreatedAt]
  have hperm : (as ++ { a with createdAt := b.createdAt } :: (bs ++ { b with createdAt := a.createdAt } :: cs)).Perm
      (as ++ { b with createdAt := a.createdAt } :: (bs ++ { a with createdAt := b.createdAt } :: cs)) := by
    refine List.Perm.append_left as ?_
    refine (List.Perm.cons _ List.perm_middle).trans ((List.Perm.swap _ _ _).trans ?_)
    exact List.Perm.cons _ List.perm_middle.symm
  have htimes : InOrder (as ++ { b with createdAt := a.createdAt } :: (bs ++ { a with createdAt := b.createdAt } :: cs)) := by
    apply List.pairwise_map.mp
    have hmap := List.pairwise_map.mpr h.inOrder
    simpa using hmap
  rw [hexchange, verifyChainIntegrity, find_eq hperm htimes, valid_iff_linked]
  exact h.grown.not_linked_exchange rfl rfl

/-- **The verification reports the alterations that it sees**, of a table that calls of `log` have
written. -/
theorem reported_iff_seen (sha256 : Sha256) (calls : List LogCall) (hcalls : Increasing calls) (tampering : Tampering)
    (h : tampering.Alters (logAll sha256 calls)) :
    (verifyChainIntegrity (tampering.apply (logAll sha256 calls))).valid = false ↔ tampering.Seen := by
  obtain ⟨hwritten, -⟩ := written_logAll sha256 hcalls
  rw [← Bool.not_eq_true]
  cases tampering with
  | change k content => exact iff_of_false (not_not_intro (valid_change hwritten k content)) id
  | delete k => exact (not_congr (valid_delete_iff hwritten h)).trans Nat.pos_iff_ne_zero.symm
  | exchange j k =>
    obtain ⟨hj, hk, hjk⟩ := h
    refine iff_of_true ?_ trivial
    rcases Nat.lt_or_gt_of_ne hjk with hlt | hgt
    · exact not_valid_exchange_of_lt hwritten hlt hk
    · rw [Tampering.apply, exchangeCreatedAt_comm hjk]
      exact not_valid_exchange_of_lt hwritten hgt hj

/-! ## Digests in runs that are computed -/

/-- The login of a user. -/
def login (user : String) : CreateAuditLogDto where
  userId := some (ascii user)
  eventType := .login
  entityType := none
  entityId := none
  beforeState := none
  afterState := none
  severity := none

/-- The digest of the first login of a log, at the time 0. -/
def loginDigest : JsString := ascii "21ca54f633fc83218a3416ac6f8ff7b9188fc164246e97eea86020c677b56831"

/-- The texts whose digests are computed: the login, a logout after it, and a login that is the
first one as well. -/
def knownDigests : List (JsString × JsString) :=
  [(rawData (login "u1").toContent (toISOString 0) genesis, loginDigest),
    (rawData { (login "u1").toContent with eventType := .logout } (toISOString 1000) loginDigest,
      ascii "42b5f80056c7109e2c761bdd69621ac9be19e1f7971f26584b43663eed514f09"),
    (rawData (login "u2").toContent (toISOString 1000) genesis,
      ascii "59fe03dc4fa47dfd1fde0980d50606fac5442985ee0ea836bc32636e0087bb91")]

/-- A text, spelled out in hexadecimal digits. -/
def spell (raw : JsString) : JsString := 0x30 :: raw.flatMap hexDigits

theorem length_spell (raw : JsString) : (spell raw).length = 4 * raw.length + 1 := by
  rw [spell, List.length_cons]
  induction raw with
  | nil => rfl
  | cons u raw ih =>
    rw [List.flatMap_cons, List.length_append, List.length_cons, hexDigits]
    simp only [List.length_cons, List.length_nil]
    omega

theorem spell_injective : Function.Injective spell := by
  intro raw raw' h
  have htail := (List.cons.inj h).2
  clear h
  induction raw generalizing raw' with
  | nil =>
    cases raw' with
    | nil => rfl
    | cons u raw' => cases htail
  | cons u raw ih =>
    cases raw' with
    | nil => cases htail
    | cons u' raw' =>
      rw [List.flatMap_cons, List.flatMap_cons] at htail
      obtain ⟨rfl, hrest⟩ := hexDigits_append_inj htail
      rw [ih hrest]

theorem hexDigit_mem (digit : Fin 16) : hexDigit digit ∈ ascii "0123456789abcdef" := by
  revert digit
  decide

theorem nodup_knownDigests : (knownDigests.map Prod.snd).Nodup := by decide +kernel

theorem knownDigests_sound : (knownDigests.map Prod.snd).all fun digest =>
    digest.length == 64 && digest.all fun u => (ascii "0123456789abcdef").contains u := by
  decide +kernel

theorem sound_of_lookup {raw digest : JsString} (h : knownDigests.lookup raw = some digest) :
    (raw, digest) ∈ knownDigests ∧ digest.length = 64 ∧ ∀ u ∈ digest, u ∈ ascii "0123456789abcdef" := by
  obtain ⟨l, l', hsplit, -⟩ := List.lookup_eq_some_iff.mp h
  have hmem : (raw, digest) ∈ knownDigests := hsplit ▸ List.mem_append_right _ List.mem_cons_self
  have hsound := List.all_eq_true.mp knownDigests_sound digest (List.mem_map.mpr ⟨_, hmem, rfl⟩)
  obtain ⟨hlength, hdigits⟩ := Bool.and_eq_true_iff.mp hsound
  exact ⟨hmem, beq_iff_eq.mp hlength, fun u hu => List.contains_iff_mem.mp (List.all_eq_true.mp hdigits u hu)⟩

/-- A hash function that is SHA-256 on the texts whose digests are computed, and spells out the
other ones. -/
def computed : Sha256 where
  digest := fun raw => (knownDigests.lookup raw).getD (spell raw)
  injective := by
    -- a digest that is computed has an even number of digits, and a text that is spelled out an odd one
    have hlength : ∀ raw raw' digest, knownDigests.lookup raw = some digest → digest ≠ spell raw' := by
      intro raw raw' digest hlookup heq
      obtain ⟨-, h64, -⟩ := sound_of_lookup hlookup
      rw [heq, length_spell] at h64
      omega
    intro raw raw' h
    cases hraw : knownDigests.lookup raw with
    | none =>
      cases hraw' : knownDigests.lookup raw' with
      | none => exact spell_injective (by simpa [hraw, hraw'] using h)
      | some digest' => exact absurd (by simpa [hraw, hraw'] using h.symm) (hlength raw' raw digest' hraw')
    | some digest =>
      cases hraw' : knownDigests.lookup raw' with
      | none => exact absurd (by simpa [hraw, hraw'] using h) (hlength raw raw' digest hraw)
      | some digest' =>
        have hdigests : digest = digest' := by simpa [hraw, hraw'] using h
        have hpairs := List.inj_on_of_nodup_map nodup_knownDigests (sound_of_lookup hraw).1 (sound_of_lookup hraw').1
          hdigests
        exact congrArg Prod.fst hpairs
  hexadecimal := by
    intro raw u hu
    cases hraw : knownDigests.lookup raw with
    | none =>
      simp only [hraw, Option.getD_none, spell, List.mem_cons, List.mem_flatMap] at hu
      rcases hu with rfl | ⟨v, -, hv⟩
      · decide
      · simp only [hexDigits, List.mem_cons, List.not_mem_nil, or_false] at hv
        rcases hv with rfl | rfl | rfl | rfl <;> exact hexDigit_mem _
    | some digest =>
      simp only [hraw, Option.getD_some] at hu
      exact (sound_of_lookup hraw).2.2 u hu

/-- A login and a logout of a user, one second after each other. -/
def session : List LogCall :=
  [⟨login "u1", 0, "first", 0⟩, ⟨{ login "u1" with eventType := .logout }, 1000, "second", 1000⟩]

theorem increasing_session : Increasing session := by simp [session, Increasing]

/-- The deletion of the login is not reported. -/
theorem session_reported_iff_seen :
    (verifyChainIntegrity (Tampering.apply (logAll computed session) (.delete 0))).valid = false ↔
      Tampering.Seen (.delete 0) := by
  refine reported_iff_seen computed session increasing_session (.delete 0) ?_
  have hlength := congrArg List.length (written_logAll computed increasing_session).2
  rw [List.length_map, List.length_map] at hlength
  rw [Tampering.Alters, hlength]
  decide

/-- **Another user id** in the entry of the login, and the log is reported as valid. -/
theorem changed_userId_not_reported :
    Tampering.Alters (logAll computed session) (.change 0 (login "u2").toContent) ∧
      ¬ (verifyChainIntegrity
        (Tampering.apply (logAll computed session) (.change 0 (login "u2").toContent))).valid = false := by
  obtain ⟨hwritten, hcontents⟩ := written_logAll computed increasing_session
  constructor
  · have hfirst := congrArg (fun contents => contents[0]?) hcontents
    obtain ⟨row, hrow, hcontent⟩ := Option.map_eq_some_iff.mp ((List.getElem?_map ..).symm.trans hfirst)
    refine ⟨row, hrow, fun h => ?_⟩
    have huser := congrArg Content.userId (hcontent.symm.trans h)
    revert huser
    decide
  · rw [valid_change hwritten]
    decide

end Audit
