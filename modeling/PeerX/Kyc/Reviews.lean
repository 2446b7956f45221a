import PeerX.Kyc.KycService
import PeerX.Foundations.Transactions

/-!
# KYC: concurrent reviews

Any number of calls change the records at the same time. A transaction locks its record until it
commits, so a status is changed from the one that was committed just before. All changes are lawful
exactly when no override by the user of a record changes it: the override does not make the check on
the actor that the update makes.

## Main results

* `safe_session`: what a call does to the records
* `performs_of_run`: each commit is that of a call that passed its checks, on the record as it was
  committed
* `reviews_lawful_iff`: the runs in which all changes are lawful
* `own_record_overridden`: a run in which one is not
-/

namespace Kyc

open Concurrency Relational

variable {ι : Type}

/-- The server of the records. -/
abbrev KycServer (ι : Type) := Server KycDb KycRecord ℤ KycRecord ι

/-- The configurations of the calls. -/
abbrev Reviews (ι : Type) := Clients Stmt.Reply KycDb KycRecord ℤ KycRecord KycError KycRecord ι

/-- Any number of calls at the same time, before their first statement. -/
def reviews (type : String) (calls : ι → KycCall) (faults : ι → Option ℕ) (d₀ : KycDb) : Reviews ι :=
  ⟨Server.idle d₀, fun i => (calls i).session type (faults i)⟩

/-- The records after some commits. -/
def recordsAfter (d₀ : KycDb) (h : List (Commit ι KycRecord KycRecord)) : KycDb :=
  kycSql.applyAll (h.flatMap Commit.writes) d₀

/-- Each commit, with the records before and after it. -/
def EachCommit (d₀ : KycDb) (P : Commit ι KycRecord KycRecord → KycDb → KycDb → Prop)
    (h : List (Commit ι KycRecord KycRecord)) : Prop :=
  ∀ before r after, h = before ++ r :: after → P r (recordsAfter d₀ before) (recordsAfter d₀ (before ++ [r]))

/-- What a call may change: a status as the map of transitions says, or by an override; a
terminal status only by an override of the governance of KYC, which holds no governance role; and
not the own record. -/
structure Lawful (call : KycCall) (d d' : KycDb) : Prop where
  transition : ∀ userId record record', d.find userId = some record → d'.find userId = some record' →
    record'.status ≠ record.status → ¬ call.IsOverride → record'.status ∈ allowedTransitions record.status
  terminal : ∀ userId record record', d.find userId = some record → d'.find userId = some record' →
    record'.status ≠ record.status → record.status ∈ terminalStates →
      call.IsOverride ∧ call.actor.Holds "KYC_GOVERNANCE" ∧ ¬ call.actor.Holds "GOVERNANCE_OPERATOR"
  others : ∀ userId, d'.find userId ≠ d.find userId → call.actor.id ≠ some userId

/-- No override by the user of the record changes it. -/
def Impartial (call : KycCall) (d : KycDb) : Prop :=
  call.IsOverride → call.actor.id = some call.target →
    ∀ record, d.find call.target = some record → call.change call.target record = record

/-- A call that passes its checks writes the record that it changes. -/
def Performs (call : KycCall) (d : KycDb) (writes : List KycRecord) : Prop :=
  ∃ actorId record, call.authorize = .ok actorId ∧ d.find call.target = some record ∧
    call.validate record = .ok () ∧ writes = [call.change actorId record]

/-! ## One call -/

theorem userId_change (actorId : ℤ) (call : KycCall) (record : KycRecord) :
    (call.change actorId record).userId = record.userId := by
  cases call <;> rfl

theorem find_performed {call : KycCall} {d : KycDb} {record : KycRecord} (h : d.find call.target = some record)
    (actorId userId : ℤ) :
    (d.save (call.change actorId record)).find userId =
      if userId = call.target then some (call.change actorId record) else d.find userId := by
  rw [Table.find_save, userId_change, Table.key_of_find h]

/-- What a call that passes its checks does is lawful, unless it is an override of the own
record. -/
theorem lawful_performs_iff {call : KycCall} {d : KycDb} {writes : List KycRecord} (h : Performs call d writes) :
    Lawful call d (kycSql.applyAll writes d) ↔ Impartial call d := by
  obtain ⟨actorId, record, hauthorize, hfind, hvalidate, rfl⟩ := h
  obtain ⟨hid, hgovernance, hcall⟩ := authorize_eq_ok hauthorize
  have hafter : ∀ userId, (kycSql.applyAll [call.change actorId record] d).find userId =
      if userId = call.target then some (call.change actorId record) else d.find userId :=
    find_performed hfind actorId
  -- a status changes in the record of the call only
  have hchanged : ∀ {userId before after}, d.find userId = some before →
      (kycSql.applyAll [call.change actorId record] d).find userId = some after → after.status ≠ before.status →
        before = record ∧ after = call.change actorId record := by
    intro userId before after hbefore hsaved hne
    rw [hafter] at hsaved
    split at hsaved
    next huser =>
      subst huser
      exact ⟨Option.some.inj (hbefore.symm.trans hfind), (Option.some.inj hsaved).symm⟩
    next =>
      obtain rfl := Option.some.inj (hbefore.symm.trans hsaved)
      exact absurd rfl hne
  constructor
  · intro hlawful hoverride hself current hcurrent
    obtain rfl := Option.some.inj (hfind.symm.trans hcurrent)
    obtain rfl : actorId = call.target := Option.some.inj (hid.symm.trans hself)
    by_contra hne
    refine hlawful.others call.target ?_ hself
    rw [hafter, if_pos rfl, hfind]
    exact fun heq => hne (Option.some.inj heq)
  · intro himpartial
    refine ⟨?_, ?_, ?_⟩
    · intro userId before after hbefore hsaved hne hupdate
      obtain ⟨rfl, rfl⟩ := hchanged hbefore hsaved hne
      cases call with
      | updateStatus targetUserId nextStatus operator notes => exact (validateTransition_eq_ok hvalidate).2
      | governanceOverride targetUserId nextStatus governance notes => exact absurd trivial hupdate
    · intro userId before after hbefore hsaved hne hterminal
      obtain ⟨rfl, rfl⟩ := hchanged hbefore hsaved hne
      rcases hcall with ⟨hoverride, hheld⟩ | ⟨hupdate, -⟩
      · exact ⟨hoverride, hheld, hgovernance⟩
      · cases call with
        | updateStatus targetUserId nextStatus operator notes =>
          exact absurd hterminal (validateTransition_eq_ok hvalidate).1
        | governanceOverride targetUserId nextStatus governance notes => exact absurd trivial hupdate
    · intro userId hne hself
      rw [hafter] at hne
      split at hne
      next huser =>
        obtain rfl : actorId = userId := Option.some.inj (hid.symm.trans hself)
        subst huser
        rcases hcall with ⟨hoverride, -⟩ | ⟨-, hother⟩
        · exact hne (by rw [hfind, himpartial hoverride hself record hfind])
        · exact hother rfl
      next => exact hne rfl

/-! ## The history -/

theorem recordsAfter_concat (d₀ : KycDb) (h : List (Commit ι KycRecord KycRecord)) (r : Commit ι KycRecord KycRecord) :
    recordsAfter d₀ (h ++ [r]) = kycSql.applyAll r.writes (recordsAfter d₀ h) := by
  simp [recordsAfter, List.flatMap_append]

theorem eachCommit_nil (d₀ : KycDb) (P : Commit ι KycRecord KycRecord → KycDb → KycDb → Prop) : EachCommit d₀ P [] := by
  intro before r after h
  simp at h

theorem EachCommit.concat {d₀ : KycDb} {P : Commit ι KycRecord KycRecord → KycDb → KycDb → Prop}
    {h : List (Commit ι KycRecord KycRecord)} {r : Commit ι KycRecord KycRecord} (heach : EachCommit d₀ P h)
    (hr : P r (recordsAfter d₀ h) (recordsAfter d₀ (h ++ [r]))) : EachCommit d₀ P (h ++ [r]) := by
  intro before r' after hsplit
  rcases List.eq_nil_or_concat after with rfl | ⟨after, last, rfl⟩
  · obtain ⟨rfl, heq⟩ := List.append_inj' hsplit rfl
    obtain rfl := List.singleton_inj.mp heq
    exact hr
  · rw [List.concat_eq_append, ← List.cons_append, ← List.append_assoc] at hsplit
    exact heach before r' after (List.append_inj' hsplit rfl).1

/-- The row of a user, which its lock protects. -/
def recordRows : kycSql.Rows (Option KycRecord) where
  obs userId d := d.find userId
  frame := by
    intro record d userId htarget
    exact Table.find_save_of_ne d fun heq => htarget (congrArg some heq.symm)
  congr := by
    intro record d d' userId heq
    change (d.save record).find userId = (d'.save record).find userId
    rw [Table.find_save, Table.find_save, heq]

variable (calls : ι → KycCall) (d₀ : KycDb)

/-- What is true of a row with its history: it is what the commits made of it, and each commit
that wrote it is that of a call that passed its checks. -/
def reviewSpec : RowSpec ι KycRecord KycRecord ℤ (Option KycRecord) where
  good userId h x := x = (recordsAfter d₀ h).find userId ∧ (∀ r ∈ h, r.writes ≠ []) ∧
    EachCommit d₀ (fun r d _ => (∃ record ∈ r.writes, record.userId = userId) → Performs (calls r.thread) d r.writes) h
  move _ _ _ := True
  move_refl _ _ := trivial
  move_trans _ _ _ _ _ _ := trivial

/-- What a call does to the row that it writes. -/
def Reviewed (call : KycCall) (writes : List KycRecord) (userId : ℤ) (x x' : Option KycRecord) : Prop :=
  ∃ actorId record, call.authorize = .ok actorId ∧ call.target = userId ∧ x = some record ∧
    call.validate record = .ok () ∧ writes = [call.change actorId record] ∧ x' = some (call.change actorId record)

variable {calls d₀}

/-- A call that writes as it is checked keeps what is true of the rows. -/
theorem keeps_reviewed (r : Commit ι KycRecord KycRecord) (hwrites : r.writes ≠ []) :
    (reviewSpec calls d₀).Keeps kycSql r (Reviewed (calls r.thread) r.writes) := by
  rintro userId h x ⟨hx, hnonempty, heach⟩
  have hnonempty' : ∀ r' ∈ h ++ [r], r'.writes ≠ [] := by
    intro r' hr'
    rcases List.mem_append.mp hr' with hr' | hr'
    · exact hnonempty r' hr'
    · exact List.mem_singleton.mp hr' ▸ hwrites
  constructor
  · intro hfree
    refine ⟨?_, hnonempty', heach.concat ?_⟩
    · rw [recordsAfter_concat, hx]
      exact (recordRows.frame_applyAll hfree _).symm
    · rintro ⟨record, hrecord, huser⟩
      exact absurd (congrArg some huser) (hfree record hrecord)
  · rintro x' - ⟨actorId, record, hauthorize, rfl, rfl, hvalidate, heq, rfl⟩
    refine ⟨⟨?_, hnonempty', heach.concat ?_⟩, trivial⟩
    · have hfind := find_performed hx.symm actorId (calls r.thread).target
      rw [if_pos rfl] at hfind
      rw [recordsAfter_concat, heq]
      exact hfind.symm
    · exact fun _ => ⟨actorId, record, hauthorize, hx.symm, hvalidate, heq⟩

/-! ## Every interleaving -/

variable [DecidableEq ι] {type : String} {s : KycServer ι} {i : ι}

/-- What the transaction of a call ends with. -/
def ReviewDone (call : KycCall) (i : ι) (o : Except KycError KycRecord) (s : KycServer ι) : Prop :=
  ∀ a, o = .ok a → s.pending i ≠ [] ∧ Edited recordRows (Reviewed call (s.pending i)) s i

/-- The transaction of a call that was authorized. It holds the record from the query to the
commit. -/
theorem safe_mutateRecord (hlock : supportsPessimisticWriteLock type) {actorId : ℤ}
    (hauthorize : (calls i).authorize = .ok actorId) (hclear : s.Clear i) :
    (stmtProtocol (RowSpec.protocol recordRows (reviewSpec calls d₀))).Safe (kycSql.statements KycRecord ι) i
      (ReviewDone (calls i) i)
      (mutateRecord type (calls i).target (calls i).validate ((calls i).change actorId)) s := by
  let find : Stmt := .findOne (calls i).target (supportsPessimisticWriteLock type)
  refine safe_history_stmt fun s₁ hr _ => ?_
  have hclear₁ : s₁.Clear i := hclear.of_keeps hr.1
  cases hrecord : (s₁.view kycSql i).find (calls i).target with
  | none =>
    have hreply : kycSql.reply find (s₁.view kycSql i) = none := hrecord
    rw [hreply]
    exact fun a ha => by cases ha
  | some record =>
    have hreply : kycSql.reply find (s₁.view kycSql i) = some record := hrecord
    rw [hreply]
    dsimp only
    cases hvalidate : (calls i).validate record with
    | error e => exact fun a ha => by cases ha
    | ok _ =>
      -- the query has locked the row: from here on nobody else changes it
      have hheld : HoldsRow recordRows (fun _ => True) (s₁.afterStmt kycSql i find) i (calls i).target (some record) := by
        have hlocks : (calls i).target ∈ kycSql.locks find (s₁.view kycSql i) := by
          have hsome : ((s₁.view kycSql i).find (calls i).target).isSome := by rw [hrecord]; rfl
          change _ ∈ Stmt.locks find _
          rw [Stmt.locks, if_pos ⟨hlock, hsome⟩]
          exact List.mem_singleton_self _
        have hholds := holdsRow_of_lock (O := recordRows) (T := fun _ => True) (untouched_of_clear hclear₁) trivial
          (fun d w hw => by cases hw) hlocks
        rwa [show recordRows.obs (calls i).target (s₁.view kycSql i) = some record from hrecord] at hholds
      have hkey : record.userId = (calls i).target := Table.key_of_find hrecord
      refine safe_history_stmt fun s₂ hr₂ _ => ?_
      have hheld₂ := hheld.of_holding hr₂
      -- the save is the only write of the transaction
      have hpending : (s₂.afterStmt kycSql i (.save ((calls i).change actorId record))).pending i =
          [(calls i).change actorId record] := by
        have hnothing : (s₁.afterStmt kycSql i find).pending i = [] := by
          rw [Server.pending_afterStmt, hclear₁.pending]
          rfl
        rw [Server.pending_afterStmt, hr₂.1.pending, hnothing]
        rfl
      rintro a -
      rw [hpending]
      refine ⟨List.cons_ne_nil _ _, hheld₂.edited_afterStmt trivial (fun _ hk => absurd trivial hk) ?_ ?_⟩
      · intro w hw k _ htarget
        obtain rfl := List.mem_singleton.mp hw
        rw [← Option.some.inj htarget, userId_change, hkey]
      · refine ⟨actorId, record, hauthorize, rfl, rfl, hvalidate, rfl, ?_⟩
        have hsaved := Table.find_save_self (s₂.view kycSql i) ((calls i).change actorId record)
        rwa [userId_change, hkey] at hsaved

/-- **Every call** keeps what is true of the rows. -/
theorem safe_session (hlock : supportsPessimisticWriteLock type) (fault : Option ℕ) (hclear : s.Clear i) :
    (RowSpec.protocol recordRows (reviewSpec calls d₀)).Safe (kycSql.machine KycRecord ι) i (fun _ _ => True)
      ((calls i).session type fault) s := by
  rw [KycCall.session]
  cases hauthorize : (calls i).authorize with
  | error e => trivial
  | ok actorId =>
    have hfaulty : (stmtProtocol (RowSpec.protocol recordRows (reviewSpec calls d₀))).Safe
        (kycSql.statements KycRecord ι) i (ReviewDone (calls i) i) (KycCall.withFault fault
          (mutateRecord type (calls i).target (calls i).validate ((calls i).change actorId))) s := by
      cases fault with
      | none => exact safe_mutateRecord hlock hauthorize hclear
      | some n => exact Protocol.Safe.failAt (fun s a ha => by cases ha) (safe_mutateRecord hlock hauthorize hclear) n
    refine Protocol.safe_mono (fun _ _ _ => trivial) (safe_history_transaction (Q := fun _ => True) ?_)
    refine Protocol.safe_mono (fun o s hdone a ha => ⟨⟨_, (hdone a ha).2, ?_⟩, trivial⟩) hfaulty
    exact keeps_reviewed ⟨i, s.pending i, a⟩ (hdone a ha).1

/-! ## Every run -/

variable {faults : ι → Option ℕ} {is : List ι} {c : Reviews ι}

/-- **Each commit is that of a call that passed its checks**, on the record that was committed just
before. -/
theorem performs_of_run (hlock : supportsPessimisticWriteLock type)
    (hr : (reviews type calls faults d₀).run (kycSql.machine KycRecord ι) is = some c) :
    EachCommit d₀ (fun r d _ => Performs (calls r.thread) d r.writes) c.shared.history := by
  have hstart : (RowSpec.protocol recordRows (reviewSpec calls d₀)).AllSafe (kycSql.machine KycRecord ι)
      (fun _ _ _ => True) (reviews type calls faults d₀) := by
    refine ⟨⟨Server.owned_idle d₀, fun userId => ⟨rfl, ?_, eachCommit_nil d₀ _⟩⟩, fun i => ?_⟩
    · intro r hr
      cases hr
    · exact safe_session hlock (faults i) (Server.clear_idle d₀)
  obtain ⟨⟨hinv, -⟩, -⟩ := RowSpec.run_moved (fun _ _ _ _ _ _ => trivial) hstart hr
  intro before r after hsplit
  have hcommit : r ∈ c.shared.history := by
    rw [hsplit]
    exact List.mem_append_right _ (List.mem_cons_self ..)
  -- the commit wrote some row, and the history of that row says what it did
  obtain ⟨record, hrecord⟩ := List.exists_mem_of_ne_nil _ ((hinv.good 0).2.1 r hcommit)
  exact (hinv.good record.userId).2.2 before r after hsplit ⟨record, hrecord, rfl⟩

/-- The transaction of a call, if it is authorized. -/
def review (type : String) (fault : Option ℕ) (call : KycCall) : KycTx :=
  match call.authorize with
  | .error e => .fail e
  | .ok actorId => KycCall.withFault fault (mutateRecord type call.target call.validate (call.change actorId))

theorem issues_any (writes : List KycRecord) (tx : KycTx) :
    kycSql.Issues (fun _ _ _ => True) (fun _ _ => True) writes tx := by
  induction tx generalizing writes with
  | ret a => trivial
  | fail e => trivial
  | call c k ih => exact ⟨trivial, fun d => ih _ _⟩

/-- What the calls do under every schedule: those that commit are those that return. -/
theorem progress_of_run (hr : (reviews type calls faults d₀).run (kycSql.machine KycRecord ι) is = some c) :
    Progress kycSql id (fun i => review type (faults i) (calls i)) d₀ (fun _ _ _ _ => True) c := by
  refine Config.run_invariant (fun _ _ _ h hs => h.step hs) ?_ hr
  refine ⟨List.nodup_nil, fun i => ?_, rfl, fun i => ?_, ?_⟩
  · constructor
    · intro h
      cases h
    · rintro ⟨a, ha⟩
      change (calls i).session type (faults i) = _ at ha
      rw [KycCall.session] at ha
      split at ha
      · cases ha
      · exact absurd ha transaction_ne_ret
  · change (∃ q, (calls i).session type (faults i) = _ ∧ _) ∨ (∃ a, (calls i).session type (faults i) = _) ∨
      ∃ e, (calls i).session type (faults i) = _
    cases hauthorize : (calls i).authorize with
    | error e =>
      refine .inr (.inr ⟨e, ?_⟩)
      rw [KycCall.session, hauthorize]
    | ok actorId =>
      refine .inl ⟨review type (faults i) (calls i), ?_, issues_any _ _, fun _ => rfl⟩
      rw [KycCall.session, review, hauthorize]
  · intro h hh
    cases hh

omit [DecidableEq ι] in
/-- A property of each commit, when the commits have another. -/
theorem EachCommit.congr {P Q O : Commit ι KycRecord KycRecord → KycDb → KycDb → Prop}
    {h : List (Commit ι KycRecord KycRecord)} (hO : EachCommit d₀ O h)
    (hiff : ∀ r d, O r d (kycSql.applyAll r.writes d) →
      (P r d (kycSql.applyAll r.writes d) ↔ Q r d (kycSql.applyAll r.writes d))) :
    EachCommit d₀ P h ↔ EachCommit d₀ Q h := by
  refine forall_congr' fun before => forall_congr' fun r => forall_congr' fun after => forall_congr' fun hsplit => ?_
  have hcommit := hO before r after hsplit
  rw [recordsAfter_concat] at hcommit ⊢
  exact hiff r _ hcommit

/-- **A call that is rejected changes nothing, and all changes are lawful exactly when no override
by the user of a record changes it.** The records are always what the commits made of them. -/
theorem reviews_lawful_iff (hlock : supportsPessimisticWriteLock type)
    (hr : (reviews type calls faults d₀).run (kycSql.machine KycRecord ι) is = some c) :
    ((∀ i e, c.threads i = .fail e → i ∉ c.shared.history.map Commit.thread) ∧
      c.shared.committed = recordsAfter d₀ c.shared.history) ∧
    (EachCommit d₀ (fun r d d' => Lawful (calls r.thread) d d') c.shared.history ↔
      EachCommit d₀ (fun r d _ => Impartial (calls r.thread) d) c.shared.history) := by
  have hprogress := progress_of_run hr
  refine ⟨⟨?_, hprogress.replay⟩, (performs_of_run hlock hr).congr fun r d => lawful_performs_iff⟩
  intro i e hfail hcommitted
  obtain ⟨a, ha⟩ := (hprogress.returned i).mp hcommitted
  rw [hfail] at ha
  cases ha

/-! ### A user who overrides the own record -/

omit [DecidableEq ι] in
/-- The calls of actors that pass their checks, when no statement fails. -/
theorem reviews_of_authorized {actors : ι → ℤ} (hauthorized : ∀ i, (calls i).authorize = .ok (actors i)) :
    reviews type calls (fun _ => none) d₀ = ⟨Server.idle d₀, fun i =>
      transaction id (mutateRecord type (calls i).target (calls i).validate ((calls i).change (actors i)))⟩ := by
  rw [reviews, Config.mk.injEq]
  refine ⟨rfl, funext fun i => ?_⟩
  rw [KycCall.session, hauthorized i]
  rfl

/-- The records with that of a user who was rejected. -/
def rejectedDb : KycDb := ⟨[⟨"record", 7, .rejected, some "3", none⟩], by decide⟩

/-- The override of the rejected record by an actor of this id. -/
def overrideBy (actorId : ℤ) (nextStatus : KycStatus) : KycCall :=
  .governanceOverride 7 nextStatus ⟨some actorId, some ["KYC_GOVERNANCE"]⟩ "appealed"

theorem authorize_overrideBy (actorId : ℤ) (nextStatus : KycStatus) :
    (overrideBy actorId nextStatus).authorize = .ok actorId := by
  have hroles : normalizeRoleValues ["KYC_GOVERNANCE"] = ["KYC_GOVERNANCE"] := by decide +kernel
  have hconflict : governanceKycRoleConflict ["KYC_GOVERNANCE"] = none := by decide +kernel
  have hgovernance : hasAnyRole ["KYC_GOVERNANCE"] governanceRoleValues = false := by decide +kernel
  simp [overrideBy, KycCall.authorize, enforceKycGovernanceRole, enforceRole, enforceKycEndpointAccess, hroles,
    hconflict, hgovernance]

/-- The rejected record, and one of another user in review. -/
def twoRecords : KycDb := ⟨[⟨"record", 7, .rejected, some "3", none⟩, ⟨"other", 8, .inReview, none, none⟩], by decide⟩

/-- An override by somebody else, who reopens the rejected record, and an operator, who verifies
both. -/
def reopening : Fin 3 → KycCall
  | 0 => overrideBy 4 .inReview
  | 1 => .updateStatus 7 .verified ⟨some 3, some ["KYC_OPERATOR"]⟩ none
  | 2 => .updateStatus 8 .verified ⟨some 3, some ["KYC_OPERATOR"]⟩ none

/-- The calls run into each other: while a call has locked one record, another one changes the other
record. -/
theorem reviews_lawful_reopened :
    ∃ c, (reviews "postgres" reopening (fun _ => none) twoRecords).run (kycSql.machine KycRecord (Fin 3))
        [0, 2, 0, 2, 0, 1, 2, 1, 1] = some c ∧ c.shared.history.map Commit.thread = [0, 2, 1] ∧
      (EachCommit twoRecords (fun r d d' => Lawful (reopening r.thread) d d') c.shared.history ↔
        EachCommit twoRecords (fun r d _ => Impartial (reopening r.thread) d) c.shared.history) := by
  have hauthorized : ∀ i, (reopening i).authorize = .ok (if i = 0 then 4 else 3)
    | 0 => authorize_overrideBy 4 .inReview
    | 1 => by decide +kernel
    | 2 => by decide +kernel
  have hrun : ∃ c, (reviews "postgres" reopening (fun _ => none) twoRecords).run (kycSql.machine KycRecord (Fin 3))
      [0, 2, 0, 2, 0, 1, 2, 1, 1] = some c ∧ c.shared.history.map Commit.thread = [0, 2, 1] := by
    rw [reviews_of_authorized hauthorized]
    exact ⟨_, rfl, rfl⟩
  obtain ⟨c, hc, hhistory⟩ := hrun
  exact ⟨c, hc, hhistory, (reviews_lawful_iff (by decide +kernel) hc).2⟩

/-- **The user of a record overrides it**, and becomes verified. -/
theorem own_record_overridden :
    ∃ c, (reviews "postgres" (fun _ : Unit => overrideBy 7 .verified) (fun _ => none) rejectedDb).run
        (kycSql.machine KycRecord Unit) [(), (), ()] = some c ∧
      ¬ EachCommit rejectedDb (fun _ d d' => Lawful (overrideBy 7 .verified) d d') c.shared.history := by
  let verified : KycRecord := ⟨"record", 7, .verified, some "7", some "appealed"⟩
  have hrun : ∃ c, (reviews "postgres" (fun _ : Unit => overrideBy 7 .verified) (fun _ => none) rejectedDb).run
      (kycSql.machine KycRecord Unit) [(), (), ()] = some c ∧ c.shared.history = [⟨(), [verified], verified⟩] := by
    rw [reviews_of_authorized fun _ => authorize_overrideBy 7 .verified]
    exact ⟨_, rfl, rfl⟩
  obtain ⟨c, hc, hhistory⟩ := hrun
  refine ⟨c, hc, fun hlawful => ?_⟩
  have hown := (hlawful [] ⟨(), [verified], verified⟩ [] hhistory).others 7
  exact hown (by decide) rfl

end Kyc
