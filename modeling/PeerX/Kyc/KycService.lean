import PeerX.Foundations.RowHistories
import PeerX.Foundations.Table
import PeerX.Roles.Hierarchy
import Mathlib.Data.Int.Notation

/-!
# KYC: the service

The status of a KYC record is changed by operators, who follow a map of transitions, and by the
governance of KYC, who may set any status. Both check the roles of the actor before the transaction,
in which the record is locked, read and saved.
-/

namespace Kyc

open Concurrency Relational

inductive KycStatus where
  | pending | inReview | verified | rejected
deriving DecidableEq

/-- The text of a status. -/
def KycStatus.value : KycStatus → String
  | .pending => "Pending"
  | .inReview => "InReview"
  | .verified => "Verified"
  | .rejected => "Rejected"

def terminalStates : List KycStatus := [.verified, .rejected]

def allowedTransitions : KycStatus → List KycStatus
  | .pending => [.inReview]
  | .inReview => [.verified, .rejected]
  | .verified => []
  | .rejected => []

/-- An exception: a refusal, a record that is missing, or a statement that failed. -/
inductive KycError where
  | forbidden (message : String)
  | notFound (message : String)
  | queryFailed
deriving DecidableEq

def validateTransition (current next : KycStatus) : Except KycError Unit :=
  if current ∈ terminalStates then
    .error (.forbidden ("KYC status '" ++ current.value ++ "' is a terminal state and cannot be modified. " ++
      "Use the governance override flow to make changes."))
  else if next ∈ allowedTransitions current then .ok ()
  else
    let allowed := ", ".intercalate ((allowedTransitions current).map KycStatus.value)
    .error (.forbidden ("Invalid KYC state transition: '" ++ current.value ++ "' → '" ++ next.value ++ "'. " ++
      "Allowed next states: [" ++ (if allowed = "" then "none" else allowed) ++ "]."))

/-- The white space of `trim`. -/
def isWhiteSpace (c : Char) : Bool :=
  c.toNat ∈ [0x9, 0xA, 0xB, 0xC, 0xD, 0x20, 0xA0, 0x1680, 0x2028, 0x2029, 0x202F, 0x205F, 0x3000, 0xFEFF] ||
    0x2000 ≤ c.toNat && c.toNat ≤ 0x200A

def trim (s : String) : String :=
  String.ofList ((s.toList.dropWhile isWhiteSpace).reverse.dropWhile isWhiteSpace).reverse

/-- `normalizeRoleValues`: the roles are trimmed, not empty, and differ. -/
def normalizeRoleValues (roles : List String) : List String :=
  Roles.addAll [] ((roles.map trim).filter fun role => role ≠ "")

def governanceRoleValues : List String := ["GOVERNANCE_OPERATOR"]

def kycRoleValues : List String := ["KYC_OPERATOR", "KYC_GOVERNANCE"]

def hasAnyRole (roles allowedRoles : List String) : Bool :=
  allowedRoles.any fun role => role ∈ normalizeRoleValues roles

/-- `assertNoGovernanceKycRoleConflict`: the message of the violation. -/
def governanceKycRoleConflict (roles : List String) : Option String :=
  let normalizedRoles := normalizeRoleValues roles
  if hasAnyRole normalizedRoles governanceRoleValues && hasAnyRole normalizedRoles kycRoleValues then
    some "Governance and KYC roles are mutually exclusive."
  else none

/-- `AuthenticatedOperator`, as it is given. -/
structure AuthenticatedOperator where
  id : Option ℤ
  roles : Option (List String)
deriving DecidableEq

/-- `enforceKycEndpointAccess`: the id and the roles of an actor that may use the service. -/
def enforceKycEndpointAccess (operator : AuthenticatedOperator) : Except KycError (ℤ × List String) :=
  match operator.id, operator.roles with
  | some id, some roles =>
    let roles := normalizeRoleValues roles
    match governanceKycRoleConflict roles with
    | some message => .error (.forbidden message)
    | none =>
      if hasAnyRole roles governanceRoleValues then
        .error (.forbidden "Governance roles cannot perform KYC operations.")
      else .ok (id, roles)
  | _, _ => .error (.forbidden "Authenticated KYC actor is required.")

/-- A role that the endpoint requires, with the message for those who lack it. -/
def enforceRole (role message : String) (operator : AuthenticatedOperator) : Except KycError ℤ :=
  match enforceKycEndpointAccess operator with
  | .error e => .error e
  | .ok (id, roles) => if role ∈ roles then .ok id else .error (.forbidden message)

def enforceOperatorRole : AuthenticatedOperator → Except KycError ℤ :=
  enforceRole "KYC_OPERATOR" "Only KYC_OPERATOR role can update KYC status."

def enforceKycGovernanceRole : AuthenticatedOperator → Except KycError ℤ :=
  enforceRole "KYC_GOVERNANCE" "Only KYC_GOVERNANCE role can override terminal states."

def preventSelfAssignment (operatorId targetUserId : ℤ) : Except KycError Unit :=
  if operatorId = targetUserId then .error (.forbidden "Self-assignment of KYC status is not permitted.") else .ok ()

structure KycRecord where
  id : String
  userId : ℤ
  status : KycStatus
  reviewedBy : Option String
  notes : Option String
deriving DecidableEq

/-- The records, by their unique users. -/
abbrev KycDb : Type := Table KycRecord.userId

/-- A statement. -/
inductive Stmt where
  | findOne (userId : ℤ) (lock : Bool)
  | save (record : KycRecord)

/-- The reply to a statement. -/
abbrev Stmt.Reply : Stmt → Type
  | .findOne _ _ => Option KycRecord
  | .save _ => Unit

/-- The rows that a statement locks: `pessimistic_write` locks the row that it finds. -/
def Stmt.locks : Stmt → KycDb → List ℤ
  | .findOne userId lock, d => if lock ∧ (d.find userId).isSome then [userId] else []
  | .save record, _ => [record.userId]

/-- What a statement answers. -/
def Stmt.reply : (c : Stmt) → KycDb → c.Reply
  | .findOne userId _, d => d.find userId
  | .save _, _ => ()

/-- What a statement writes. -/
def Stmt.writes : Stmt → List KycRecord
  | .findOne _ _ => []
  | .save record => [record]

/-- The statements of the database. -/
def kycSql : Dialect Stmt Stmt.Reply KycDb KycRecord ℤ where
  apply record d := d.save record
  locks := Stmt.locks
  reply := Stmt.reply
  writes c _ := c.writes
  target record := some record.userId
  locks_of_writes := by
    intro c d record k hwrite htarget
    cases c with
    | findOne userId lock => cases hwrite
    | save saved =>
      obtain rfl := List.mem_singleton.mp hwrite
      obtain rfl := Option.some.inj htarget
      exact List.mem_singleton_self _

/-- A transaction of the service. -/
abbrev KycTx : Type := Prog Stmt Stmt.Reply KycError KycRecord

/-- A call of the service. -/
abbrev KycSession : Type := Session Stmt.Reply KycRecord KycError KycRecord

/-- `supportsPessimisticWriteLock`, for the type of the data source. -/
def supportsPessimisticWriteLock (type : String) : Bool := type ∉ ["better-sqlite3", "sqlite", "sqljs"]

/-- The transaction of both calls: the record is found, checked, and saved with its changes. -/
def mutateRecord (type : String) (targetUserId : ℤ) (validate : KycRecord → Except KycError Unit)
    (change : KycRecord → KycRecord) : KycTx :=
  .call (.findOne targetUserId (supportsPessimisticWriteLock type)) fun record =>
    match record with
    | none => .fail (.notFound ("KYC record not found for user " ++ targetUserId.repr ++ "."))
    | some record =>
      match validate record with
      | .error e => .fail e
      | .ok () => .call (.save (change record)) fun _ => .ret (change record)

inductive KycCall where
  | updateStatus (targetUserId : ℤ) (nextStatus : KycStatus) (operator : AuthenticatedOperator) (notes : Option String)
  | governanceOverride (targetUserId : ℤ) (nextStatus : KycStatus) (governance : AuthenticatedOperator) (notes : String)

namespace KycCall

/-- The user whose record the call is about. -/
def target : KycCall → ℤ
  | .updateStatus targetUserId _ _ _ => targetUserId
  | .governanceOverride targetUserId _ _ _ => targetUserId

/-- Who calls. -/
def actor : KycCall → AuthenticatedOperator
  | .updateStatus _ _ operator _ => operator
  | .governanceOverride _ _ governance _ => governance

/-- The checks before the transaction: the id of the actor. -/
def authorize : KycCall → Except KycError ℤ
  | .updateStatus targetUserId _ operator _ => do
    let operatorId ← enforceOperatorRole operator
    preventSelfAssignment operatorId targetUserId
    return operatorId
  | .governanceOverride _ _ governance _ => enforceKycGovernanceRole governance

/-- The check on the record. -/
def validate : KycCall → KycRecord → Except KycError Unit
  | .updateStatus _ nextStatus _ _, record => validateTransition record.status nextStatus
  | .governanceOverride _ _ _ _, _ => .ok ()

/-- The record as the call changes it, by the actor of this id. -/
def change (actorId : ℤ) : KycCall → KycRecord → KycRecord
  | .updateStatus _ nextStatus _ notes, record =>
    { record with status := nextStatus, reviewedBy := some actorId.repr, notes := notes.or record.notes }
  | .governanceOverride _ nextStatus _ notes, record =>
    { record with status := nextStatus, reviewedBy := some actorId.repr, notes := some notes }

/-- A transaction whose statement number `n` fails, if there is one that does. -/
def withFault (fault : Option ℕ) (tx : KycTx) : KycTx :=
  match fault with
  | none => tx
  | some n => tx.failAt .queryFailed n

/-- `updateStatus` and `governanceOverride`. -/
def session (type : String) (fault : Option ℕ) (call : KycCall) : KycSession :=
  match call.authorize with
  | .error e => .fail e
  | .ok actorId =>
    transaction id (withFault fault (mutateRecord type call.target call.validate (call.change actorId)))

/-- The call is an override. -/
def IsOverride : KycCall → Prop
  | .updateStatus _ _ _ _ => False
  | .governanceOverride _ _ _ _ => True

end KycCall

/-- The transitions that pass are those of the map, which leaves no terminal state. -/
theorem validateTransition_eq_ok {current next : KycStatus} (h : validateTransition current next = .ok ()) :
    current ∉ terminalStates ∧ next ∈ allowedTransitions current := by
  rw [validateTransition] at h
  split at h
  · cases h
  next hterminal =>
    split at h
    next hallowed => exact ⟨hterminal, hallowed⟩
    next => cases h

/-- The actor holds the role, as roles are normalized. -/
def AuthenticatedOperator.Holds (operator : AuthenticatedOperator) (role : String) : Prop :=
  ∃ roles, operator.roles = some roles ∧ role ∈ normalizeRoleValues roles

theorem mem_normalizeRoleValues {role : String} {roles : List String} :
    role ∈ normalizeRoleValues roles ↔ (∃ given ∈ roles, trim given = role) ∧ role ≠ "" := by
  simp [normalizeRoleValues]

/-- An actor that may use the service holds no governance role. -/
theorem enforceKycEndpointAccess_eq_ok {operator : AuthenticatedOperator} {id : ℤ} {roles : List String}
    (h : enforceKycEndpointAccess operator = .ok (id, roles)) :
    operator.id = some id ∧ (∀ role, role ∈ roles → operator.Holds role) ∧ ¬ operator.Holds "GOVERNANCE_OPERATOR" := by
  rw [enforceKycEndpointAccess] at h
  split at h
  next given hid hroles =>
    dsimp only at h
    split at h
    · cases h
    split at h
    · cases h
    next hnone =>
      obtain ⟨rfl, rfl⟩ := Prod.mk.inj (Except.ok.inj h)
      refine ⟨hid, fun role hrole => ⟨_, hroles, hrole⟩, ?_⟩
      rintro ⟨_, hsame, hheld⟩
      obtain rfl := Option.some.inj (hroles.symm.trans hsame)
      -- the role is still there when the roles are normalized again
      have hagain := mem_normalizeRoleValues.mpr ⟨⟨_, hheld, by decide +kernel⟩, (mem_normalizeRoleValues.mp hheld).2⟩
      apply hnone
      simpa [hasAnyRole, governanceRoleValues] using hagain
  · cases h

/-- The actors that pass hold the required role, and no governance role. -/
theorem enforceRole_eq_ok {role message : String} {operator : AuthenticatedOperator} {id : ℤ}
    (h : enforceRole role message operator = .ok id) :
    operator.id = some id ∧ operator.Holds role ∧ ¬ operator.Holds "GOVERNANCE_OPERATOR" := by
  rw [enforceRole] at h
  split at h
  · cases h
  next actorId roles haccess =>
    obtain ⟨hid, hheld, hgovernance⟩ := enforceKycEndpointAccess_eq_ok haccess
    split at h
    next hrole =>
      obtain rfl := Except.ok.inj h
      exact ⟨hid, hheld role hrole, hgovernance⟩
    · cases h

/-- The calls that pass: an operator changes the record of somebody else, and an override comes
from the governance of KYC. -/
theorem authorize_eq_ok {call : KycCall} {actorId : ℤ} (h : call.authorize = .ok actorId) :
    call.actor.id = some actorId ∧ ¬ call.actor.Holds "GOVERNANCE_OPERATOR" ∧
      (call.IsOverride ∧ call.actor.Holds "KYC_GOVERNANCE" ∨ ¬ call.IsOverride ∧ actorId ≠ call.target) := by
  cases call with
  | updateStatus targetUserId nextStatus operator notes =>
    cases hrole : enforceOperatorRole operator with
    | error e =>
      rw [KycCall.authorize, hrole] at h
      cases h
    | ok id =>
      rw [KycCall.authorize, hrole] at h
      obtain ⟨hid, -, hgovernance⟩ := enforceRole_eq_ok hrole
      by_cases hself : id = targetUserId
      · simp [preventSelfAssignment, hself, bind, Except.bind] at h
      · simp only [preventSelfAssignment, hself, if_false, bind, Except.bind] at h
        obtain rfl := Except.ok.inj h
        exact ⟨hid, hgovernance, .inr ⟨not_false, hself⟩⟩
  | governanceOverride targetUserId nextStatus governance notes =>
    obtain ⟨hid, hheld, hgovernance⟩ := enforceRole_eq_ok h
    exact ⟨hid, hgovernance, .inl ⟨trivial, hheld⟩⟩

end Kyc
