import Mathlib.Logic.Relation
import Mathlib.Data.List.Nodup

/-!
# Roles: the hierarchy and the rights

A role inherits from its parents in a table, and has the permissions of its metadata and of the
roles that it inherits. Sets are lists in insertion order.
-/

namespace Roles

inductive UserRole : Type
  | superAdmin
  | admin
  | complianceOfficer
  | supportAgent
  | trader
  | user
  | staff
  | institutionalClient
  | governanceOperator
  | kycOperator
  | kycGovernance
deriving DecidableEq

def UserRole.value : UserRole → String
  | .superAdmin => "SUPER_ADMIN"
  | .admin => "ADMIN"
  | .complianceOfficer => "COMPLIANCE_OFFICER"
  | .supportAgent => "SUPPORT_AGENT"
  | .trader => "TRADER"
  | .user => "USER"
  | .staff => "STAFF"
  | .institutionalClient => "INSTITUTIONAL_CLIENT"
  | .governanceOperator => "GOVERNANCE_OPERATOR"
  | .kycOperator => "KYC_OPERATOR"
  | .kycGovernance => "KYC_GOVERNANCE"

/-- `ROLE_HIERARCHY`: the parents of a role. -/
def roleHierarchy : UserRole → List UserRole
  | .superAdmin => []
  | .admin => [.superAdmin]
  | .complianceOfficer => [.admin]
  | .supportAgent => [.admin]
  | .trader => [.user]
  | .institutionalClient => [.trader]
  | .governanceOperator => [.staff]
  | .staff => [.trader]
  | .user => []
  | .kycOperator => [.user]
  | .kycGovernance => [.staff, .kycOperator]

def rolePriority : UserRole → ℕ
  | .superAdmin => 110
  | .admin => 100
  | .complianceOfficer => 85
  | .governanceOperator => 80
  | .kycGovernance => 70
  | .supportAgent => 65
  | .staff => 60
  | .institutionalClient => 45
  | .kycOperator => 40
  | .trader => 30
  | .user => 20

/-- `ROLE_INCOMPATIBILITIES`; a role without an entry has none. -/
def roleIncompatibilities : UserRole → List UserRole
  | .governanceOperator => [.kycOperator, .kycGovernance]
  | .kycOperator => [.governanceOperator]
  | .kycGovernance => [.governanceOperator]
  | _ => []

/-- `RoleMetadata`: what the checks read of it. -/
structure RoleMetadata where
  name : UserRole
  priority : ℕ
  permissions : List String
deriving DecidableEq

def roleMetadata : UserRole → RoleMetadata
  | .superAdmin => { name := .superAdmin, priority := 110, permissions := ["*"] }
  | .admin =>
    { name := .admin
      priority := 150
      permissions := ["admin.access", "users.read", "users.write", "accounts.read", "accounts.write", "trades.read",
        "trades.write", "*"] }
  | .complianceOfficer =>
    { name := .complianceOfficer
      priority := 85
      permissions := ["users.read", "accounts.read", "trades.read", "admin.access", "COMPLIANCE_READ",
        "COMPLIANCE_WRITE", "AUDIT_READ", "POLICY_READ", "POLICY_WRITE", "USER_SUSPENSION_REQUEST",
        "REGULATORY_REPORT_MANAGE", "KYC_READ", "KYC_REVIEW"] }
  | .governanceOperator =>
    { name := .governanceOperator
      priority := 80
      permissions := ["users.read", "accounts.read", "admin.access", "POLICY_READ", "POLICY_WRITE", "AUDIT_READ",
        "GOVERNANCE_RULES_MANAGE", "SYSTEM_METRICS_READ", "USER_SUSPENSION_REQUEST"] }
  | .kycGovernance =>
    { name := .kycGovernance
      priority := 70
      permissions := ["KYC_POLICY_READ", "KYC_POLICY_WRITE", "KYC_AUDIT_READ", "KYC_ESCALATE", "KYC_OPERATOR_MANAGE",
        "COMPLIANCE_ESCALATE", "DOCUMENT_STORAGE_MANAGE"] }
  | .supportAgent =>
    { name := .supportAgent
      priority := 65
      permissions := ["users.read", "accounts.read", "trades.read", "admin.access", "USER_READ",
        "USER_SUPPORT_TICKET_MANAGE", "TRANSACTION_VIEW", "ALERT_READ", "BALANCE_HISTORY_VIEW",
        "USER_KYC_STATUS_VIEW"] }
  | .staff =>
    { name := .staff
      priority := 60
      permissions := ["users.read", "accounts.read", "USER_READ", "USER_SUPPORT_TICKET_MANAGE", "COMPLIANCE_READ",
        "TRANSACTION_VIEW", "ALERT_READ", "BALANCE_HISTORY_VIEW"] }
  | .kycOperator =>
    { name := .kycOperator
      priority := 40
      permissions := ["KYC_READ", "KYC_REVIEW", "KYC_APPROVE", "KYC_REJECT", "DOCUMENT_VIEW",
        "USER_KYC_STATUS_UPDATE"] }
  | .trader =>
    { name := .trader
      priority := 30
      permissions := ["trades.read", "trades.write", "accounts.read", "accounts.write", "TRADING_READ",
        "TRADING_WRITE", "PORTFOLIO_READ", "PORTFOLIO_WRITE", "PROFILE_EDIT", "PROFILE_READ", "BALANCE_READ",
        "TRANSACTION_VIEW_OWN", "SETTINGS_MANAGE", "ADVANCED_TRADING", "MARGIN_TRADING"] }
  | .institutionalClient =>
    { name := .institutionalClient
      priority := 45
      permissions := ["trades.read", "trades.write", "trades.bulk", "accounts.read", "accounts.write", "TRADING_READ",
        "TRADING_WRITE", "PORTFOLIO_READ", "PORTFOLIO_WRITE", "PROFILE_EDIT", "PROFILE_READ", "BALANCE_READ",
        "BALANCE_WRITE", "TRANSACTION_VIEW_OWN", "SETTINGS_MANAGE", "ADVANCED_TRADING", "MARGIN_TRADING",
        "INSTITUTIONAL_API_ACCESS", "INSTITUTIONAL_BULK_TRADING", "INSTITUTIONAL_REPORTING",
        "INSTITUTIONAL_RECONCILIATION", "INSTITUTIONAL_SLA_MANAGEMENT", "INSTITUTIONAL_SUPPORT_PRIORITY",
        "INSTITUTIONAL_ACCOUNT_MANAGEMENT", "INSTITUTIONAL_QUOTA_MANAGEMENT", "INSTITUTIONAL_PORTAL_ACCESS"] }
  | .user =>
    { name := .user
      priority := 20
      permissions := ["trades.read", "trades.write", "accounts.read", "TRADING_READ", "TRADING_WRITE",
        "PORTFOLIO_READ", "PORTFOLIO_WRITE", "PROFILE_EDIT", "PROFILE_READ", "BALANCE_READ", "TRANSACTION_VIEW_OWN",
        "SETTINGS_MANAGE"] }

section Sets

variable {α : Type} [DecidableEq α]

/-- The items are added, those that are there already left out. -/
def addAll (set items : List α) : List α :=
  items.foldl (fun set item => if item ∈ set then set else set ++ [item]) set

@[simp] theorem addAll_nil (set : List α) : addAll set [] = set := rfl

theorem addAll_cons (set : List α) (item : α) (items : List α) :
    addAll set (item :: items) = addAll (if item ∈ set then set else set ++ [item]) items := rfl

@[simp] theorem mem_addAll {set items : List α} {a : α} : a ∈ addAll set items ↔ a ∈ set ∨ a ∈ items := by
  induction items generalizing set with
  | nil => simp
  | cons item items ih =>
    rw [addAll_cons, ih]
    split
    · next hmem =>
      constructor
      · rintro (ha | ha)
        · exact .inl ha
        · exact .inr (List.mem_cons_of_mem _ ha)
      · rintro (ha | ha)
        · exact .inl ha
        · rcases List.mem_cons.mp ha with rfl | ha
          · exact .inl hmem
          · exact .inr ha
    · simp [or_assoc]

end Sets

/-- `getInheritedRoles`, for chains of parents up to a length. -/
def inheritedWithin : ℕ → UserRole → List UserRole
  | 0, role => [role]
  | length + 1, role =>
    (roleHierarchy role).foldl (fun inherited parent => addAll inherited (inheritedWithin length parent)) [role]

/-- `getInheritedRoles`. No chain of parents is longer than the number of roles. -/
def getInheritedRoles (role : UserRole) : List UserRole := inheritedWithin 11 role

/-- The recursion over the table ends. -/
theorem getInheritedRoles_eq (role : UserRole) :
    getInheritedRoles role =
      (roleHierarchy role).foldl (fun inherited parent => addAll inherited (getInheritedRoles parent)) [role] := by
  cases role <;> decide

def hasRole (userRoles : List UserRole) (requiredRole : UserRole) : Bool :=
  userRoles.any fun role => role = requiredRole || requiredRole ∈ getInheritedRoles role

def getAllRolePermissions (role : UserRole) (inheritedRoles : List UserRole) : List String :=
  if role = .admin then ["*"]
  else
    inheritedRoles.foldl (fun permissions r => addAll permissions (roleMetadata r).permissions)
      (addAll [] (roleMetadata role).permissions)

def getAllUserPermissions (userRoles : List UserRole) : List String :=
  if userRoles.any fun role => "*" ∈ (roleMetadata role).permissions then ["*"]
  else
    userRoles.foldl (fun permissions role =>
      addAll permissions (getAllRolePermissions role (getInheritedRoles role))) []

def hasPermission (userRoles : List UserRole) (permission : String) : Bool :=
  "*" ∈ getAllUserPermissions userRoles || permission ∈ getAllUserPermissions userRoles

theorem mem_foldl_addAll {α β : Type} [DecidableEq α] {f : β → List α} {set : List α} {l : List β} {a : α} :
    a ∈ l.foldl (fun set b => addAll set (f b)) set ↔ a ∈ set ∨ ∃ b ∈ l, a ∈ f b := by
  induction l generalizing set with
  | nil => simp
  | cons b l ih => simp [ih, or_assoc]

theorem hasRole_iff {userRoles : List UserRole} {requiredRole : UserRole} :
    hasRole userRoles requiredRole ↔ ∃ role ∈ userRoles, requiredRole ∈ getInheritedRoles role := by
  have hself : ∀ role, role ∈ getInheritedRoles role := by
    intro role
    cases role <;> decide
  simp only [hasRole, List.any_eq_true, Bool.or_eq_true, decide_eq_true_eq]
  constructor
  · rintro ⟨role, hrole, rfl | hinherited⟩
    · exact ⟨role, hrole, hself role⟩
    · exact ⟨role, hrole, hinherited⟩
  · rintro ⟨role, hrole, hinherited⟩
    exact ⟨role, hrole, .inr hinherited⟩

/-- The permissions of a role and of those that it inherits. -/
theorem mem_getAllRolePermissions {role : UserRole} {permission : String} (hrole : role ≠ .admin) :
    permission ∈ getAllRolePermissions role (getInheritedRoles role) ↔
      ∃ r ∈ getInheritedRoles role, permission ∈ (roleMetadata r).permissions := by
  have hself : role ∈ getInheritedRoles role := by cases role <;> decide
  rw [getAllRolePermissions, if_neg hrole, mem_foldl_addAll, mem_addAll]
  constructor
  · rintro ((hnil | hown) | hinherited)
    · cases hnil
    · exact ⟨role, hself, hown⟩
    · exact hinherited
  · exact fun h => .inr h

/-- The permissions of a list of roles, when none of them has the wildcard itself. -/
theorem mem_getAllUserPermissions {userRoles : List UserRole} {permission : String}
    (hroles : ∀ role ∈ userRoles, role ≠ .superAdmin ∧ role ≠ .admin) :
    permission ∈ getAllUserPermissions userRoles ↔
      ∃ role ∈ userRoles, ∃ r ∈ getInheritedRoles role, permission ∈ (roleMetadata r).permissions := by
  have hwild : ∀ role, "*" ∈ (roleMetadata role).permissions → role = .superAdmin ∨ role = .admin := by
    intro role
    cases role <;> decide
  have hnone : ¬ userRoles.any (fun role => "*" ∈ (roleMetadata role).permissions) = true := by
    intro hany
    obtain ⟨role, hrole, hmem⟩ := List.any_eq_true.mp hany
    obtain ⟨hsuper, hadmin⟩ := hroles role hrole
    rcases hwild role (of_decide_eq_true hmem) with h | h
    · exact hsuper h
    · exact hadmin h
  rw [getAllUserPermissions, if_neg hnone, mem_foldl_addAll]
  constructor
  · rintro (hnil | ⟨role, hrole, hmem⟩)
    · cases hnil
    · exact ⟨role, hrole, (mem_getAllRolePermissions (hroles role hrole).2).mp hmem⟩
  · rintro ⟨role, hrole, hmem⟩
    exact .inr ⟨role, hrole, (mem_getAllRolePermissions (hroles role hrole).2).mpr hmem⟩

end Roles
