import PeerX.Roles.Hierarchy

/-!
# Roles: the guard

The guard of a route asks for one of some roles, and for all of some permissions. The roles are
documented as a tree with the administrators at the top, so that a role has its own rights and those
below it. But the table of the parents leads from two roles upwards: a compliance officer and a
support agent inherit from the administrator.
-/

namespace Roles

/-- The exceptions of the guard. -/
inductive GuardError : Type
  | unauthorized (message : String)
  | forbidden (message : String)
deriving DecidableEq

/-- `normalizeRoleValues`: the values of roles are trimmed, and differ. -/
def normalizeRoleValues (roles : List UserRole) : List UserRole := addAll [] roles

def governanceRoleValues : List UserRole := [.governanceOperator]

def kycRoleValues : List UserRole := [.kycOperator, .kycGovernance]

def hasAnyRole (roles allowedRoles : List UserRole) : Bool :=
  allowedRoles.any fun role => role ∈ normalizeRoleValues roles

/-- `assertNoGovernanceKycRoleConflict`: the message of the violation. -/
def governanceKycRoleConflict (roles : List UserRole) : Option String :=
  let normalizedRoles := normalizeRoleValues roles
  if hasAnyRole normalizedRoles governanceRoleValues && hasAnyRole normalizedRoles kycRoleValues then
    some "Governance and KYC roles are mutually exclusive."
  else none

structure RequestUser where
  role : Option UserRole
  roles : List UserRole
deriving DecidableEq

/-- The roles that the guard reads. -/
def RequestUser.held (user : RequestUser) : List UserRole :=
  normalizeRoleValues (if user.roles.isEmpty then user.role.toList else user.roles)

/-- `join(', ')`. -/
def joined (texts : List String) : String := ", ".intercalate texts

/-- `canActivate`. A route without a list of roles, or of permissions, requires an empty one. -/
def canActivate (requiredRoles : List UserRole) (requiredPermissions : List String) (user : Option RequestUser) :
    Except GuardError Unit :=
  if requiredRoles.isEmpty && requiredPermissions.isEmpty then .ok ()
  else
    match user with
    | none => .error (.unauthorized "Authentication required")
    | some user =>
      match governanceKycRoleConflict user.held with
      | some message => .error (.forbidden message)
      | none =>
        if UserRole.superAdmin ∈ user.held ∨ UserRole.admin ∈ user.held then .ok ()
        else if !requiredRoles.isEmpty && !requiredRoles.any (hasRole user.held) then
          .error (.forbidden s!"Access denied. Required roles: [{joined (requiredRoles.map UserRole.value)}]")
        else if !requiredPermissions.isEmpty && !requiredPermissions.all (hasPermission user.held) then
          .error (.forbidden s!"Access denied. Required permissions: [{joined requiredPermissions}]")
        else .ok ()

/-- The roles directly below a role: those of the drawn tree, and the parents of a role that it does
not draw. -/
def subordinates : UserRole → List UserRole
  | .superAdmin => [.admin]
  | .admin => [.complianceOfficer, .supportAgent, .governanceOperator, .kycGovernance]
  | .governanceOperator => [.staff]
  | .kycGovernance => [.kycOperator, .staff]
  | .staff => [.trader]
  | .institutionalClient => [.trader]
  | .trader => [.user]
  | .kycOperator => [.user]
  | _ => []

/-- A role equals another one, or stands above it. -/
def StandsAbove : UserRole → UserRole → Prop := Relation.ReflTransGen fun role below => below ∈ subordinates role

/-- What a user may be admitted to: one of the required roles is held or stands below a held
one, and each required permission is one of a held role or of a role below it. A route that requires
no role asks for none. -/
def Legitimate (held requiredRoles : List UserRole) (requiredPermissions : List String) : Prop :=
  (requiredRoles ≠ [] → ∃ role ∈ held, ∃ required ∈ requiredRoles, StandsAbove role required) ∧
    ∀ permission ∈ requiredPermissions, ∃ role ∈ held, ∃ below, StandsAbove role below ∧
      permission ∈ (roleMetadata below).permissions

/-- The roles obtain their documented rights only, and none of an administrator. -/
structure Confined (user : RequestUser) : Prop where
  legitimate : ∀ requiredRoles requiredPermissions, canActivate requiredRoles requiredPermissions (some user) = .ok () →
    Legitimate user.held requiredRoles requiredPermissions
  noWildcard : "*" ∉ getAllUserPermissions user.held
  noAdmin : hasRole user.held .admin = false ∧ hasRole user.held .superAdmin = false

/-- The table leads downwards from the role. -/
def Downward (role : UserRole) : Prop :=
  role ≠ .superAdmin ∧ role ≠ .admin ∧ role ≠ .complianceOfficer ∧ role ≠ .supportAgent

theorem downward_parent {role parent : UserRole} (h : Downward role) (hparent : parent ∈ roleHierarchy role) :
    Downward parent ∧ parent ∈ subordinates role := by
  obtain ⟨hsuper, hadmin, hcompliance, hsupport⟩ := h
  unfold Downward
  cases role with
  | superAdmin => exact absurd rfl hsuper
  | admin => exact absurd rfl hadmin
  | complianceOfficer => exact absurd rfl hcompliance
  | supportAgent => exact absurd rfl hsupport
  | _ => revert parent; decide

theorem inheritedWithin_downward {length : ℕ} {role inherited : UserRole} (h : Downward role)
    (hinherited : inherited ∈ inheritedWithin length role) : Downward inherited ∧ StandsAbove role inherited := by
  induction length generalizing role with
  | zero =>
    obtain rfl := List.mem_singleton.mp hinherited
    exact ⟨h, .refl⟩
  | succ length ih =>
    rw [inheritedWithin, mem_foldl_addAll] at hinherited
    rcases hinherited with hself | ⟨parent, hparent, hmem⟩
    · obtain rfl := List.mem_singleton.mp hself
      exact ⟨h, .refl⟩
    · obtain ⟨hdown, hbelow⟩ := downward_parent h hparent
      obtain ⟨hinherited, habove⟩ := ih hdown hmem
      exact ⟨hinherited, .head hbelow habove⟩

/-- A role from which the table leads downwards inherits roles below it. -/
theorem standsAbove_of_inherited {role inherited : UserRole} (h : Downward role)
    (hinherited : inherited ∈ getInheritedRoles role) : Downward inherited ∧ StandsAbove role inherited :=
  inheritedWithin_downward h hinherited

variable {user : RequestUser}

theorem permission_of_downward (hdown : ∀ role ∈ user.held, Downward role) {permission : String}
    (h : permission ∈ getAllUserPermissions user.held) :
    ∃ role ∈ user.held, ∃ below, Downward below ∧ StandsAbove role below ∧
      permission ∈ (roleMetadata below).permissions := by
  have hroles : ∀ role ∈ user.held, role ≠ .superAdmin ∧ role ≠ .admin :=
    fun role hrole => ⟨(hdown role hrole).1, (hdown role hrole).2.1⟩
  obtain ⟨role, hrole, below, hbelow, hmem⟩ := (mem_getAllUserPermissions hroles).mp h
  obtain ⟨hdownward, habove⟩ := standsAbove_of_inherited (hdown role hrole) hbelow
  exact ⟨role, hrole, below, hdownward, habove, hmem⟩

theorem noWildcard_of_downward (hdown : ∀ role ∈ user.held, Downward role) : "*" ∉ getAllUserPermissions user.held := by
  intro hwild
  obtain ⟨role, -, below, ⟨hsuper, hadmin, -⟩, -, hmem⟩ := permission_of_downward hdown hwild
  revert hmem
  cases below with
  | superAdmin => exact absurd rfl hsuper
  | admin => exact absurd rfl hadmin
  | _ => decide

theorem not_hasRole_of_downward (hdown : ∀ role ∈ user.held, Downward role) {required : UserRole}
    (hrequired : ¬ Downward required) : hasRole user.held required = false := by
  by_contra h
  obtain ⟨role, hrole, hinherited⟩ := hasRole_iff.mp (by simpa using h)
  exact hrequired (standsAbove_of_inherited (hdown role hrole) hinherited).1

/-- What the guard has checked when it admits a user who is no administrator. -/
theorem checked_of_canActivate {requiredRoles : List UserRole} {requiredPermissions : List String}
    (hsuper : UserRole.superAdmin ∉ user.held) (hadmin : UserRole.admin ∉ user.held)
    (h : canActivate requiredRoles requiredPermissions (some user) = .ok ()) :
    (requiredRoles ≠ [] → ∃ required ∈ requiredRoles, hasRole user.held required) ∧
      ∀ permission ∈ requiredPermissions, hasPermission user.held permission := by
  unfold canActivate at h
  split at h
  · next hpublic =>
    -- the route is public
    simp only [Bool.and_eq_true, List.isEmpty_iff] at hpublic
    obtain ⟨rfl, rfl⟩ := hpublic
    exact ⟨fun hne => absurd rfl hne, fun permission hpermission => by cases hpermission⟩
  · dsimp only at h
    split at h
    · cases h
    · rw [if_neg (not_or.mpr ⟨hsuper, hadmin⟩)] at h
      split at h
      · cases h
      · next hroles =>
        split at h
        · cases h
        · next hpermissions =>
          constructor
          · intro hne
            simp only [Bool.and_eq_true, Bool.not_eq_true', List.isEmpty_eq_false_iff, not_and,
              Bool.not_eq_false] at hroles
            exact List.any_eq_true.mp (hroles hne)
          · intro permission hpermission
            simp only [Bool.and_eq_true, Bool.not_eq_true', List.isEmpty_eq_false_iff, not_and,
              Bool.not_eq_false] at hpermissions
            exact List.all_eq_true.mp (hpermissions (List.ne_nil_of_mem hpermission)) permission hpermission

theorem confined_of_downward (hdown : ∀ role ∈ user.held, Downward role) : Confined user := by
  have hsuper : UserRole.superAdmin ∉ user.held := fun hmem => (hdown _ hmem).1 rfl
  have hadmin : UserRole.admin ∉ user.held := fun hmem => (hdown _ hmem).2.1 rfl
  refine ⟨fun requiredRoles requiredPermissions hadmitted => ?_, noWildcard_of_downward hdown, ?_, ?_⟩
  · obtain ⟨hroles, hpermissions⟩ := checked_of_canActivate hsuper hadmin hadmitted
    refine ⟨fun hne => ?_, fun permission hpermission => ?_⟩
    · obtain ⟨required, hrequired, hhas⟩ := hroles hne
      obtain ⟨role, hrole, hinherited⟩ := hasRole_iff.mp hhas
      exact ⟨role, hrole, required, hrequired, (standsAbove_of_inherited (hdown role hrole) hinherited).2⟩
    · have hhas := hpermissions permission hpermission
      simp only [hasPermission, Bool.or_eq_true, decide_eq_true_eq] at hhas
      have hmem := hhas.resolve_left (noWildcard_of_downward hdown)
      obtain ⟨role, hrole, below, -, habove, hlisted⟩ := permission_of_downward hdown hmem
      exact ⟨role, hrole, below, habove, hlisted⟩
  · exact not_hasRole_of_downward hdown fun h => h.2.1 rfl
  · exact not_hasRole_of_downward hdown fun h => h.1 rfl

/-- **The users who obtain their documented rights only**, among those who are no administrators:
those who are neither compliance officers nor support agents. -/
theorem confined_iff (user : RequestUser) (hsuper : UserRole.superAdmin ∉ user.held)
    (hadmin : UserRole.admin ∉ user.held) :
    Confined user ↔ UserRole.complianceOfficer ∉ user.held ∧ UserRole.supportAgent ∉ user.held := by
  constructor
  · -- either role inherits from the administrator
    intro h
    refine ⟨fun hmem => ?_, fun hmem => ?_⟩
    · have hhas : hasRole user.held .admin = true := hasRole_iff.mpr ⟨.complianceOfficer, hmem, by decide⟩
      exact Bool.noConfusion (h.noAdmin.1.symm.trans hhas)
    · have hhas : hasRole user.held .admin = true := hasRole_iff.mpr ⟨.supportAgent, hmem, by decide⟩
      exact Bool.noConfusion (h.noAdmin.1.symm.trans hhas)
  · rintro ⟨hcompliance, hsupport⟩
    refine confined_of_downward fun role hrole => ⟨?_, ?_, ?_, ?_⟩
    · rintro rfl
      exact hsuper hrole
    · rintro rfl
      exact hadmin hrole
    · rintro rfl
      exact hcompliance hrole
    · rintro rfl
      exact hsupport hrole

/-- A trader who is a member of the staff. -/
theorem confined_staff :
    Confined ⟨some .staff, [.trader, .staff]⟩ ↔
      UserRole.complianceOfficer ∉ RequestUser.held ⟨some .staff, [.trader, .staff]⟩ ∧
        UserRole.supportAgent ∉ RequestUser.held ⟨some .staff, [.trader, .staff]⟩ :=
  confined_iff ⟨some .staff, [.trader, .staff]⟩ (by decide) (by decide)

/-- **A support agent has every permission**, and passes the checks for the administrators. -/
theorem support_agent_not_confined : ¬ Confined ⟨some .supportAgent, [.supportAgent]⟩ := by
  intro h
  exact absurd h.noAdmin.2 (by decide)

end Roles
