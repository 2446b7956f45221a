import PeerX.Foundations.JsNumber
import PeerX.Foundations.Runs
import PeerX.Foundations.Uuid
import PeerX.Roles.Guard

/-!
# Roles: the roles of a user

Roles are assigned to a user when they are new and compatible with those that the user has, and
revoked without a check; the last one is replaced by the base role. The requests name the user by a
number, and the users have ids of the type `uuid`, which Postgres does not read from the text of a
number: the lookup throws, and no role is ever changed.
-/

namespace Roles

open Relational Concurrency
open Arithmetic.JsNumber (Shortest)

def areRolesCompatible (role1 role2 : UserRole) : Bool :=
  if role1 = role2 then true
  else role2 ∉ roleIncompatibilities role1 && role1 ∉ roleIncompatibilities role2

/-- The messages about the pairs of a list. -/
def incompatiblePairs : List UserRole → List String
  | [] => []
  | role1 :: roles =>
    (roles.filter fun role2 => !areRolesCompatible role1 role2).map
        (fun role2 => s!"Role {role1.value} is incompatible with {role2.value}") ++
      incompatiblePairs roles

/-- `validateRoleCombination`: its errors. -/
def validateRoleCombination (roles : List UserRole) : List String :=
  (if (addAll [] roles).length ≠ roles.length then ["Duplicate roles not allowed"] else []) ++ incompatiblePairs roles

def getRolePriority (role : UserRole) : ℕ := (roleMetadata role).priority

def getHighestPriorityRole : List UserRole → UserRole
  | [] => .user
  | role :: roles =>
    roles.foldl (fun highest current => if getRolePriority current > getRolePriority highest then current else highest)
      role

/-- The roles of a user. -/
structure ManagedUser where
  roles : List UserRole
  role : UserRole
deriving DecidableEq

/-- A user is created. -/
def ManagedUser.created : ManagedUser where
  roles := [.user]
  role := .user

/-- The rows of the users. -/
abbrev UserRows : Type := Uuid → Option ManagedUser

inductive ManagementError : Type
  /-- `invalid input syntax for type uuid`. -/
  | queryFailed (id : List Char)
  | userNotFound (id : List Char)
  | badRequest (message : String)
deriving DecidableEq

/-- `userRepo.findOne({ where: { id } })`. A missing user is thrown. -/
def findUser (rows : UserRows) (id : List Char) : Except ManagementError (Uuid × ManagedUser) :=
  match readUuid id with
  | none => .error (.queryFailed id)
  | some uuid =>
    match rows uuid with
    | none => .error (.userNotFound id)
    | some user => .ok (uuid, user)

/-- `save`, with the hook `validateRoleSeparation` of the entity. -/
def saveUser (rows : UserRows) (uuid : Uuid) (user : ManagedUser) : Except ManagementError UserRows :=
  match governanceKycRoleConflict (normalizeRoleValues user.roles) with
  | some message => .error (.badRequest message)
  | none => .ok (Function.update rows uuid (some { user with roles := normalizeRoleValues user.roles }))

/-- `AssignRoleDto` and `RevokeRoleDto`. -/
structure RolesDto where
  userId : Shortest
  roles : List UserRole
deriving DecidableEq

def assignRolesToUser (rows : UserRows) (dto : RolesDto) : Except ManagementError UserRows :=
  match findUser rows dto.userId.text with
  | .error e => .error e
  | .ok (uuid, user) =>
    match validateRoleCombination (user.roles ++ dto.roles) with
    | [] =>
      let combinedRoles := addAll [] (user.roles ++ dto.roles)
      saveUser rows uuid { roles := combinedRoles, role := getHighestPriorityRole combinedRoles }
    | errors => .error (.badRequest ("; ".intercalate errors))

def revokeRolesFromUser (rows : UserRows) (dto : RolesDto) : Except ManagementError UserRows :=
  match findUser rows dto.userId.text with
  | .error e => .error e
  | .ok (uuid, user) =>
    let kept := user.roles.filter fun role => role ∉ dto.roles
    let kept := if kept.isEmpty then [.user] else kept
    saveUser rows uuid { roles := kept, role := getHighestPriorityRole kept }

inductive RoleCall : Type
  | assignRolesToUser (dto : RolesDto)
  | revokeRolesFromUser (dto : RolesDto)
deriving DecidableEq

def RoleCall.dto : RoleCall → RolesDto
  | .assignRolesToUser dto | .revokeRolesFromUser dto => dto

/-- The answer to a call. -/
def RoleCall.serve (rows : UserRows) : RoleCall → Except ManagementError UserRows
  | .assignRolesToUser dto => Roles.assignRolesToUser rows dto
  | .revokeRolesFromUser dto => Roles.revokeRolesFromUser rows dto

/-- The rows after a call. A rejected call saves nothing. -/
def RoleCall.after (rows : UserRows) (call : RoleCall) : UserRows := ((call.serve rows).toOption).getD rows

/-- The roles are not empty, distinct, and compatible. -/
structure WellFormed (roles : List UserRole) : Prop where
  nonempty : roles ≠ []
  nodup : roles.Nodup
  compatible : roles.Pairwise fun role1 role2 => areRolesCompatible role1 role2

/-- The roles of the user are managed: they are well formed, the guard finds no conflict between
them, and the role of the user is the held one of the greatest priority. -/
structure Managed (user : ManagedUser) : Prop where
  wellFormed : WellFormed user.roles
  noConflict : governanceKycRoleConflict (RequestUser.held ⟨some user.role, user.roles⟩) = none
  held : user.role ∈ user.roles
  greatest : ∀ role ∈ user.roles, rolePriority role ≤ rolePriority user.role

/-- The user of an id is managed. -/
def ManagedAt (uuid : Uuid) (rows : UserRows) : Prop := ∃ user, rows uuid = some user ∧ Managed user

theorem managed_created : Managed .created where
  wellFormed := ⟨by decide, by decide, List.pairwise_singleton _ _⟩
  noConflict := by decide
  held := by decide
  greatest := by decide

/-- No user is found by a number: its text is too short for a `uuid`. -/
theorem findUser_number (rows : UserRows) (userId : Shortest) :
    findUser rows userId.text = .error (.queryFailed userId.text) := by
  rw [findUser]
  cases hread : readUuid userId.text with
  | none => rfl
  | some uuid =>
    have hlong := length_of_readUuid hread
    exact absurd userId.length_text_lt (Nat.not_lt.mpr hlong)

/-- Every call throws. -/
theorem RoleCall.serve_eq (rows : UserRows) (call : RoleCall) :
    call.serve rows = .error (.queryFailed call.dto.userId.text) := by
  cases call with
  | assignRolesToUser dto =>
    simp only [RoleCall.serve, RoleCall.dto, Roles.assignRolesToUser, findUser_number]
  | revokeRolesFromUser dto =>
    simp only [RoleCall.serve, RoleCall.dto, Roles.revokeRolesFromUser, findUser_number]

theorem RoleCall.after_eq (rows : UserRows) (call : RoleCall) : call.after rows = rows := by
  rw [RoleCall.after, call.serve_eq rows]
  rfl

/-- **The roles of a user stay managed** in every run from the creation of the user. -/
theorem managed_throughout (rows : UserRows) (uuid : Uuid) (calls : List RoleCall) :
    Throughout RoleCall.after (ManagedAt uuid) (Function.update rows uuid (some .created)) calls := by
  refine throughout_of_invariant (P := fun _ _ => True) (fun rows call h _ => ?_) ?_ (along_true _ _)
  · rw [call.after_eq]
    exact h
  · exact ⟨.created, Function.update_self .., managed_created⟩

end Roles
