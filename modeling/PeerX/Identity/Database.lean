import PeerX.Foundations.Fallible
import PeerX.Foundations.Table

/-!
# Identity: the database

The rows of `auth_credentials`, `sessions` and `users`, and the statements of the auth service. An
entity of an account holds the properties that its query has selected; a property that is undefined
is not written. A save reads the row by its id, and writes the properties in which the entity
differs from it. The columns that no call assigns are read from the row.
-/

namespace Identity

open Concurrency Relational

/-- The `type` of a token. -/
inductive TokenType : Type
  | access
  | refresh
deriving DecidableEq

/-- `JwtPayload`, with the time at which the token expires, in seconds. -/
structure JwtPayload where
  sub : String
  userId : String
  email : String
  sessionId : String
  type : TokenType
  exp : ℤ
deriving DecidableEq

/-- The text of a token: one that is signed with the secret of the refresh tokens, or any
other. -/
inductive TokenText : Type
  | signed (payload : JwtPayload)
  | other (text : String)
deriving DecidableEq

/-- `verifyAsync`, at a time in milliseconds: the payload of a text that is signed and has not
expired. -/
def TokenText.verify (now : ℤ) : TokenText → Option JwtPayload
  | .signed payload => if now / 1000 < payload.exp then some payload else none
  | .other _ => none

inductive AccountStatus : Type
  | active
  | inactive
  | suspended
  | locked
deriving DecidableEq

def AccountStatus.text : AccountStatus → String
  | .active => "ACTIVE"
  | .inactive => "INACTIVE"
  | .suspended => "SUSPENDED"
  | .locked => "LOCKED"

/-- An account. Times are in milliseconds. -/
structure Auth where
  id : String
  staffId : Option String
  email : String
  passwordHash : String
  status : AccountStatus
  totpSecret : Option String := none
  is2FAEnabled : Bool := false
  smsCode : Option String := none
  smsCodeExpiry : Option ℤ := none
  failedLoginAttempts : ℕ := 0
  lockedUntil : Option ℤ := none
  lastLoginAt : Option ℤ := none
  lastLoginIp : Option String := none
  activationToken : Option String := none
  activationTokenExpiry : Option ℤ := none
  passwordResetToken : Option String := none
  passwordResetExpiry : Option ℤ := none
  refreshTokenHashes : Option (List String) := none
  correlationId : Option String := none
deriving DecidableEq

structure Session where
  id : String
  authId : String
  sessionToken : String
  deviceInfo : Option String
  ipAddress : Option String
  userAgent : Option String
  revoked : Bool
  expiresAt : ℤ
deriving DecidableEq

/-- A user profile. -/
structure User where
  id : String
  authId : Option String
  email : String
  username : String
  firstName : Option String := none
  lastName : Option String := none
  status : AccountStatus
deriving DecidableEq

/-- An entity of an account: the columns that the calls assign, each of them defined or not. -/
structure AuthEntity where
  id : String
  passwordHash : Option String := none
  status : Option AccountStatus := none
  failedLoginAttempts : Option ℕ := none
  lockedUntil : Option (Option ℤ) := none
  lastLoginAt : Option (Option ℤ) := none
  lastLoginIp : Option (Option String) := none
  activationToken : Option (Option String) := none
  activationTokenExpiry : Option (Option ℤ) := none
  passwordResetToken : Option (Option String) := none
  passwordResetExpiry : Option (Option ℤ) := none
  refreshTokenHashes : Option (Option (List String)) := none
deriving DecidableEq

/-- The entity of a query without `addSelect`: the tokens are not selected. -/
def Auth.entity (row : Auth) : AuthEntity where
  id := row.id
  passwordHash := some row.passwordHash
  status := some row.status
  failedLoginAttempts := some row.failedLoginAttempts
  lockedUntil := some row.lockedUntil
  lastLoginAt := some row.lastLoginAt
  lastLoginIp := some row.lastLoginIp
  activationTokenExpiry := some row.activationTokenExpiry
  passwordResetExpiry := some row.passwordResetExpiry

/-- The row with the properties of the entity that are defined. -/
def AuthEntity.write (entity : AuthEntity) (row : Auth) : Auth :=
  { row with
    passwordHash := entity.passwordHash.getD row.passwordHash
    status := entity.status.getD row.status
    failedLoginAttempts := entity.failedLoginAttempts.getD row.failedLoginAttempts
    lockedUntil := entity.lockedUntil.getD row.lockedUntil
    lastLoginAt := entity.lastLoginAt.getD row.lastLoginAt
    lastLoginIp := entity.lastLoginIp.getD row.lastLoginIp
    activationToken := entity.activationToken.getD row.activationToken
    activationTokenExpiry := entity.activationTokenExpiry.getD row.activationTokenExpiry
    passwordResetToken := entity.passwordResetToken.getD row.passwordResetToken
    passwordResetExpiry := entity.passwordResetExpiry.getD row.passwordResetExpiry
    refreshTokenHashes := entity.refreshTokenHashes.getD row.refreshTokenHashes }

/-- A property that differs from its column. -/
def changed {α : Type} [DecidableEq α] (property : Option α) (column : α) : Option α :=
  if property = some column then none else property

/-- The properties of the entity that are defined and differ from the row. -/
def AuthEntity.diff (entity : AuthEntity) (row : Auth) : AuthEntity where
  id := entity.id
  passwordHash := changed entity.passwordHash row.passwordHash
  status := changed entity.status row.status
  failedLoginAttempts := changed entity.failedLoginAttempts row.failedLoginAttempts
  lockedUntil := changed entity.lockedUntil row.lockedUntil
  lastLoginAt := changed entity.lastLoginAt row.lastLoginAt
  lastLoginIp := changed entity.lastLoginIp row.lastLoginIp
  activationToken := changed entity.activationToken row.activationToken
  activationTokenExpiry := changed entity.activationTokenExpiry row.activationTokenExpiry
  passwordResetToken := changed entity.passwordResetToken row.passwordResetToken
  passwordResetExpiry := changed entity.passwordResetExpiry row.passwordResetExpiry
  refreshTokenHashes := changed entity.refreshTokenHashes row.refreshTokenHashes

@[simp] theorem getD_changed {α : Type} [DecidableEq α] (property : Option α) (column : α) :
    (changed property column).getD column = property.getD column := by
  unfold changed
  split
  next h =>
    rw [h]
    rfl
  · rfl

/-- Writing the properties that differ writes the entity. -/
theorem AuthEntity.write_diff (entity : AuthEntity) (row : Auth) :
    (entity.diff row).write row = entity.write row := by
  simp [AuthEntity.write, AuthEntity.diff]

@[simp] theorem AuthEntity.id_write (entity : AuthEntity) (row : Auth) : (entity.write row).id = row.id := rfl

@[simp] theorem AuthEntity.email_write (entity : AuthEntity) (row : Auth) :
    (entity.write row).email = row.email := rfl

@[simp] theorem AuthEntity.id_diff (entity : AuthEntity) (row : Auth) : (entity.diff row).id = entity.id := rfl

/-- The tables, and the clock, which goes on before each reading. An `array_remove` of the hash
list is refused by a database that keeps the list in a text column. -/
structure AuthDb where
  auths : Table Auth.id
  sessions : Table Session.id
  users : Table User.id
  clock : ℤ
  ticks : List ℕ := []
  arrayRemove : Bool := false

/-- The hashes of the refresh tokens of an account. -/
def AuthDb.hashes (db : AuthDb) (authId : String) : List String :=
  ((db.auths.find authId).bind (·.refreshTokenHashes)).getD []

/-- The statements, and the steps of a call between them. -/
inductive AuthCommand : Type
  /-- `new Date()`. -/
  | now
  /-- The comparison of a password takes its time. -/
  | comparePassword (valid : Bool)
  | findAuthByEmail (email : String)
  | findAuthById (authId : String)
  | findAuthByActivationToken (token : Option String)
  | findAuthByResetToken (token : String)
  | insertAuth (auth : Auth)
  /-- The `UPDATE` of a save, which has read the row. -/
  | saveAuth (entity : AuthEntity) (row : Auth)
  /-- `update({ id }, ..)`. -/
  | updateAuth (columns : AuthEntity)
  /-- `array_remove("refreshTokenHashes", hash)`. -/
  | removeHash (authId hash : String)
  | findUserById (userId : String)
  | findUserByAuthId (authId : String)
  | findUserByEmail (email : String)
  | insertUser (user : User)
  | saveUserStatus (userId : String) (status : AccountStatus)
  | updateUserStatus (authId : String) (status : AccountStatus)
  | findSession (sessionId authId : String)
  | insertSession (session : Session)
  /-- The sessions of the account are revoked. -/
  | revokeSessions (authId : String)
  | saveSession (session : Session)
deriving DecidableEq

/-- The values of the statements. -/
abbrev AuthCommand.Value : AuthCommand → Type
  | .now => ℤ
  | .comparePassword _ => Bool
  | .findAuthByEmail _ => Option Auth
  | .findAuthById _ => Option Auth
  | .findAuthByActivationToken _ => Option Auth
  | .findAuthByResetToken _ => Option Auth
  | .findUserById _ => Option User
  | .findUserByAuthId _ => Option User
  | .findUserByEmail _ => Option User
  | .findSession _ _ => Option Session
  | _ => Unit

/-- An exception of the service, by its kind, with its message. -/
inductive AuthError : Type
  | badRequest (message : String)
  | conflict (message : String)
  | forbidden (message : String)
  | notFound (message : String)
  | unauthorized (message : String)
  | database (message : String)
deriving DecidableEq

/-- The replies: values, or exceptions. -/
abbrev AuthCommand.Reply (c : AuthCommand) : Type := Except AuthError c.Value

/-- The value of a statement. -/
def AuthCommand.value : (c : AuthCommand) → AuthDb → c.Value
  | .now, db => db.clock + db.ticks.headD 0
  | .comparePassword valid, _ => valid
  | .findAuthByEmail email, db => db.auths.rows.find? fun auth => auth.email = email
  | .findAuthById authId, db => db.auths.find authId
  -- an undefined token is no criterion: any row is found
  | .findAuthByActivationToken token, db =>
    db.auths.rows.find? fun auth => ∀ text ∈ token, auth.activationToken = some text
  | .findAuthByResetToken token, db => db.auths.rows.find? fun auth => auth.passwordResetToken = some token
  | .insertAuth _, _ => ()
  | .saveAuth _ _, _ => ()
  | .updateAuth _, _ => ()
  | .removeHash _ _, _ => ()
  | .findUserById userId, db => db.users.find userId
  | .findUserByAuthId authId, db => db.users.rows.find? fun user => user.authId = some authId
  | .findUserByEmail email, db => db.users.rows.find? fun user => user.email = email
  | .insertUser _, _ => ()
  | .saveUserStatus _ _, _ => ()
  | .updateUserStatus _ _, _ => ()
  | .findSession sessionId authId, db => (db.sessions.find sessionId).filter fun session => session.authId = authId
  | .insertSession _, _ => ()
  | .revokeSessions _, _ => ()
  | .saveSession _, _ => ()

/-- A row is written, when there is one. -/
def writeRow {ρ : Type} {key : ρ → String} (table : Table key) (id : String) (f : ρ → ρ) : Table key :=
  match table.find id with
  | some row => table.save (f row)
  | none => table

/-- The row without a hash. -/
def Auth.removeHash (row : Auth) (hash : String) : Auth :=
  { row with refreshTokenHashes := row.refreshTokenHashes.map fun hashes => hashes.filter (· ≠ hash) }

/-- The session, revoked when it is one of the account. -/
def Session.revokeOf (authId : String) (session : Session) : Session :=
  if session.authId = authId then { session with revoked := true } else session

/-- The user, with the status when it is the one of the account. -/
def User.statusOf (authId : String) (status : AccountStatus) (user : User) : User :=
  if user.authId = some authId then { user with status } else user

/-- All rows of a table are updated in place. -/
def mapRows {ρ : Type} {key : ρ → String} (table : Table key) (f : ρ → ρ) : Table key :=
  Table.saveAll f table.rows table

/-- The effect of a statement. -/
def AuthCommand.effect : AuthCommand → AuthDb → AuthDb
  | .now, db => { db with clock := db.clock + db.ticks.headD 0, ticks := db.ticks.tail }
  | .insertAuth auth, db => { db with auths := db.auths.save auth }
  | .saveAuth entity row, db => { db with auths := writeRow db.auths entity.id (entity.diff row).write }
  | .updateAuth columns, db => { db with auths := writeRow db.auths columns.id columns.write }
  | .removeHash authId hash, db => { db with auths := writeRow db.auths authId (·.removeHash hash) }
  | .insertUser user, db => { db with users := db.users.save user }
  | .saveUserStatus userId status, db => { db with users := writeRow db.users userId ({ · with status }) }
  | .updateUserStatus authId status, db => { db with users := mapRows db.users (User.statusOf authId status) }
  | .insertSession session, db => { db with sessions := db.sessions.save session }
  | .revokeSessions authId, db => { db with sessions := mapRows db.sessions (Session.revokeOf authId) }
  | .saveSession session, db => { db with sessions := db.sessions.save session }
  | _, db => db

/-- The error of a write that violates a unique index. -/
def duplicateKey : String := "duplicate key value violates unique constraint"

/-- The error of an `array_remove` of a text column. -/
def noArrayRemove : String := "function array_remove(text, unknown) does not exist"

/-- The error of a statement, or `none` when it goes through. -/
def AuthCommand.refusal (db : AuthDb) : AuthCommand → Option String
  | .insertAuth auth =>
    if (db.auths.find auth.id).isSome ∨ ∃ row ∈ db.auths.rows,
        row.email = auth.email ∨ row.staffId.isSome ∧ row.staffId = auth.staffId then
      some duplicateKey
    else none
  | .insertUser user =>
    if (db.users.find user.id).isSome ∨ ∃ row ∈ db.users.rows, row.email = user.email then some duplicateKey
    else none
  | .insertSession session =>
    if (db.sessions.find session.id).isSome ∨ ∃ row ∈ db.sessions.rows, row.sessionToken = session.sessionToken then
      some duplicateKey
    else none
  | .removeHash _ _ => if db.arrayRemove then none else some noArrayRemove
  | _ => none

/-- The reply to a statement, and the tables after it. -/
def serve (c : AuthCommand) (db : AuthDb) : c.Reply × AuthDb :=
  match c.refusal db with
  | some message => (.error (.database message), db)
  | none => (.ok (c.value db), c.effect db)

section Serve

variable {c : AuthCommand} {db : AuthDb}

theorem serve_of_accepted (h : c.refusal db = none) : serve c db = (.ok (c.value db), c.effect db) := by
  simp only [serve, h]

theorem serve_of_refused {message : String} (h : c.refusal db = some message) :
    serve c db = (.error (.database message), db) := by
  simp only [serve, h]

end Serve

/-- The programs of the service. -/
abbrev AuthTask (α : Type) := Prog AuthCommand AuthCommand.Reply AuthError α

abbrev statement (c : AuthCommand) : AuthTask c.Value := issue c

end Identity
