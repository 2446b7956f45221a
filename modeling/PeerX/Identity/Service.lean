import PeerX.Identity.Database

/-!
# Identity: the auth service

Accounts are registered and activated; a login checks the password and the second factor, counts the
failures, and issues a pair of tokens; a refresh token is exchanged for a new pair; sessions are
revoked. The hashes of the refresh tokens stand in a list on the account, which is not selected
unless a query adds it. Generated identifiers are given with the call; events and logs, and the
reads that only they use, are left out.
-/

namespace Identity

open Concurrency Relational

/-- The settings, and what `bcrypt`, `sha256` and `speakeasy` compute. -/
structure AuthConfig where
  /-- `AUTH_MAX_LOGIN_ATTEMPTS`. -/
  maxAttempts : ℕ := 5
  /-- `AUTH_LOCKOUT_DURATION`, in milliseconds. -/
  lockoutDuration : ℤ := 900000
  /-- `JWT_EXPIRES_IN`, in seconds. -/
  expiresIn : ℤ := 3600
  /-- `JWT_REFRESH_EXPIRES_IN`, in seconds. -/
  refreshExpiresIn : ℤ := 604800
  compare : String → String → Bool
  hash : String → String
  hashToken : TokenText → String
  verifyTotp : String → String → ℤ → Bool

variable (config : AuthConfig)

/-! ## Saves -/

/-- `authRepo.save` of a loaded entity: the row is read, and the properties that differ are
written. -/
def saveAuth (entity : AuthEntity) : AuthTask Unit := do
  match ← statement (.findAuthById entity.id) with
  | none => return ()
  | some row => statement (.saveAuth entity row)

/-! ## Tokens -/

structure TokenPair where
  accessToken : JwtPayload
  refreshToken : TokenText
deriving DecidableEq

def tokenPayload (auth : Auth) (user : User) (sessionId : String) (type : TokenType) (exp : ℤ) : JwtPayload where
  sub := auth.id
  userId := user.id
  email := auth.email
  sessionId := sessionId
  type := type
  exp := exp

/-- `generateTokenPair`; `sessionId` is the generated identifier. -/
def generateTokenPair (auth : Auth) (user : User) (sessionId : String) : AuthTask TokenPair := do
  let now ← statement .now
  return {
    accessToken := tokenPayload auth user sessionId .access (now / 1000 + config.expiresIn)
    refreshToken := .signed (tokenPayload auth user sessionId .refresh (now / 1000 + config.refreshExpiresIn)) }

/-- `slice(-10)`. -/
def lastTen (hashes : List String) : List String := hashes.drop (hashes.length - 10)

/-! ## Login -/

structure LoginDto where
  email : String
  password : String
  code : Option String := none
  deviceInfo : Option String := none
deriving DecidableEq

/-- The identifiers that a login generates. -/
structure LoginIds where
  /-- The `sessionId` of the tokens. -/
  tokenId : String
  /-- The primary key of the session. -/
  sessionId : String
  sessionToken : String
deriving DecidableEq

/-- The entity of a lock that has expired: `lockedUntil` is undefined. -/
def AuthEntity.unlocked (entity : AuthEntity) : AuthEntity :=
  { entity with status := some .active, failedLoginAttempts := some 0, lockedUntil := none }

/-- The entity after a failed login. -/
def AuthEntity.withFailure (entity : AuthEntity) : AuthEntity :=
  { entity with failedLoginAttempts := some (entity.failedLoginAttempts.getD 0 + 1) }

/-- The entity of an account that is locked from now on. -/
def AuthEntity.lockedAt (entity : AuthEntity) (now : ℤ) : AuthEntity :=
  { entity with status := some .locked, lockedUntil := some (some (now + config.lockoutDuration)) }

/-- The entity after a successful login. -/
def AuthEntity.succeeded (entity : AuthEntity) (now : ℤ) (ipAddress : Option String) : AuthEntity :=
  { entity with
    failedLoginAttempts := some 0
    lastLoginAt := some (some now)
    lastLoginIp := ipAddress.map some }

def handleFailedLogin (entity : AuthEntity) : AuthTask Unit := do
  if config.maxAttempts ≤ entity.failedLoginAttempts.getD 0 + 1 then
    let now ← statement .now
    saveAuth (entity.withFailure.lockedAt config now)
  else
    saveAuth entity.withFailure

/-- `verify2FACode`. An empty text counts as none. -/
def verify2FACode (auth : Auth) (code : String) : AuthTask Bool := do
  match auth.totpSecret.filter (· ≠ "") with
  | some secret =>
    let now ← statement .now
    return config.verifyTotp code secret now
  | none =>
    match auth.smsCode.filter (· ≠ ""), auth.smsCodeExpiry with
    | some smsCode, some expiry =>
      let now ← statement .now
      return now < expiry ∧ code = smsCode
    | _, _ => return false

/-- The exception for a locked account; the seconds are rounded up. -/
def temporarilyLocked (lockedUntil now : ℤ) : AuthError :=
  .forbidden s!"Account is temporarily locked. Try again in {-((now - lockedUntil) / 1000)} seconds."

/-- The lock check of a login: the entity, unlocked when the lock has expired. -/
def checkLock (auth : Auth) : AuthTask AuthEntity := do
  if auth.status = .locked then
    match auth.lockedUntil with
    | none => return auth.entity.unlocked
    | some lockedUntil =>
      let now ← statement .now
      if now < lockedUntil then
        let now ← statement .now
        throw (temporarilyLocked lockedUntil now)
      else
        return auth.entity.unlocked
  else
    return auth.entity

/-- The second factor of a login. -/
def checkTwoFactor (auth : Auth) (entity : AuthEntity) (code : Option String) : AuthTask Unit := do
  if auth.is2FAEnabled then
    match code.filter (· ≠ "") with
    | none => throw (.unauthorized "2FA code required")
    | some code =>
      let twoFaValid ← verify2FACode config auth code
      if ¬ twoFaValid then
        handleFailedLogin config entity
        throw (.unauthorized "Invalid 2FA code")

/-- The session of a login. -/
def newSession (auth : Auth) (dto : LoginDto) (ids : LoginIds) (ipAddress userAgent : Option String) (now : ℤ) :
    Session where
  id := ids.sessionId
  authId := auth.id
  sessionToken := ids.sessionToken
  deviceInfo := dto.deviceInfo
  ipAddress := ipAddress
  userAgent := userAgent
  revoked := false
  expiresAt := now + config.refreshExpiresIn * 1000

/-- A login after its checks: the tokens, the session, and the hash of the refresh token. -/
def openSession (auth : Auth) (entity : AuthEntity) (dto : LoginDto) (ids : LoginIds)
    (ipAddress userAgent : Option String) : AuthTask TokenPair := do
  match ← statement (.findUserByAuthId auth.id) with
  | none => throw (.notFound "User profile not found")
  | some user =>
    let tokens ← generateTokenPair config auth user ids.tokenId
    let refreshTokenHash := config.hashToken tokens.refreshToken
    let now ← statement .now
    statement (.insertSession (newSession config auth dto ids ipAddress userAgent now))
    -- the entity was loaded without the list
    let existingHashes := ((entity.refreshTokenHashes.getD none).getD []).filter (· ≠ "")
    statement (.updateAuth
      { id := auth.id, refreshTokenHashes := some (some (lastTen (existingHashes ++ [refreshTokenHash]))) })
    return tokens

def login (dto : LoginDto) (ids : LoginIds) (ipAddress userAgent : Option String) : AuthTask TokenPair := do
  match ← statement (.findAuthByEmail dto.email) with
  | none => throw (.unauthorized "Invalid credentials")
  | some auth =>
    if auth.status = .inactive then
      throw (.unauthorized "Account not yet activated. Please check your email.")
    else if auth.status = .suspended then
      throw (.forbidden "Account has been suspended. Please contact support.")
    else
      let entity ← checkLock auth
      let passwordValid ← statement (.comparePassword (config.compare dto.password auth.passwordHash))
      if ¬ passwordValid then
        handleFailedLogin config entity
        throw (.unauthorized "Invalid credentials")
      else
        checkTwoFactor config auth entity dto.code
        let now ← statement .now
        saveAuth (entity.succeeded now ipAddress)
        openSession config auth entity dto ids ipAddress userAgent

/-! ## Refresh and logout -/

/-- `AuthService.refreshTokens`; `sessionId` is the identifier that `generateTokenPair`
generates. -/
def refreshTokens (refreshToken : TokenText) (sessionId : String) : AuthTask TokenPair := do
  let now ← statement .now
  match refreshToken.verify now with
  | none => throw (.unauthorized "Invalid or expired refresh token")
  | some payload =>
    if payload.type ≠ .refresh then
      throw (.unauthorized "Invalid token type")
    else
      match ← statement (.findAuthById payload.sub) with
      | none => throw (.unauthorized "Auth record not found")
      | some auth =>
        let hash := config.hashToken refreshToken
        let storedHashes := auth.refreshTokenHashes.getD []
        if hash ∉ storedHashes then
          statement (.revokeSessions auth.id)
          statement (.updateAuth { id := auth.id, refreshTokenHashes := some (some []) })
          throw (.unauthorized "Refresh token reuse detected. All sessions invalidated.")
        else
          match ← statement (.findUserByAuthId auth.id) with
          | none => throw (.notFound "User not found")
          | some user =>
            let tokens ← generateTokenPair config auth user sessionId
            let newHash := config.hashToken tokens.refreshToken
            let updatedHashes := storedHashes.filter (· ≠ hash) ++ [newHash]
            statement (.updateAuth { id := auth.id, refreshTokenHashes := some (some (lastTen updatedHashes)) })
            return tokens

/-- `AuthService.logout`. An empty token counts as none. -/
def logout (authId : String) (refreshToken : Option TokenText) : AuthTask Unit := do
  match refreshToken.filter (· ≠ .other "") with
  | none => statement (.revokeSessions authId)
  | some refreshToken =>
    statement (.removeHash authId (config.hashToken refreshToken))
    statement (.revokeSessions authId)

/-! ## Accounts -/

structure RegisterDto where
  email : String
  username : String
  password : String
  firstName : Option String := none
  lastName : Option String := none
deriving DecidableEq

/-- The identifiers that a registration generates. -/
structure RegisterIds where
  authId : String
  userId : String
  activationToken : String
deriving DecidableEq

/-- The account of a registration. -/
def newAuth (dto : RegisterDto) (ids : RegisterIds) (now : ℤ) (correlationId : Option String) : Auth where
  id := ids.authId
  staffId := some dto.email
  email := dto.email
  passwordHash := config.hash dto.password
  status := .inactive
  activationToken := some ids.activationToken
  activationTokenExpiry := some (now + 24 * 60 * 60 * 1000)
  correlationId := correlationId

/-- The profile of a registration. -/
def newUser (dto : RegisterDto) (ids : RegisterIds) : User where
  id := ids.userId
  authId := some ids.authId
  email := dto.email
  username := dto.username
  firstName := dto.firstName
  lastName := dto.lastName
  status := .inactive

/-- `AuthService.register`: the activation token. -/
def register (dto : RegisterDto) (ids : RegisterIds) (correlationId : Option String) : AuthTask String := do
  match ← statement (.findAuthByEmail dto.email) with
  | some _ => throw (.conflict "An account with this email already exists")
  | none =>
    match ← statement (.findUserByEmail dto.email) with
    | some _ => throw (.conflict "Email already in use")
    | none =>
      let now ← statement .now
      statement (.insertAuth (newAuth config dto ids now correlationId))
      statement (.insertUser (newUser dto ids))
      return ids.activationToken

/-- The entity of an activation: the token and its expiry are undefined. -/
def Auth.activated (auth : Auth) : AuthEntity := { id := auth.id, status := some .active }

/-- `AuthService.activateAccount`. The query of a request may have no `token`. -/
def activateAccount (token : Option String) : AuthTask Unit := do
  match ← statement (.findAuthByActivationToken token) with
  | none => throw (.badRequest "Invalid or expired activation token")
  | some auth =>
    if auth.activationToken.getD "" = "" then
      throw (.badRequest "Invalid or expired activation token")
    else
      let now ← statement .now
      if ∃ expiry ∈ auth.activationTokenExpiry, expiry < now then
        throw (.badRequest "Activation token has expired")
      else
        saveAuth auth.activated
        statement (.updateUserStatus auth.id .active)

/-! ## Passwords -/

/-- `AuthService.forgotPassword`: the reset token, `token` when there is an account. -/
def forgotPassword (email token : String) : AuthTask (Option String) := do
  match ← statement (.findAuthByEmail email) with
  | none => return none
  | some auth =>
    let now ← statement .now
    saveAuth { auth.entity with
      passwordResetToken := some (some token), passwordResetExpiry := some (some (now + 60 * 60 * 1000)) }
    return some token

/-- The entity of a reset: the token and its expiry are undefined. -/
def Auth.withPassword (auth : Auth) (passwordHash : String) : AuthEntity :=
  { auth.entity with
    passwordHash := some passwordHash
    passwordResetExpiry := none
    refreshTokenHashes := some (some []) }

def resetPassword (token newPassword : String) : AuthTask Unit := do
  match ← statement (.findAuthByResetToken token) with
  | none => throw (.badRequest "Invalid or expired reset token")
  | some auth =>
    let now ← statement .now
    if auth.passwordResetToken.getD "" = "" ∨ ∃ expiry ∈ auth.passwordResetExpiry, expiry < now then
      throw (.badRequest "Invalid or expired reset token")
    else
      saveAuth (auth.withPassword (config.hash newPassword))
      statement (.revokeSessions auth.id)

def changePassword (authId currentPassword newPassword : String) : AuthTask Unit := do
  match ← statement (.findAuthById authId) with
  | none => throw (.notFound "Auth record not found")
  | some auth =>
    if ¬ config.compare currentPassword auth.passwordHash then
      throw (.unauthorized "Current password is incorrect")
    else
      saveAuth { auth.entity with
        passwordHash := some (config.hash newPassword), refreshTokenHashes := some (some []) }
      statement (.revokeSessions auth.id)

/-! ## Sessions and status -/

def revokeSession (authId sessionId : String) : AuthTask Unit := do
  match ← statement (.findSession sessionId authId) with
  | none => throw (.notFound "Session not found")
  | some session => statement (.saveSession { session with revoked := true })

def revokeAllSessions (authId : String) : AuthTask Unit := do
  statement (.revokeSessions authId)
  statement (.updateAuth { id := authId, refreshTokenHashes := some (some []) })

def updateStatus (userId : String) (status : AccountStatus) : AuthTask Unit := do
  match ← statement (.findUserById userId) with
  | none => throw (.notFound s!"User with id {userId} not found")
  | some user =>
    if user.status = status then
      throw (.badRequest s!"User is already {status.text}")
    else
      statement (.saveUserStatus userId status)
      match user.authId.filter (· ≠ "") with
      | none => return ()
      | some authId => statement (.updateAuth { id := authId, status := some status })

/-! ## Calls -/

inductive AuthCall : Type
  | register (dto : RegisterDto) (ids : RegisterIds) (correlationId : Option String)
  | activateAccount (token : Option String)
  | login (dto : LoginDto) (ids : LoginIds) (ipAddress userAgent : Option String)
  | refreshTokens (refreshToken : TokenText) (sessionId : String)
  | logout (authId : String) (refreshToken : Option TokenText)
  | forgotPassword (email token : String)
  | resetPassword (token newPassword : String)
  | changePassword (authId currentPassword newPassword : String)
  | revokeSession (authId sessionId : String)
  | revokeAllSessions (authId : String)
  | updateStatus (userId : String) (status : AccountStatus)
deriving DecidableEq

/-- What a call returns. -/
inductive AuthReply : Type
  | done
  | token (token : Option String)
  | tokens (pair : TokenPair)
deriving DecidableEq

def AuthCall.program : AuthCall → AuthTask AuthReply
  | .register dto ids correlationId => (.token ∘ some) <$> Identity.register config dto ids correlationId
  | .activateAccount token => (fun _ => .done) <$> Identity.activateAccount token
  | .login dto ids ipAddress userAgent => .tokens <$> Identity.login config dto ids ipAddress userAgent
  | .refreshTokens refreshToken sessionId => .tokens <$> Identity.refreshTokens config refreshToken sessionId
  | .logout authId refreshToken => (fun _ => .done) <$> Identity.logout config authId refreshToken
  | .forgotPassword email token => .token <$> Identity.forgotPassword email token
  | .resetPassword token newPassword => (fun _ => .done) <$> Identity.resetPassword config token newPassword
  | .changePassword authId currentPassword newPassword =>
    (fun _ => .done) <$> Identity.changePassword config authId currentPassword newPassword
  | .revokeSession authId sessionId => (fun _ => .done) <$> Identity.revokeSession authId sessionId
  | .revokeAllSessions authId => (fun _ => .done) <$> Identity.revokeAllSessions authId
  | .updateStatus userId status => (fun _ => .done) <$> Identity.updateStatus userId status

end Identity
