import PeerX.Identity.Effects

/-!
# Identity: what a call does

A call that runs alone issues tokens, ends the sessions of an account, or touches neither the stored
hashes nor the sessions. A login stores the hash of its token alone, and a refresh exchanges one
hash of the list. This is what the properties of runs use of the service.
-/

namespace Identity

open Concurrency Relational

variable {config : AuthConfig} {db : AuthDb}

/-! ## Statements alone -/

section Statements

variable {α : Type} {Q : Except AuthError α → AuthDb → Prop}

/-- A statement that goes through, and the rest of the program. -/
theorem yields_accepted_bind {c : AuthCommand} {f : c.Value → AuthTask α} (hc : c.refusal db = none)
    (hf : (f (c.value db)).Yields serve (c.effect db) Q) : (statement c >>= f).Yields serve db Q := by
  have hserve := serve_of_accepted hc
  refine yields_issue_bind (fun v hv => ?_) fun e he => ?_
  · rw [hserve] at hv ⊢
    obtain rfl := Except.ok.inj hv
    exact hf
  · rw [hserve] at he
    cases he

/-- A statement that reads, and the rest of the program. -/
theorem yields_read_bind {c : AuthCommand} {f : c.Value → AuthTask α} (hc : c.refusal db = none)
    (heffect : c.effect db = db) (hf : (f (c.value db)).Yields serve db Q) : (statement c >>= f).Yields serve db Q := by
  refine yields_accepted_bind hc ?_
  rwa [heffect]

/-- A statement that goes through, or is refused, and the rest of the program. -/
theorem yields_statement_bind {c : AuthCommand} {f : c.Value → AuthTask α}
    (hok : c.refusal db = none → (f (c.value db)).Yields serve (c.effect db) Q)
    (hrefused : ∀ message, c.refusal db = some message → Q (.error (.database message)) db) :
    (statement c >>= f).Yields serve db Q := by
  cases hrefusal : c.refusal db with
  | none => exact yields_accepted_bind hrefusal (hok hrefusal)
  | some message =>
    have hserve := serve_of_refused hrefusal
    refine yields_issue_bind (fun v hv => ?_) fun e he => ?_
    · rw [hserve] at hv
      cases hv
    · rw [hserve] at he ⊢
      obtain rfl := Except.error.inj he
      exact hrefused message hrefusal

/-- A statement that goes through, at the end of a program. -/
theorem yields_accepted {c : AuthCommand} {Q : Except AuthError c.Value → AuthDb → Prop} (hc : c.refusal db = none)
    (hQ : Q (.ok (c.value db)) (c.effect db)) : (statement c).Yields serve db Q := by
  have h := yields_accepted_bind (f := pure) hc (yields_ret hQ)
  rwa [bind_pure] at h

/-- A passive program leaves tokens and sessions alone. -/
theorem yields_passive {A : α → Prop} {p : AuthTask α} (hp : p.Within AuthCommand.Passive A) :
    p.Yields serve db fun o db' => Untouched db db' ∧ ∀ a, o = .ok a → A a :=
  hp.yields Untouched.refl (fun _ _ _ => Untouched.trans) fun _ _ hc => untouched_serve hc

end Statements

/-! ## The checks of a login -/

/-- The tables when the clock was read. -/
def AuthDb.tick (db : AuthDb) : AuthDb := AuthCommand.effect .now db

/-- The tables after the lock check, which reads the clock for a lock that has an end. -/
def Auth.lockChecked (auth : Auth) (db : AuthDb) : AuthDb :=
  if auth.status = .locked ∧ auth.lockedUntil.isSome then db.tick else db

/-- The code of the second factor is right. -/
def Auth.CodePasses (config : AuthConfig) (auth : Auth) (code : String) (now : ℤ) : Prop :=
  (∃ secret ∈ auth.totpSecret.filter (· ≠ ""), config.verifyTotp code secret now = true) ∨
    auth.totpSecret.filter (· ≠ "") = none ∧ auth.smsCode.filter (· ≠ "") = some code ∧
      ∃ expiry ∈ auth.smsCodeExpiry, now < expiry

/-- The checks of a login pass: the account is active, or its lock has expired, and the password
and the second factor are right. -/
def Auth.Admits (config : AuthConfig) (auth : Auth) (db : AuthDb) (dto : LoginDto) : Prop :=
  auth.status ≠ .inactive ∧ auth.status ≠ .suspended ∧ ¬ auth.LockedAt db.reading ∧
    config.compare dto.password auth.passwordHash = true ∧
    (auth.is2FAEnabled = true → ∃ code ∈ dto.code.filter (· ≠ ""),
      auth.CodePasses config code (auth.lockChecked db).reading)

section Checks

variable {auth : Auth} {db' : AuthDb}

theorem eval_checkLock {entity : AuthEntity} (h : (checkLock auth).eval serve db = (.ok entity, db')) :
    ¬ auth.LockedAt db.reading ∧ db' = auth.lockChecked db := by
  unfold checkLock at h
  split at h
  next hlocked =>
    split at h
    next hnone =>
      cases h
      refine ⟨?_, by simp [Auth.lockChecked, hnone]⟩
      rintro ⟨-, lockedUntil, hsome, -⟩
      rw [hnone] at hsome
      cases hsome
    next lockedUntil hsome =>
      change (if db.reading < lockedUntil then _ else _ : AuthTask AuthEntity).eval serve db.tick = _ at h
      split at h
      · cases h
      next hexpired =>
        cases h
        refine ⟨?_, by simp [Auth.lockChecked, hlocked, hsome]⟩
        rintro ⟨-, lockedUntil', hsome', hlater⟩
        obtain rfl := Option.some.inj (hsome.symm.trans hsome')
        exact hexpired hlater
  next hlocked =>
    cases h
    exact ⟨fun h => hlocked h.1, by simp [Auth.lockChecked, hlocked]⟩

theorem eval_verify2FACode {code : String} (h : (verify2FACode config auth code).eval serve db = (.ok true, db')) :
    auth.CodePasses config code db.reading := by
  unfold verify2FACode at h
  split at h
  next secret hsecret => exact .inl ⟨secret, hsecret, Except.ok.inj (Prod.mk.inj h).1⟩
  next hsecret =>
    split at h
    next smsCode expiry hsms hexpiry =>
      obtain ⟨hbefore, rfl⟩ := of_decide_eq_true (Except.ok.inj (Prod.mk.inj h).1)
      exact .inr ⟨hsecret, hsms, expiry, hexpiry, hbefore⟩
    · cases h

theorem eval_checkTwoFactor {entity : AuthEntity} {code : Option String}
    (h : (checkTwoFactor config auth entity code).eval serve db = (.ok (), db')) (henabled : auth.is2FAEnabled = true) :
    ∃ given ∈ code.filter (· ≠ ""), auth.CodePasses config given db.reading := by
  unfold checkTwoFactor at h
  rw [if_pos henabled] at h
  split at h
  · cases h
  next given hgiven =>
    obtain ⟨valid, db₁, hvalid, h⟩ := Prog.eval_bind_ok _ h
    split at h
    · obtain ⟨_, _, -, h⟩ := Prog.eval_bind_ok _ h
      cases h
    next hright =>
      obtain rfl : valid = true := not_not.mp hright
      exact ⟨given, hgiven, eval_verify2FACode hvalid⟩

/-- A login that goes through has passed its checks. -/
theorem eval_loginChecks {dto : LoginDto} {ipAddress : Option String} {entity : AuthEntity}
    (h : (loginChecks config auth dto ipAddress).eval serve db = (.ok entity, db')) : auth.Admits config db dto := by
  unfold loginChecks at h
  split at h
  · cases h
  next hinactive =>
  split at h
  · cases h
  next hsuspended =>
  obtain ⟨entity₀, db₁, hlock, h⟩ := Prog.eval_bind_ok _ h
  obtain ⟨hunlocked, rfl⟩ := eval_checkLock hlock
  obtain ⟨valid, db₂, hpassword, h⟩ := Prog.eval_bind_ok _ h
  obtain ⟨hvalid, rfl⟩ := Prod.mk.inj hpassword
  obtain rfl := Except.ok.inj hvalid
  split at h
  · obtain ⟨_, _, -, h⟩ := Prog.eval_bind_ok _ h
    cases h
  next hright =>
  obtain ⟨_, _, htwo, -⟩ := Prog.eval_bind_ok _ h
  exact ⟨hinactive, hsuspended, hunlocked, not_not.mp hright, eval_checkTwoFactor htwo⟩

end Checks

/-! ## The changes of a call -/

/-- The hash that a logout removes. -/
def removedHash (config : AuthConfig) (refreshToken : Option TokenText) : Option String :=
  (refreshToken.filter (· ≠ .other "")).map config.hashToken

/-- The reply comes without tokens. -/
def Tokenless (reply : Except AuthError AuthReply) : Prop := ∀ pair, reply ≠ .ok (.tokens pair)

/-- What a call does to the hashes and the sessions. -/
inductive Does (config : AuthConfig) (db : AuthDb) : AuthCall → Except AuthError AuthReply → AuthDb → Prop
  | nothing {call reply db'} (hreply : Tokenless reply) (huntouched : Untouched db db') : Does config db call reply db'
  | opens {dto ids ipAddress userAgent auth payload accessToken session db'}
    (hauth : db.account dto.email = some auth) (hadmits : auth.Admits config db dto) (hsub : payload.sub = auth.id)
    (htoken : payload.sessionId = ids.tokenId) (hsession : session.id = ids.sessionId ∧ session.authId = auth.id ∧
      session.revoked = false) (hnew : db.sessions.find ids.sessionId = none)
    (hhashes : ∀ a, db'.hashes a = if a = auth.id then [config.hashToken (.signed payload)] else db.hashes a)
    (hsessions : db'.sessions = db.sessions.save session) (hreading : db.reading ≤ db'.reading) :
    Does config db (.login dto ids ipAddress userAgent) (.ok (.tokens ⟨accessToken, .signed payload⟩)) db'
  | rotates {payload new accessToken tokenId db'} (hvalid : db.reading / 1000 < payload.exp)
    (hstored : config.hashToken (.signed payload) ∈ db.hashes payload.sub) (hsub : new.sub = payload.sub)
    (htoken : new.sessionId = tokenId)
    (hhashes : ∀ a, db'.hashes a = if a = payload.sub then
      lastTen ((db.hashes payload.sub).filter (· ≠ config.hashToken (.signed payload)) ++
        [config.hashToken (.signed new)]) else db.hashes a)
    (hsessions : db'.sessions = db.sessions) (hreading : db.reading ≤ db'.reading) :
    Does config db (.refreshTokens (.signed payload) tokenId) (.ok (.tokens ⟨accessToken, .signed new⟩)) db'
  | ends {call reply authId db'} (hreply : Tokenless reply)
    (hhashes : ∀ a, db'.hashes a = if a = authId then [] else db.hashes a)
    (hsessions : db'.sessions = mapRows db.sessions (Session.revokeOf authId)) (hreading : db.reading ≤ db'.reading) :
    Does config db call reply db'
  | logsOut {authId refreshToken db'} (hremoved : removedHash config refreshToken = none ∨ db.arrayRemove = true)
    (hhashes : ∀ a, db'.hashes a =
      if a = authId then (db.hashes a).filter fun hash => removedHash config refreshToken ≠ some hash
      else db.hashes a)
    (hsessions : db'.sessions = mapRows db.sessions (Session.revokeOf authId)) (hreading : db.reading ≤ db'.reading) :
    Does config db (.logout authId refreshToken) (.ok .done) db'
  | revokes {authId sessionId session db'} (hsession : db.sessions.find sessionId = some session)
    (hauth : session.authId = authId) (hhashes : ∀ a, db'.hashes a = db.hashes a)
    (hsessions : db'.sessions = db.sessions.save { session with revoked := true })
    (hreading : db.reading ≤ db'.reading) :
    Does config db (.revokeSession authId sessionId) (.ok .done) db'

/-- The program, run alone, makes a change of the call. -/
abbrev DoesCall (config : AuthConfig) (db : AuthDb) (call : AuthCall) : Prop :=
  (call.program config).Yields serve db fun o db' => Does config db call o db'

theorem yields_map {α β : Type} {p : AuthTask α} {f : α → β} {Q : Except AuthError β → AuthDb → Prop}
    (hp : p.Yields serve db fun o db' => Q (o.map f) db') : (f <$> p).Yields serve db Q := by
  rw [map_eq_pure_bind]
  exact yields_bind hp (fun _ _ h => yields_ret h) fun _ _ h => h

theorem tokenless_error (e : AuthError) : Tokenless (.error e) := fun _ h => by cases h

theorem tokenless_done : Tokenless (.ok .done) := fun _ h => by cases h

theorem tokenless_token (token : Option String) : Tokenless (.ok (.token token)) := fun _ h => by cases h

theorem doesCall_of_passive {call : AuthCall} {α : Type} {p : AuthTask α} {f : α → AuthReply}
    (hprogram : call.program config = f <$> p) (hp : p.Within AuthCommand.Passive fun _ => True)
    (hf : ∀ a, Tokenless (.ok (f a))) : DoesCall config db call := by
  unfold DoesCall
  rw [hprogram]
  refine yields_map ((yields_passive hp).mono fun o db' h => .nothing ?_ h.1)
  cases o with
  | ok a => exact hf a
  | error e => exact tokenless_error e

/-! ## Accounts -/

theorem doesCall_register {dto : RegisterDto} {ids : RegisterIds} {correlationId : Option String} :
    DoesCall config db (.register dto ids correlationId) := by
  refine doesCall_of_passive rfl ?_ fun _ => tokenless_token _
  refine within_issue_bind rfl fun auth => ?_
  cases auth with
  | some _ => exact within_throw _
  | none =>
  refine within_issue_bind rfl fun user => ?_
  cases user with
  | some _ => exact within_throw _
  | none =>
  refine within_issue_bind rfl fun now => ?_
  refine within_issue_bind rfl fun _ => ?_
  exact within_issue_bind rfl fun _ => within_ret trivial

theorem doesCall_activateAccount {token : Option String} : DoesCall config db (.activateAccount token) := by
  refine doesCall_of_passive rfl ?_ fun _ => tokenless_done
  refine within_issue_bind rfl fun auth => ?_
  cases auth with
  | none => exact within_throw _
  | some auth =>
  dsimp only
  split
  · exact within_throw _
  refine within_issue_bind rfl fun now => ?_
  split
  · exact within_throw _
  exact within_bind (passive_saveAuth rfl) fun _ _ => within_issue rfl

theorem doesCall_forgotPassword {email token : String} : DoesCall config db (.forgotPassword email token) := by
  refine doesCall_of_passive rfl ?_ fun _ => tokenless_token _
  refine within_issue_bind rfl fun auth => ?_
  cases auth with
  | none => exact within_ret trivial
  | some auth =>
  refine within_issue_bind rfl fun now => ?_
  exact within_bind (passive_saveAuth rfl) fun _ _ => within_ret trivial

theorem doesCall_updateStatus {userId : String} {status : AccountStatus} :
    DoesCall config db (.updateStatus userId status) := by
  refine doesCall_of_passive rfl ?_ fun _ => tokenless_done
  refine within_issue_bind rfl fun user => ?_
  cases user with
  | none => exact within_throw _
  | some user =>
  dsimp only
  split
  · exact within_throw _
  refine within_issue_bind rfl fun _ => ?_
  split
  · exact within_ret trivial
  · exact within_issue rfl

/-! ## Sessions -/

/-- The list of an account is emptied, and its sessions are revoked, some time after the call
began. -/
theorem Does.ends_after {db₁ db' : AuthDb} {call : AuthCall} {reply : Except AuthError AuthReply} {authId : String}
    (h : Untouched db db₁) (hreply : Tokenless reply)
    (hhashes : ∀ a, db'.hashes a = if a = authId then [] else db₁.hashes a)
    (hsessions : db'.sessions = mapRows db₁.sessions (Session.revokeOf authId))
    (hreading : db₁.reading ≤ db'.reading) : Does config db call reply db' := by
  have hhashes' : ∀ a, db'.hashes a = if a = authId then [] else db.hashes a := fun a => by
    rw [hhashes, h.hashes]
  exact .ends hreply hhashes' (h.sessions ▸ hsessions) (h.reading.trans hreading)

theorem yields_saveAuth_empty {entity : AuthEntity} (h : entity.refreshTokenHashes = some (some [])) :
    (saveAuth entity).Yields serve db fun o db' => o = .ok () ∧
      (∀ a, db'.hashes a = if a = entity.id then [] else db.hashes a) ∧ db'.sessions = db.sessions ∧
      db'.reading = db.reading := by
  refine yields_read_bind rfl rfl ?_
  have hvalue : AuthCommand.value (.findAuthById entity.id) db = db.auths.find entity.id := rfl
  rw [hvalue]
  cases hrow : db.auths.find entity.id with
  | none =>
    refine yields_ret ⟨rfl, fun a => ?_, rfl, rfl⟩
    split
    next ha =>
      subst ha
      simp [AuthDb.hashes, hrow]
    · rfl
  | some row =>
    refine yields_accepted rfl ⟨rfl, fun a => ?_, rfl, rfl⟩
    refine (hashes_writeRow (f := (entity.diff row).write) (fun _ => rfl) entity.id).trans ?_
    rw [hrow, Option.map_some, AuthEntity.write_diff]
    simp [AuthEntity.write, h]

/-- A password is changed: the list is emptied, and the sessions of the account are revoked. -/
theorem yields_end {db₀ : AuthDb} {call : AuthCall} {entity : AuthEntity} (huntouched : Untouched db₀ db)
    (h : entity.refreshTokenHashes = some (some [])) :
    (saveAuth entity >>= fun _ => statement (.revokeSessions entity.id)).Yields serve db fun o db' =>
      Does config db₀ call (o.map fun _ => .done) db' := by
  refine yields_bind (yields_saveAuth_empty h) ?_ ?_
  · rintro _ db' ⟨-, hhashes, hsessions, hreading⟩
    refine yields_accepted rfl (.ends_after huntouched tokenless_done hhashes ?_ hreading.ge)
    rw [← hsessions]
    rfl
  · rintro e db' ⟨h, -⟩
    cases h

theorem doesCall_changePassword {authId currentPassword newPassword : String} :
    DoesCall config db (.changePassword authId currentPassword newPassword) := by
  refine yields_map (yields_read_bind rfl rfl ?_)
  generalize AuthCommand.value (.findAuthById authId) db = auth
  cases auth with
  | none => exact yields_throw (.nothing (tokenless_error _) (Untouched.refl _))
  | some auth =>
  dsimp only
  split
  · exact yields_throw (.nothing (tokenless_error _) (Untouched.refl _))
  · exact yields_end (Untouched.refl _) rfl

theorem doesCall_resetPassword {token newPassword : String} :
    DoesCall config db (.resetPassword token newPassword) := by
  refine yields_map (yields_read_bind rfl rfl ?_)
  generalize AuthCommand.value (.findAuthByResetToken token) db = auth
  cases auth with
  | none => exact yields_throw (.nothing (tokenless_error _) (Untouched.refl _))
  | some auth =>
  have hclock : Untouched db db.tick := untouched_serve (c := .now) rfl
  refine yields_accepted_bind rfl ?_
  split
  · exact yields_throw (.nothing (tokenless_error _) hclock)
  · exact yields_end hclock rfl

theorem doesCall_revokeSession {authId sessionId : String} : DoesCall config db (.revokeSession authId sessionId) := by
  refine yields_map (yields_read_bind rfl rfl ?_)
  cases hsession : AuthCommand.value (.findSession sessionId authId) db with
  | none => exact yields_throw (.nothing (tokenless_error _) (Untouched.refl _))
  | some session =>
    obtain ⟨hfind, hauth⟩ := Option.filter_eq_some_iff.mp hsession
    exact yields_accepted rfl (.revokes hfind (of_decide_eq_true hauth) (fun _ => rfl) rfl le_rfl)

theorem doesCall_revokeAllSessions {authId : String} : DoesCall config db (.revokeAllSessions authId) :=
  yields_map (yields_accepted_bind rfl (yields_accepted rfl
    (.ends tokenless_done (fun _ => hashes_emptied rfl) rfl le_rfl)))

theorem doesCall_logout {authId : String} {refreshToken : Option TokenText} :
    DoesCall config db (.logout authId refreshToken) := by
  refine yields_map ?_
  unfold logout
  split
  next hnone =>
    have hremoved : removedHash config refreshToken = none := by rw [removedHash, hnone]; rfl
    refine yields_accepted rfl (.logsOut (.inl hremoved) (fun a => ?_) rfl le_rfl)
    simp [hremoved, AuthDb.hashes, AuthCommand.effect]
  next token htoken =>
    have hremoved : removedHash config refreshToken = some (config.hashToken token) := by
      rw [removedHash, htoken]
      rfl
    refine yields_statement_bind (fun haccepted => ?_) fun message _ =>
      .nothing (tokenless_error _) (Untouched.refl _)
    have harray : db.arrayRemove = true := by simpa [AuthCommand.refusal] using haccepted
    refine yields_accepted rfl (.logsOut (.inr harray) (fun a => ?_) rfl le_rfl)
    refine (hashes_removeHash authId (config.hashToken token)).trans ?_
    simp only [hremoved, ne_eq, Option.some.injEq, eq_comm]

/-! ## Tokens -/

/-- A token that is not stored: the sessions of the account are revoked, and its list is
emptied. -/
theorem yields_alarm {db₀ : AuthDb} {call : AuthCall} {authId : String} {e : AuthError} (h : Untouched db₀ db) :
    (statement (.revokeSessions authId) >>= fun _ =>
      statement (.updateAuth { id := authId, refreshTokenHashes := some (some []) }) >>= fun _ =>
        (throw e : AuthTask TokenPair)).Yields serve db fun o db' => Does config db₀ call (o.map .tokens) db' := by
  refine yields_accepted_bind rfl (yields_accepted_bind rfl (yields_throw ?_))
  exact .ends_after h (tokenless_error _) (fun _ => hashes_emptied rfl) rfl le_rfl

/-- A rotation: the hash of the token gives way to the one of a new token. -/
theorem yields_rotation {db₀ : AuthDb} {payload : JwtPayload} {auth : Auth} {user : User} {sessionId : String}
    (h : Untouched db₀ db) (hexp : db₀.reading / 1000 < payload.exp) (hauth : db.auths.find payload.sub = some auth)
    (hstored : config.hashToken (.signed payload) ∈ auth.refreshTokenHashes.getD []) :
    (generateTokenPair config auth user sessionId >>= fun tokens =>
      statement (.updateAuth
        { id := auth.id
          refreshTokenHashes := some (some (lastTen
            ((auth.refreshTokenHashes.getD []).filter (· ≠ config.hashToken (.signed payload)) ++
              [config.hashToken tokens.refreshToken]))) }) >>= fun _ =>
        (pure tokens : AuthTask TokenPair)).Yields serve db fun o db' =>
      Does config db₀ (.refreshTokens (.signed payload) sessionId) (o.map .tokens) db' := by
  have hid : auth.id = payload.sub := Table.key_of_find hauth
  have hhashes : auth.refreshTokenHashes.getD [] = db₀.hashes payload.sub := by
    rw [← h.hashes, AuthDb.hashes, hauth]
    rfl
  refine yields_bind (yields_passive (passive_generateTokenPair config auth user sessionId)) ?_ ?_
  · rintro ⟨accessToken, _⟩ db₁ ⟨h₁, htoken⟩
    obtain ⟨new, rfl, hsub, hsession⟩ := htoken _ rfl
    have hall := h.trans h₁
    refine yields_accepted_bind rfl (yields_ret (.rotates hexp (hhashes ▸ hstored) (hsub.trans hid) hsession ?_
      hall.sessions hall.reading))
    -- the UPDATE replaces the one hash by the one of the new token
    intro a
    refine (hashes_replaced rfl ?_).trans ?_
    · refine h₁.accounts _ ?_
      dsimp only
      rw [hid, hauth]
      rfl
    · rw [hhashes, hall.hashes]
      dsimp only
      rw [hid]
  · rintro e db₁ ⟨h₁, -⟩
    exact .nothing (tokenless_error _) (h.trans h₁)

theorem doesCall_refreshTokens {refreshToken : TokenText} {sessionId : String} :
    DoesCall config db (.refreshTokens refreshToken sessionId) := by
  have hclock : Untouched db db.tick := untouched_serve (c := .now) rfl
  refine yields_map (yields_accepted_bind rfl ?_)
  have hvalue : AuthCommand.value .now db = db.reading := rfl
  have heffect : AuthCommand.effect .now db = db.tick := rfl
  rw [hvalue, heffect]
  cases hverify : refreshToken.verify db.reading with
  | none => exact yields_throw (.nothing (tokenless_error _) hclock)
  | some payload =>
  obtain ⟨rfl, hexp⟩ := verify_eq_some.mp hverify
  dsimp only
  split
  · exact yields_throw (.nothing (tokenless_error _) hclock)
  refine yields_read_bind rfl rfl ?_
  cases hauth : AuthCommand.value (.findAuthById payload.sub) db.tick with
  | none => exact yields_throw (.nothing (tokenless_error _) hclock)
  | some auth =>
  dsimp only
  split
  · exact yields_alarm hclock
  next hstored =>
  refine yields_read_bind rfl rfl ?_
  cases AuthCommand.value (.findUserByAuthId auth.id) db.tick with
  | none => exact yields_throw (.nothing (tokenless_error _) hclock)
  | some user => exact yields_rotation hclock hexp hauth (not_not.mp hstored)

/-- A session is opened, after the checks of a login. -/
theorem yields_openSession {db₀ : AuthDb} {auth : Auth} {entity : AuthEntity} {dto : LoginDto} {ids : LoginIds}
    {ipAddress userAgent : Option String} (h : Untouched db₀ db) (hauth : db₀.account dto.email = some auth)
    (hadmits : auth.Admits config db₀ dto) (hentity : entity.refreshTokenHashes = none) :
    (openSession config auth entity dto ids ipAddress userAgent).Yields serve db fun o db' =>
      Does config db₀ (.login dto ids ipAddress userAgent) (o.map .tokens) db' := by
  have hrow : (db₀.auths.find auth.id).isSome := by
    rw [Table.find_of_mem (List.mem_of_find?_eq_some hauth)]
    rfl
  refine yields_read_bind rfl rfl ?_
  cases AuthCommand.value (.findUserByAuthId auth.id) db with
  | none => exact yields_throw (.nothing (tokenless_error _) h)
  | some user =>
  refine yields_bind (yields_passive (passive_generateTokenPair config auth user ids.tokenId)) ?_ ?_
  · rintro ⟨accessToken, _⟩ db₁ ⟨h₁, htoken⟩
    obtain ⟨payload, rfl, hsub, hsession⟩ := htoken _ rfl
    have hall := (h.trans h₁).trans (untouched_serve (c := .now) rfl)
    refine yields_accepted_bind rfl (yields_statement_bind (fun haccepted => ?_) fun message _ => ?_)
    · -- the INSERT was accepted, so the id of the session was free
      have hnew : db₀.sessions.find ids.sessionId = none := by
        rw [← hall.sessions]
        by_contra hsome
        exact absurd (haccepted.symm.trans (if_pos (.inl (Option.isSome_iff_ne_none.mpr hsome)))) nofun
      have hopened : (newSession config auth dto ids ipAddress userAgent db₁.reading).id = ids.sessionId ∧
          (newSession config auth dto ids ipAddress userAgent db₁.reading).authId = auth.id ∧
          (newSession config auth dto ids ipAddress userAgent db₁.reading).revoked = false := ⟨rfl, rfl, rfl⟩
      have hlist : lastTen (((entity.refreshTokenHashes.getD none).getD []).filter (· ≠ "") ++
          [config.hashToken (.signed payload)]) = [config.hashToken (.signed payload)] := by
        rw [hentity]
        rfl
      dsimp only
      rw [hlist]
      refine yields_accepted_bind rfl (yields_ret (.opens hauth hadmits hsub hsession hopened hnew ?_ ?_
        hall.reading))
      · exact fun a => (hashes_replaced rfl (hall.accounts _ hrow)).trans (by rw [← hall.hashes a])
      · rw [← hall.sessions]
        rfl
    · exact .nothing (tokenless_error _) hall
  · rintro e db₁ ⟨h₁, -⟩
    exact .nothing (tokenless_error _) (h.trans h₁)

theorem doesCall_login {dto : LoginDto} {ids : LoginIds} {ipAddress userAgent : Option String} :
    DoesCall config db (.login dto ids ipAddress userAgent) := by
  refine yields_map ?_
  rw [login_eq]
  refine yields_read_bind rfl rfl ?_
  cases hauth : AuthCommand.value (.findAuthByEmail dto.email) db with
  | none => exact yields_throw (.nothing (tokenless_error _) (Untouched.refl _))
  | some auth =>
  have hchecks : (loginChecks config auth dto ipAddress).Yields serve db fun o db' =>
      (Untouched db db' ∧ ∀ entity, o = .ok entity → entity.refreshTokenHashes = none) ∧
        ∀ entity, o = .ok entity → auth.Admits config db dto :=
    ⟨yields_passive (passive_loginChecks config auth dto ipAddress),
      fun entity h => eval_loginChecks (Prod.ext h rfl)⟩
  refine yields_bind hchecks ?_ ?_
  · rintro entity db' ⟨⟨huntouched, hlist⟩, hadmits⟩
    exact yields_openSession huntouched hauth (hadmits entity rfl) (hlist entity rfl)
  · rintro e db' ⟨⟨huntouched, -⟩, -⟩
    exact .nothing (tokenless_error _) huntouched

/-- A call that runs alone does one of the changes. -/
theorem does_program (config : AuthConfig) (db : AuthDb) (call : AuthCall) :
    Does config db call ((call.program config).eval serve db).1 ((call.program config).eval serve db).2 := by
  cases call with
  | register => exact doesCall_register
  | activateAccount => exact doesCall_activateAccount
  | login => exact doesCall_login
  | refreshTokens => exact doesCall_refreshTokens
  | logout => exact doesCall_logout
  | forgotPassword => exact doesCall_forgotPassword
  | resetPassword => exact doesCall_resetPassword
  | changePassword => exact doesCall_changePassword
  | revokeSession => exact doesCall_revokeSession
  | revokeAllSessions => exact doesCall_revokeAllSessions
  | updateStatus => exact doesCall_updateStatus

end Identity
