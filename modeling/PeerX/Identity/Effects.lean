import PeerX.Identity.Service
import PeerX.Foundations.Indexed

/-!
# Identity: what a statement does

A statement writes at most one list of hashes, revokes sessions or inserts one, or leaves both
alone. This is what the properties of refresh tokens use of the statements.

## Main results

* `find_writeRow`, `rows_writeRow`, `rows_mapRows`: the tables after a write
* `hashes_subset`, `hashes_updateAuth`: the lists of hashes after a statement
* `untouched_serve`: a passive statement leaves tokens and sessions alone
* `login_eq`, `checking_loginChecks`: a login is made of checks, which are passive, and a session
  that it opens
-/

namespace Identity

open Concurrency Relational

/-! ## Tables -/

section Tables

variable {ρ : Type} {key : ρ → String} {f : ρ → ρ}

theorem find_writeRow (hf : ∀ r, key (f r) = key r) (table : Table key) (id k : String) :
    (writeRow table id f).find k = if k = id then (table.find id).map f else table.find k := by
  unfold writeRow
  cases hrow : table.find id with
  | none =>
    by_cases hk : k = id
    · rw [if_pos hk, hk, hrow]
      rfl
    · rw [if_neg hk]
  | some row =>
    have hkey : key (f row) = id := (hf row).trans (Table.key_of_find hrow)
    dsimp only
    rw [Table.find_save, hkey]
    rfl

theorem rows_writeRow (hf : ∀ r, key (f r) = key r) (table : Table key) (id : String) :
    (writeRow table id f).rows = table.rows.map fun r => if key r = id then f r else r := by
  unfold writeRow
  cases hrow : table.find id with
  | none =>
    refine (List.map_id _).symm.trans (List.map_congr_left fun r hr => ?_)
    exact (if_neg (Table.find_eq_none_iff.mp hrow r hr)).symm
  | some row =>
    have hrows := Table.upsert_eq_map hf table.nodup (Table.mem_of_find hrow)
    rw [Table.key_of_find hrow] at hrows
    exact hrows

theorem rows_mapRows (hf : ∀ r, key (f r) = key r) (table : Table key) :
    (mapRows table f).rows = table.rows.map f := by
  unfold mapRows
  rw [Table.rows_saveAll hf table.nodup fun _ h => h]
  exact List.map_congr_left fun r hr => if_pos (List.mem_map_of_mem hr)

theorem find_mapRows (hf : ∀ r, key (f r) = key r) (table : Table key) (k : String) :
    (mapRows table f).find k = (table.find k).map f := by
  unfold Table.find
  rw [rows_mapRows hf, List.find?_map]
  congr 1
  refine congrArg (fun p => List.find? p table.rows) (funext fun r => ?_)
  simp [hf]

end Tables

/-- The account of a login. -/
def AuthDb.account (db : AuthDb) (email : String) : Option Auth :=
  db.auths.rows.find? fun auth => auth.email = email

/-- The lock of an account is in force. -/
def Auth.LockedAt (auth : Auth) (now : ℤ) : Prop :=
  auth.status = .locked ∧ ∃ lockedUntil ∈ auth.lockedUntil, now < lockedUntil

/-! ## Lists of hashes -/

/-- The list of hashes that a statement writes. -/
def AuthCommand.list : AuthCommand → Option (List String)
  | .insertAuth auth => auth.refreshTokenHashes
  | .saveAuth entity _ => entity.refreshTokenHashes.map (·.getD [])
  | .updateAuth columns => columns.refreshTokenHashes.map (·.getD [])
  | _ => none

variable {db : AuthDb} {c : AuthCommand} {a : String}

theorem hashes_writeRow {f : Auth → Auth} (hf : ∀ row, (f row).id = row.id) (id : String) :
    AuthDb.hashes { db with auths := writeRow db.auths id f } a =
      if a = id then (((db.auths.find id).map f).bind (·.refreshTokenHashes)).getD [] else db.hashes a := by
  unfold AuthDb.hashes
  dsimp only
  rw [find_writeRow hf]
  split
  · rfl
  · rfl

theorem hashes_writeRow_same {f : Auth → Auth} (hf : ∀ row, (f row).id = row.id)
    (hlist : ∀ row, (f row).refreshTokenHashes = row.refreshTokenHashes) (id : String) :
    AuthDb.hashes { db with auths := writeRow db.auths id f } a = db.hashes a := by
  rw [hashes_writeRow hf]
  split
  next h =>
    subst h
    unfold AuthDb.hashes
    cases db.auths.find a with
    | none => rfl
    | some row => simp [hlist]
  · rfl

theorem refreshTokenHashes_write {entity : AuthEntity} (h : entity.refreshTokenHashes = none) (row : Auth) :
    (entity.write row).refreshTokenHashes = row.refreshTokenHashes := by
  simp [AuthEntity.write, h]

theorem refreshTokenHashes_diff {entity : AuthEntity} (h : entity.refreshTokenHashes = none) (row : Auth) :
    (entity.diff row).refreshTokenHashes = none := by
  simp [AuthEntity.diff, changed, h]

/-- A text that verifies is a signed token that has not expired. -/
theorem verify_eq_some {token : TokenText} {now : ℤ} {payload : JwtPayload} :
    token.verify now = some payload ↔ token = .signed payload ∧ now / 1000 < payload.exp := by
  cases token with
  | signed payload' =>
    simp only [TokenText.verify, Option.ite_none_right_eq_some, Option.some.injEq, TokenText.signed.injEq]
    constructor
    · rintro ⟨hexp, rfl⟩
      exact ⟨rfl, hexp⟩
    · rintro ⟨rfl, hexp⟩
      exact ⟨hexp, rfl⟩
  | other text => simp [TokenText.verify]

theorem lastTen_append (hashes : List String) (hash : String) :
    lastTen (hashes ++ [hash]) = hashes.drop (hashes.length - 9) ++ [hash] := by
  have hlength : (hashes ++ [hash]).length - 10 = hashes.length - 9 := by simp
  rw [lastTen, hlength, List.drop_append_of_le_length (Nat.sub_le _ _)]

/-- A hash in a list that has lost one hash and gained another. -/
theorem mem_lastTen_filter {hashes : List String} {hash old new : String}
    (h : hash ∈ lastTen (hashes.filter (· ≠ old) ++ [new])) : hash ∈ hashes ∨ hash = new := by
  rw [lastTen_append] at h
  rcases List.mem_append.mp h with hkept | hnew
  · exact .inl (List.mem_of_mem_filter (List.mem_of_mem_drop hkept))
  · exact .inr (List.mem_singleton.mp hnew)

/-- The lists after an `array_remove`. -/
theorem hashes_removeHash (authId hash : String) :
    AuthDb.hashes (AuthCommand.effect (.removeHash authId hash) db) a =
      if a = authId then (db.hashes a).filter (· ≠ hash) else db.hashes a := by
  refine (hashes_writeRow (f := (·.removeHash hash)) (fun _ => rfl) authId).trans ?_
  by_cases ha : a = authId
  · subst ha
    rw [if_pos rfl, if_pos rfl, AuthDb.hashes]
    cases db.auths.find a with
    | none => rfl
    | some row => cases hlist : row.refreshTokenHashes <;> simp [Auth.removeHash, hlist]
  · rw [if_neg ha, if_neg ha]

/-- **A statement that writes no list** adds no hash to one. -/
theorem hashes_subset (hc : c.list = none) : (serve c db).2.hashes a ⊆ db.hashes a := by
  unfold serve
  cases hrefusal : c.refusal db with
  | some message => exact List.Subset.refl _
  | none =>
    cases c with
    | insertAuth auth =>
      -- the account is a new one, without a list
      intro h hh
      change h ∈ AuthDb.hashes { db with auths := db.auths.save auth } a at hh
      unfold AuthDb.hashes at hh
      dsimp only at hh
      rw [Table.find_save] at hh
      split at hh
      · have hlist : auth.refreshTokenHashes = none := hc
        simp [hlist] at hh
      · exact hh
    | saveAuth entity row =>
      have hnone : entity.refreshTokenHashes = none := Option.map_eq_none_iff.mp hc
      have hsame : AuthDb.hashes { db with auths := writeRow db.auths entity.id (entity.diff row).write } a =
          db.hashes a :=
        hashes_writeRow_same (entity.diff row).id_write
          (refreshTokenHashes_write (refreshTokenHashes_diff hnone row)) _
      exact fun h hh => hsame ▸ hh
    | updateAuth columns =>
      have hnone : columns.refreshTokenHashes = none := Option.map_eq_none_iff.mp hc
      have hsame : AuthDb.hashes { db with auths := writeRow db.auths columns.id columns.write } a =
          db.hashes a :=
        hashes_writeRow_same columns.id_write (refreshTokenHashes_write hnone) _
      exact fun h hh => hsame ▸ hh
    | removeHash authId hash =>
      intro h hh
      change h ∈ AuthDb.hashes (AuthCommand.effect (.removeHash authId hash) db) a at hh
      rw [hashes_removeHash] at hh
      split at hh
      · exact List.mem_of_mem_filter hh
      · exact hh
    | _ => exact List.Subset.refl _

/-- **An `UPDATE` of the list.** -/
theorem hashes_updateAuth {columns : AuthEntity} {l : List String}
    (h : columns.refreshTokenHashes = some (some l)) :
    (serve (.updateAuth columns) db).2.hashes a =
      if a = columns.id ∧ (db.auths.find columns.id).isSome then l else db.hashes a := by
  refine (hashes_writeRow (f := columns.write) (fun _ => rfl) columns.id).trans ?_
  by_cases ha : a = columns.id
  · subst ha
    cases hrow : db.auths.find columns.id with
    | none => simp [AuthDb.hashes, hrow]
    | some row => simp [AuthEntity.write, h]
  · simp [ha]

/-- An `UPDATE` of the list of an account that exists. -/
theorem hashes_replaced {columns : AuthEntity} {l : List String} (h : columns.refreshTokenHashes = some (some l))
    (hrow : (db.auths.find columns.id).isSome) :
    (serve (.updateAuth columns) db).2.hashes a = if a = columns.id then l else db.hashes a := by
  rw [hashes_updateAuth h]
  simp [hrow]

/-- An `UPDATE` that empties the list, of an account that exists or not. -/
theorem hashes_emptied {columns : AuthEntity} (h : columns.refreshTokenHashes = some (some [])) :
    (serve (.updateAuth columns) db).2.hashes a = if a = columns.id then [] else db.hashes a := by
  rw [hashes_updateAuth h]
  by_cases ha : a = columns.id
  · subst ha
    rw [if_pos rfl]
    split
    · rfl
    next hnone =>
      have hrow : db.auths.find columns.id = none := by simpa using hnone
      rw [AuthDb.hashes, hrow]
      rfl
  · rw [if_neg ha, if_neg fun hand => ha hand.1]

/-- A hash that is stored after an `UPDATE` of a list. -/
theorem mem_hashes_updateAuth {columns : AuthEntity} {l : List String} {hash : String}
    (h : columns.refreshTokenHashes = some (some l)) (hh : hash ∈ (serve (.updateAuth columns) db).2.hashes a) :
    a = columns.id ∧ hash ∈ l ∨ a ≠ columns.id ∧ hash ∈ db.hashes a := by
  rw [hashes_updateAuth h] at hh
  split at hh
  next hrow => exact .inl ⟨hrow.1, hh⟩
  next hnone =>
    refine .inr ⟨fun ha => hnone ⟨ha, ?_⟩, hh⟩
    -- an account that stores a hash exists
    rw [AuthDb.hashes, ha] at hh
    cases hrow : db.auths.find columns.id with
    | none => simp [hrow] at hh
    | some row => rfl

/-! ## Statements that leave tokens and sessions alone -/

/-- The statement writes neither a list nor a session. -/
def AuthCommand.Passive : AuthCommand → Prop
  | .removeHash _ _ | .insertSession _ | .revokeSessions _ | .saveSession _ => False
  | c => c.list = none

theorem AuthCommand.Passive.list (hc : c.Passive) : c.list = none := by
  cases c with
  | removeHash | insertSession | revokeSessions | saveSession => exact hc.elim
  | _ => exact hc

/-- The statement inserts an account. -/
def AuthCommand.inserts : AuthCommand → Bool
  | .insertAuth _ => true
  | _ => false

/-- The statements of the checks of a login: passive ones that insert no account. -/
def AuthCommand.Checking (c : AuthCommand) : Prop := c.Passive ∧ c.inserts = false

/-- The next reading of the clock. -/
def AuthDb.reading (db : AuthDb) : ℤ := db.clock + db.ticks.headD 0

/-- The tokens and the sessions are as they were, no account is gone, and the clock went on. -/
structure Untouched (db db' : AuthDb) : Prop where
  hashes : ∀ a, db'.hashes a = db.hashes a
  sessions : db'.sessions = db.sessions
  accounts : ∀ a, (db.auths.find a).isSome → (db'.auths.find a).isSome
  reading : db.reading ≤ db'.reading

theorem Untouched.refl (db : AuthDb) : Untouched db db := ⟨fun _ => rfl, rfl, fun _ h => h, le_rfl⟩

theorem Untouched.trans {db₁ db₂ db₃ : AuthDb} (h : Untouched db₁ db₂) (h' : Untouched db₂ db₃) :
    Untouched db₁ db₃ :=
  ⟨fun a => (h'.hashes a).trans (h.hashes a), h'.sessions.trans h.sessions, fun a ha => h'.accounts a (h.accounts a ha),
    h.reading.trans h'.reading⟩

theorem isSome_writeRow {f : Auth → Auth} (hf : ∀ row, (f row).id = row.id) {id : String}
    (h : (db.auths.find a).isSome) : ((writeRow db.auths id f).find a).isSome := by
  rw [find_writeRow hf]
  split
  next ha =>
    subst ha
    rwa [Option.isSome_map]
  · exact h

/-- An `UPDATE` of a row that keeps its list. -/
theorem untouched_writeRow {f : Auth → Auth} (hf : ∀ row, (f row).id = row.id)
    (hlist : ∀ row, (f row).refreshTokenHashes = row.refreshTokenHashes) (id : String) :
    Untouched db { db with auths := writeRow db.auths id f } :=
  ⟨fun _ => hashes_writeRow_same hf hlist id, rfl, fun _ => isSome_writeRow hf, le_rfl⟩

/-- **A passive statement leaves the tokens and the sessions alone.** -/
theorem untouched_serve (hc : c.Passive) : Untouched db (serve c db).2 := by
  unfold serve
  cases hrefusal : c.refusal db with
  | some message => exact Untouched.refl db
  | none =>
    cases c with
    | now =>
      refine ⟨fun _ => rfl, rfl, fun _ h => h, ?_⟩
      exact le_add_of_nonneg_right (Int.natCast_nonneg _)
    | insertAuth auth =>
      -- the INSERT was accepted, so the id was free
      have hnew : db.auths.find auth.id = none := by
        by_contra hsome
        have hfound := Option.isSome_iff_ne_none.mpr hsome
        simp [AuthCommand.refusal, hfound] at hrefusal
      have hlist : auth.refreshTokenHashes = none := hc
      refine ⟨fun a => ?_, rfl, fun a ha => ?_, le_rfl⟩
      · change AuthDb.hashes { db with auths := db.auths.save auth } a = db.hashes a
        unfold AuthDb.hashes
        dsimp only
        rw [Table.find_save]
        split
        next heq => simp [heq, hnew, hlist]
        · rfl
      · change ((db.auths.save auth).find a).isSome
        rw [Table.find_save]
        split
        · rfl
        · exact ha
    | saveAuth entity row =>
      -- a passive save has no hashes to write
      have hnone : entity.refreshTokenHashes = none := Option.map_eq_none_iff.mp hc
      exact untouched_writeRow (entity.diff row).id_write
        (refreshTokenHashes_write (refreshTokenHashes_diff hnone row)) _
    | updateAuth columns =>
      have hnone : columns.refreshTokenHashes = none := Option.map_eq_none_iff.mp hc
      exact untouched_writeRow columns.id_write (refreshTokenHashes_write hnone) _
    | removeHash | insertSession | revokeSessions | saveSession => exact hc.elim
    | insertUser | saveUserStatus | updateUserStatus => exact ⟨fun _ => rfl, rfl, fun _ h => h, le_rfl⟩
    | _ => exact Untouched.refl db

/-! ## The parts of a login -/

section Login

variable (config : AuthConfig)

/-- The checks of a login, once the account is found. -/
def loginChecks (auth : Auth) (dto : LoginDto) (ipAddress : Option String) : AuthTask AuthEntity := do
  if auth.status = .inactive then
    throw (.unauthorized "Account not yet activated. Please check your email.")
  else if auth.status = .suspended then
    throw (.forbidden "Account has been suspended. Please contact support.")
  else
    let entity ← checkLock auth
    let passwordValid ← statement (.comparePassword (config.compare dto.password auth.passwordHash))
    if ¬ passwordValid then
      handleFailedLogin config entity
      throw (.unauthorized "Invalid credentials")
    else
      checkTwoFactor config auth entity dto.code
      let now ← statement .now
      saveAuth (entity.succeeded now ipAddress)
      return entity

/-- **A login** checks the account, and opens a session. -/
theorem login_eq (dto : LoginDto) (ids : LoginIds) (ipAddress userAgent : Option String) :
    login config dto ids ipAddress userAgent = (statement (.findAuthByEmail dto.email) >>= fun auth =>
      match auth with
      | none => throw (.unauthorized "Invalid credentials")
      | some auth => loginChecks config auth dto ipAddress >>= fun entity =>
        openSession config auth entity dto ids ipAddress userAgent) := by
  refine bind_congr fun auth => ?_
  cases auth with
  | none => rfl
  | some auth =>
    unfold loginChecks
    dsimp only
    split
    · rfl
    split
    · rfl
    rw [bind_assoc]
    refine bind_congr fun entity => ?_
    rw [bind_assoc]
    refine bind_congr fun valid => ?_
    split
    · rw [bind_assoc]
      rfl
    · simp only [bind_assoc, pure_bind]

theorem checking_saveAuth {entity : AuthEntity} (h : entity.refreshTokenHashes = none) :
    (saveAuth entity).Within AuthCommand.Checking fun _ => True := by
  refine within_issue_bind ⟨rfl, rfl⟩ fun row => ?_
  cases row with
  | none => exact within_ret trivial
  | some row => exact within_issue ⟨by simp [AuthCommand.Passive, AuthCommand.list, h], rfl⟩

theorem checking_handleFailedLogin {entity : AuthEntity} (h : entity.refreshTokenHashes = none) :
    (handleFailedLogin config entity).Within AuthCommand.Checking fun _ => True := by
  unfold handleFailedLogin
  split
  · exact within_issue_bind ⟨rfl, rfl⟩ fun now => checking_saveAuth h
  · exact checking_saveAuth h

theorem checking_checkLock (auth : Auth) :
    (checkLock auth).Within AuthCommand.Checking fun entity => entity.refreshTokenHashes = none := by
  unfold checkLock
  split
  · split
    · exact within_ret rfl
    · refine within_issue_bind ⟨rfl, rfl⟩ fun now => ?_
      split
      · exact within_issue_bind ⟨rfl, rfl⟩ fun now => within_throw _
      · exact within_ret rfl
  · exact within_ret rfl

theorem checking_verify2FACode (auth : Auth) (code : String) :
    (verify2FACode config auth code).Within AuthCommand.Checking fun _ => True := by
  unfold verify2FACode
  split
  · exact within_issue_bind ⟨rfl, rfl⟩ fun now => within_ret trivial
  · split
    · exact within_issue_bind ⟨rfl, rfl⟩ fun now => within_ret trivial
    · exact within_ret trivial

theorem checking_checkTwoFactor {auth : Auth} {entity : AuthEntity} {code : Option String}
    (h : entity.refreshTokenHashes = none) :
    (checkTwoFactor config auth entity code).Within AuthCommand.Checking fun _ => True := by
  unfold checkTwoFactor
  split
  · split
    · exact within_throw _
    · refine within_bind (checking_verify2FACode config auth _) fun valid _ => ?_
      split
      · exact within_bind (checking_handleFailedLogin config h) fun _ _ => within_throw _
      · exact within_ret trivial
  · exact within_ret trivial

/-- **The checks of a login** touch neither tokens nor sessions, insert no account, and the entity
comes without the list. -/
theorem checking_loginChecks (auth : Auth) (dto : LoginDto) (ipAddress : Option String) :
    (loginChecks config auth dto ipAddress).Within AuthCommand.Checking
      fun entity => entity.refreshTokenHashes = none := by
  unfold loginChecks
  split
  · exact within_throw _
  split
  · exact within_throw _
  refine within_bind (checking_checkLock auth) fun entity hentity => ?_
  refine within_issue_bind ⟨rfl, rfl⟩ fun valid => ?_
  split
  · exact within_bind (checking_handleFailedLogin config hentity) fun _ _ => within_throw _
  refine within_bind (checking_checkTwoFactor config hentity) fun _ _ => ?_
  refine within_issue_bind ⟨rfl, rfl⟩ fun now => ?_
  have hsaved : (entity.succeeded now ipAddress).refreshTokenHashes = none := hentity
  exact within_bind (checking_saveAuth hsaved) fun _ _ => within_ret hentity

theorem passive_saveAuth {entity : AuthEntity} (h : entity.refreshTokenHashes = none) :
    (saveAuth entity).Within AuthCommand.Passive fun _ => True :=
  (checking_saveAuth h).mono (fun _ hc => hc.1) fun _ ha => ha

theorem passive_loginChecks (auth : Auth) (dto : LoginDto) (ipAddress : Option String) :
    (loginChecks config auth dto ipAddress).Within AuthCommand.Passive
      fun entity => entity.refreshTokenHashes = none :=
  (checking_loginChecks config auth dto ipAddress).mono (fun _ hc => hc.1) fun _ ha => ha

/-- The refresh token of a new pair carries the account and the generated identifier. -/
theorem passive_generateTokenPair (auth : Auth) (user : User) (sessionId : String) :
    (generateTokenPair config auth user sessionId).Within AuthCommand.Passive fun pair =>
      ∃ payload, pair.refreshToken = .signed payload ∧ payload.sub = auth.id ∧ payload.sessionId = sessionId :=
  within_issue_bind rfl fun _ => within_ret ⟨_, rfl, rfl, rfl⟩

end Login

end Identity
