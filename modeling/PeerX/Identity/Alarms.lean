import PeerX.Identity.Revocations

/-!
# Identity: the reuse alarm

A refresh treats a token whose hash is not stored as a stolen one. The list of an account never
holds more than one hash: a login loads the account without its list, and stores the hash of its own
token alone. A token that is alive, neither rotated nor logged out, keeps its place until the next
login to its account, and raises the alarm after that.

## Main results

* `no_alarm_of_stored`: a token whose hash is stored raises no alarm
* `guarded_step`: every call that meets the condition keeps the hashes of the tokens that are alive
* `alarm_justified`: no token that is alive raises the alarm
* `alarm_after_login`: a login that invalidates the token of another device
-/

namespace Identity

open Concurrency Relational

/-- The exception of a reused token. -/
def reuseDetected : AuthError := .unauthorized "Refresh token reuse detected. All sessions invalidated."

/-- A refresh with the token raises the alarm. -/
def RaisesAlarm (config : AuthConfig) (db : AuthDb) (payload : JwtPayload) : Prop :=
  ∃ sessionId, ((refreshTokens config (.signed payload) sessionId).eval serve db).1 = .error reuseDetected

variable {config : AuthConfig} {db db' : AuthDb} {w : AuthWorld} {payload : JwtPayload}

/-- **A token whose hash is stored raises no alarm.** -/
theorem no_alarm_of_stored (h : config.hashToken (.signed payload) ∈ db.hashes payload.sub) :
    ¬ RaisesAlarm config db payload := by
  rintro ⟨sessionId, halarm⟩
  -- every other outcome of the call is allowed, so its branches are followed one by one
  suffices hyields : (refreshTokens config (.signed payload) sessionId).Yields serve db
      fun o _ => o ≠ .error reuseDetected from hyields halarm
  refine yields_accepted_bind rfl ?_
  have hvalue : AuthCommand.value .now db = db.reading := rfl
  have heffect : AuthCommand.effect .now db = db.tick := rfl
  rw [hvalue, heffect]
  cases hverify : (TokenText.signed payload).verify db.reading with
  | none => exact yields_throw (by simp [reuseDetected])
  | some payload' =>
  obtain ⟨hsame, -⟩ := verify_eq_some.mp hverify
  obtain rfl := TokenText.signed.inj hsame
  dsimp only
  split
  · exact yields_throw (by simp [reuseDetected])
  refine yields_read_bind rfl rfl ?_
  cases hauth : AuthCommand.value (.findAuthById payload.sub) db.tick with
  | none => exact yields_throw (by simp [reuseDetected])
  | some auth =>
  have hrow : db.auths.find payload.sub = some auth := hauth
  have hstored : config.hashToken (.signed payload) ∈ auth.refreshTokenHashes.getD [] := by
    rw [AuthDb.hashes, hrow] at h
    exact h
  dsimp only
  -- the branch of the alarm is not taken, as the hash is stored
  rw [if_neg (not_not.mpr hstored)]
  refine yields_read_bind rfl rfl ?_
  cases AuthCommand.value (.findUserByAuthId auth.id) db.tick with
  | none => exact yields_throw (by simp [reuseDetected])
  | some user =>
  have hpair : (generateTokenPair config auth user sessionId).Yields serve db.tick fun o _ => ∃ pair, o = .ok pair :=
    yields_accepted_bind rfl (yields_ret ⟨_, rfl⟩)
  refine yields_bind hpair (fun pair db' _ => ?_) ?_
  · exact yields_accepted_bind rfl (yields_ret (by simp))
  · rintro e db' ⟨pair, h⟩
    cases h

/-- The token is alive: it is not rotated, its session is not revoked, and it has not
expired. -/
def Alive (w : AuthWorld) (token : IssuedToken) : Prop :=
  token.rotated = false ∧ ¬ Revoked w.db token.sessionId ∧ w.db.reading / 1000 < token.payload.exp

instance (w : AuthWorld) : DecidablePred (Alive w) := fun _ => inferInstanceAs (Decidable (_ ∧ _))

instance (config : AuthConfig) (auth : Auth) (code : String) (now : ℤ) : Decidable (auth.CodePasses config code now) :=
  inferInstanceAs (Decidable (_ ∨ _))

instance (config : AuthConfig) (auth : Auth) (db : AuthDb) (dto : LoginDto) : Decidable (auth.Admits config db dto) :=
  have : Decidable (auth.LockedAt db.reading) := inferInstanceAs (Decidable (_ ∧ _))
  inferInstanceAs (Decidable (_ ∧ _))

/-- A login that passes its checks finds no token of the account that is alive. -/
def FindsNoneAlive (config : AuthConfig) (w : AuthWorld) : AuthCall → Prop
  | .login dto _ _ _ => ∀ auth ∈ w.db.account dto.email, auth.Admits config w.db dto →
    ∀ token ∈ w.issued, token.payload.sub = auth.id → ¬ Alive w token
  | _ => True

instance (config : AuthConfig) (w : AuthWorld) : DecidablePred (FindsNoneAlive config w)
  | .login dto _ _ _ => inferInstanceAs (Decidable (∀ auth ∈ w.db.account dto.email, auth.Admits config w.db dto →
    ∀ token ∈ w.issued, token.payload.sub = auth.id → ¬ Alive w token))
  | .register .. | .activateAccount .. | .refreshTokens .. | .logout .. | .forgotPassword .. | .resetPassword ..
  | .changePassword .. | .revokeSession .. | .revokeAllSessions .. | .updateStatus .. =>
    inferInstanceAs (Decidable True)

/-- The stored hashes: at most one for each account, and those of the tokens that are alive. -/
structure Guarded (config : AuthConfig) (w : AuthWorld) : Prop where
  single : ∀ a, (w.db.hashes a).length ≤ 1
  alive : ∀ token ∈ w.issued, Alive w token →
    config.hashToken (.signed token.payload) ∈ w.db.hashes token.payload.sub

/-- A session that was revoked stays so. -/
def StaysRevoked (db db' : AuthDb) : Prop := ∀ sessionId, (db.sessions.find sessionId).isSome →
  Revoked db sessionId → Revoked db' sessionId

theorem staysRevoked_of_account {authId : String}
    (h : db'.sessions = mapRows db.sessions (Session.revokeOf authId)) : StaysRevoked db db' := by
  rintro sessionId - ⟨row, hrow, hrevoked⟩
  refine ⟨row.revokeOf authId, ?_, ?_⟩
  · rw [h, find_revokeOf, hrow]
    rfl
  · unfold Session.revokeOf
    split
    · rfl
    · exact hrevoked

theorem staysRevoked_of_save {session : Session} (h : db'.sessions = db.sessions.save session)
    (hsession : session.revoked = true ∨ db.sessions.find session.id = none) : StaysRevoked db db' := by
  rintro sessionId hsome ⟨row, hrow, hrevoked⟩
  by_cases hid : sessionId = session.id
  · rcases hsession with hsession | hnone
    · refine ⟨session, ?_, hsession⟩
      rw [h, hid]
      exact Table.find_save_self _ _
    · rw [hid, hnone] at hsome
      cases hsome
  · refine ⟨row, ?_, hrevoked⟩
    rw [h, Table.find_save_of_ne _ hid]
    exact hrow

theorem revoked_revokeOf {authId sessionId : String} {row : Session}
    (h : db'.sessions = mapRows db.sessions (Session.revokeOf authId)) (hrow : db.sessions.find sessionId = some row)
    (hauth : row.authId = authId) : Revoked db' sessionId := by
  refine ⟨row.revokeOf authId, ?_, ?_⟩
  · rw [h, find_revokeOf, hrow]
    rfl
  · rw [Session.revokeOf, if_pos hauth]

theorem Recorded.alive_of_later (h : Recorded config w) {token : IssuedToken} {issued : List IssuedToken}
    (ht : token ∈ w.issued) (hsessions : StaysRevoked w.db db') (hreading : w.db.reading ≤ db'.reading)
    (halive : Alive ⟨db', issued⟩ token) : Alive w token := by
  obtain ⟨hrotated, hrevoked, hexp⟩ := halive
  obtain ⟨row, hrow, -⟩ := h.session token ht
  refine ⟨hrotated, fun hbefore => hrevoked (hsessions _ ?_ hbefore), ?_⟩
  · rw [hrow]
    rfl
  · exact (Int.ediv_le_ediv (by decide) hreading).trans_lt hexp

/-- A call that issues no token, and keeps the hash of every token that stays alive. -/
theorem Guarded.of_subset (h : Guarded config w) (hsingle : ∀ a, (db'.hashes a).length ≤ 1)
    (hkept : ∀ token ∈ w.issued, Alive ⟨db', w.issued⟩ token → Alive w token ∧
      (config.hashToken (.signed token.payload) ∈ w.db.hashes token.payload.sub →
        config.hashToken (.signed token.payload) ∈ db'.hashes token.payload.sub)) :
    Guarded config ⟨db', w.issued⟩ := by
  refine ⟨hsingle, fun token ht halive => ?_⟩
  obtain ⟨hbefore, hhash⟩ := hkept token ht halive
  exact hhash (h.alive token ht hbefore)

/-- A call that issues a token, and leaves its hash alone on the account. -/
theorem Guarded.of_issued (h : Guarded config w) {new : IssuedToken} {issued : List IssuedToken} {authId : String}
    (hsub : new.payload.sub = authId)
    (hhashes : ∀ a, db'.hashes a = if a = authId then [config.hashToken (.signed new.payload)] else w.db.hashes a)
    (hissued : ∀ token ∈ issued, Alive ⟨db', new :: issued⟩ token →
      token.payload.sub ≠ authId ∧ config.hashToken (.signed token.payload) ∈ w.db.hashes token.payload.sub) :
    Guarded config ⟨db', new :: issued⟩ := by
  refine ⟨fun a => ?_, fun token ht halive => ?_⟩
  · dsimp only
    rw [hhashes]
    split
    · exact le_rfl
    · exact h.single a
  · dsimp only
    rw [hhashes]
    rcases List.mem_cons.mp ht with rfl | ht
    · rw [if_pos hsub]
      exact List.mem_singleton_self _
    · obtain ⟨hother, hstored⟩ := hissued token ht halive
      rw [if_neg hother]
      exact hstored

/-- A token that is alive after the sessions of an account were revoked is not one of that
account. -/
theorem Recorded.sub_ne_of_alive (h : Recorded config w) {token : IssuedToken} {authId : String} (ht : token ∈ w.issued)
    (hsessions : db'.sessions = mapRows w.db.sessions (Session.revokeOf authId))
    (halive : Alive ⟨db', w.issued⟩ token) : token.payload.sub ≠ authId := by
  intro hsub
  obtain ⟨row, hrow, hauth⟩ := h.session token ht
  exact halive.2.1 (revoked_revokeOf hsessions hrow (hauth.trans hsub))

/-- A list that holds one hash, after that hash was replaced by another one. -/
theorem only_hash_replaced {hash new : String} {hashes : List String} (hsingle : hashes.length ≤ 1)
    (hstored : hash ∈ hashes) : hashes = [hash] ∧ lastTen (hashes.filter (· ≠ hash) ++ [new]) = [new] := by
  obtain ⟨only, rfl⟩ := List.length_eq_one_iff.mp (le_antisymm hsingle (List.length_pos_of_mem hstored))
  obtain rfl := List.mem_singleton.mp hstored
  exact ⟨rfl, by simp [lastTen]⟩

/-- **A call keeps the hashes of the tokens that are alive.** -/
theorem guarded_step (hinj : Function.Injective config.hashToken) (w : AuthWorld) (call : AuthCall)
    (h : Recorded config w ∧ Guarded config w) (hcall : FreshIds w call ∧ FindsNoneAlive config w call) :
    Recorded config (authStep config w call) ∧ Guarded config (authStep config w call) := by
  refine ⟨recorded_step hinj w call h.1 hcall.1, ?_⟩
  obtain ⟨hrecorded, hguarded⟩ := h
  obtain ⟨hfresh, hnone⟩ := hcall
  have hdoes := does_program config w.db call
  unfold authStep
  generalize ((call.program config).eval serve w.db).1 = reply at hdoes ⊢
  generalize ((call.program config).eval serve w.db).2 = db' at hdoes ⊢
  cases hdoes with
  | nothing hreply huntouched =>
    rw [record_tokenless hreply]
    refine hguarded.of_subset (fun a => huntouched.hashes a ▸ hguarded.single a) fun token ht halive => ?_
    refine ⟨hrecorded.alive_of_later ht (fun sessionId _ hrevoked => ?_) huntouched.reading halive, fun hh => ?_⟩
    · rwa [Revoked, huntouched.sessions]
    · rwa [huntouched.hashes]
  | @opens dto ids ipAddress userAgent auth payload accessToken session _ hauth hadmits hsub htoken hsession hnew
      hhashes hsessions hreading =>
    have hstays : StaysRevoked w.db db' := staysRevoked_of_save hsessions (.inr (hsession.1 ▸ hnew))
    refine hguarded.of_issued hsub hhashes fun token ht halive => ?_
    -- the login has found no token of the account that is alive
    have hbefore := hrecorded.alive_of_later ht hstays hreading halive
    exact ⟨fun hother => hnone auth hauth hadmits token ht hother hbefore, hguarded.alive token ht hbefore⟩
  | @rotates payload new accessToken tokenId _ hvalid hstored hsub htoken hhashes hsessions hreading =>
    have hstays : StaysRevoked w.db db' := fun _ _ hrevoked => by rwa [Revoked, hsessions]
    obtain ⟨hlist, hreplaced⟩ := only_hash_replaced (hguarded.single payload.sub) hstored
    rw [hreplaced] at hhashes
    refine hguarded.of_issued hsub hhashes fun token ht halive => ?_
    obtain ⟨old, hold, rfl⟩ := List.mem_map.mp ht
    have hdistinct : old.payload ≠ payload := by
      rintro rfl
      have hrotated := halive.1
      simp [IssuedToken.rotate] at hrotated
    rw [IssuedToken.rotate, if_neg hdistinct] at halive ⊢
    have hbefore := hguarded.alive old hold (hrecorded.alive_of_later hold hstays hreading halive)
    refine ⟨fun hsame => ?_, hbefore⟩
    -- the account had one hash, that of the token which is exchanged
    rw [hsame, hlist] at hbefore
    exact hdistinct (TokenText.signed.inj (hinj (List.mem_singleton.mp hbefore)))
  | @ends call reply authId _ hreply hhashes hsessions hreading =>
    rw [record_tokenless hreply]
    refine hguarded.of_subset (fun a => ?_) fun token ht halive => ?_
    · rw [hhashes]
      split
      · exact Nat.zero_le _
      · exact hguarded.single a
    · refine ⟨hrecorded.alive_of_later ht (staysRevoked_of_account hsessions) hreading halive, fun hh => ?_⟩
      rwa [hhashes, if_neg (hrecorded.sub_ne_of_alive ht hsessions halive)]
  | @logsOut authId refreshToken _ hremoved hhashes hsessions hreading =>
    refine hguarded.of_subset (fun a => ?_) fun token ht halive => ?_
    · rw [hhashes]
      split
      · exact (List.length_filter_le _ _).trans (hguarded.single a)
      · exact hguarded.single a
    · refine ⟨hrecorded.alive_of_later ht (staysRevoked_of_account hsessions) hreading halive, fun hh => ?_⟩
      rwa [hhashes, if_neg (hrecorded.sub_ne_of_alive ht hsessions halive)]
  | @revokes authId sessionId session _ hsession hauth hhashes hsessions hreading =>
    refine hguarded.of_subset (fun a => hhashes a ▸ hguarded.single a) fun token ht halive => ?_
    refine ⟨hrecorded.alive_of_later ht (staysRevoked_of_save hsessions (.inl rfl)) hreading halive, fun hh => ?_⟩
    rwa [hhashes]

/-- **The alarm is raised for no token that is alive**: in every state of every run whose logins
find no such token of their account. -/
theorem alarm_justified (hinj : Function.Injective config.hashToken) {db : AuthDb} (hhashes : ∀ a, db.hashes a = [])
    {calls : List AuthCall} (hfresh : Along (authStep config) FreshIds ⟨db, []⟩ calls)
    (hlogins : Along (authStep config) (FindsNoneAlive config) ⟨db, []⟩ calls) :
    Throughout (authStep config) (fun w => ∀ token ∈ w.issued, RaisesAlarm config w.db token.payload →
      ¬ Alive w token) ⟨db, []⟩ calls := by
  have hguarded : Guarded config ⟨db, []⟩ :=
    ⟨fun a => (congrArg List.length (hhashes a)).trans_le (Nat.zero_le 1), fun token ht => by cases ht⟩
  refine (throughout_of_invariant (guarded_step hinj) ⟨recorded_start hhashes, hguarded⟩ (hfresh.and hlogins)).mono ?_
  exact fun w h token ht halarm halive => no_alarm_of_stored (h.2.alive token ht halive) halarm

/-- Alice logs in, refreshes her token, and logs out before she logs in on another device. -/
def logsOutBetween : List AuthCall :=
  [aliceLogin "phone", .refreshTokens (.signed (aliceRefreshToken "phone")) "phone'", .logout "a" none,
    aliceLogin "laptop"]

/-- The token of the other device raises no alarm. -/
theorem alarm_justified_logsOut :
    Throughout (authStep spelledOut) (fun w => ∀ token ∈ w.issued, RaisesAlarm spelledOut w.db token.payload →
      ¬ Alive w token) ⟨aliceStart, []⟩ logsOutBetween ∧
    (run (authStep spelledOut) ⟨aliceStart, []⟩ logsOutBetween).issued.map
      (fun token => decide (Alive (run (authStep spelledOut) ⟨aliceStart, []⟩ logsOutBetween) token)) =
        [true, false, false] :=
  ⟨alarm_justified digest_injective hashes_aliceStart (by decide +kernel) (by decide +kernel), by decide +kernel⟩

/-- **A login invalidates the token of another device**: Alice logs in on her phone and then on her
laptop, and the next refresh of the phone raises the alarm. -/
theorem alarm_after_login :
    Alive (run (authStep spelledOut) ⟨aliceStart, []⟩ [aliceLogin "phone", aliceLogin "laptop"])
      ⟨aliceRefreshToken "phone", "phone", false⟩ ∧
    ⟨aliceRefreshToken "phone", "phone", false⟩ ∈
      (run (authStep spelledOut) ⟨aliceStart, []⟩ [aliceLogin "phone", aliceLogin "laptop"]).issued ∧
    RaisesAlarm spelledOut
      (run (authStep spelledOut) ⟨aliceStart, []⟩ [aliceLogin "phone", aliceLogin "laptop"]).db
      (aliceRefreshToken "phone") := by
  refine ⟨by decide +kernel, by decide +kernel, "next", ?_⟩
  decide +kernel

end Identity
