import PeerX.Identity.Issued
import PeerX.Identity.Digest

/-!
# Identity: revoked sessions

A refresh looks for the hash of its token on the account, and not at the session. A session ends for
good when its hashes leave the list together with the revocation of the session: a password that is
changed empties the list, and so do the revocation of all sessions and the alarm. A logout takes at
most one hash out of the list and revokes every session; the revocation of one session takes none.
The tokens that they leave behind can still be exchanged.

## Main results

* `dead_step`: every call that meets the condition leaves no token of a revoked session behind
* `revoked_rejected`: no token of a revoked session is exchanged
* `revoked_exchanged`: a token that is exchanged after its session was revoked
-/

namespace Identity

open Concurrency Relational

/-- The session is revoked. -/
def Revoked (db : AuthDb) (sessionId : String) : Prop := ∃ row ∈ db.sessions.find sessionId, row.revoked = true

/-- The token can be exchanged: its hash is stored, and it has not expired. -/
def Exchangeable (config : AuthConfig) (db : AuthDb) (payload : JwtPayload) : Prop :=
  config.hashToken (.signed payload) ∈ db.hashes payload.sub ∧ db.reading / 1000 < payload.exp

/-- The token is rejected, by every refresh. -/
def Rejected (config : AuthConfig) (db : AuthDb) (payload : JwtPayload) : Prop :=
  ∀ sessionId, ∃ e, ((refreshTokens config (.signed payload) sessionId).eval serve db).1 = .error e

instance (db : AuthDb) (sessionId : String) : Decidable (Revoked db sessionId) :=
  inferInstanceAs (Decidable (∃ row ∈ db.sessions.find sessionId, _))

instance (config : AuthConfig) (db : AuthDb) (payload : JwtPayload) : Decidable (Exchangeable config db payload) :=
  inferInstanceAs (Decidable (_ ∧ _))

variable {config : AuthConfig} {db db' : AuthDb} {w : AuthWorld} {payload : JwtPayload}

/-- A token that cannot be exchanged is rejected. -/
theorem rejected_of_not_exchangeable (h : ¬ Exchangeable config db payload) : Rejected config db payload := by
  intro sessionId
  have hdoes := does_program config db (.refreshTokens (.signed payload) sessionId)
  rw [AuthCall.program, Prog.eval_map] at hdoes
  generalize (refreshTokens config (.signed payload) sessionId).eval serve db = run at hdoes ⊢
  obtain ⟨reply, db'⟩ := run
  cases reply with
  | error e => exact ⟨e, rfl⟩
  | ok pair =>
    dsimp only [Except.map] at hdoes
    cases hdoes with
    | nothing hreply | ends hreply => exact absurd rfl (hreply pair)
    | rotates hvalid hstored => exact absurd ⟨hstored, hvalid⟩ h

theorem revoked_of_opened {session : Session} {sessionId : String} (hsessions : db'.sessions = db.sessions.save session)
    (hlive : session.revoked = false) (h : Revoked db' sessionId) : sessionId ≠ session.id ∧ Revoked db sessionId := by
  obtain ⟨row, hrow, hrevoked⟩ := h
  rw [hsessions, Table.find_save] at hrow
  split at hrow
  · obtain rfl := Option.some.inj hrow
    rw [hlive] at hrevoked
    cases hrevoked
  next hne => exact ⟨hne, row, hrow, hrevoked⟩

theorem revoked_of_account {authId sessionId : String}
    (hsessions : db'.sessions = mapRows db.sessions (Session.revokeOf authId)) (h : Revoked db' sessionId) :
    Revoked db sessionId ∨ ∃ row ∈ db.sessions.find sessionId, row.authId = authId := by
  obtain ⟨row, hrow, hrevoked⟩ := h
  rw [hsessions, find_revokeOf] at hrow
  obtain ⟨old, hold, rfl⟩ := Option.map_eq_some_iff.mp hrow
  by_cases hauth : old.authId = authId
  · exact .inr ⟨old, hold, hauth⟩
  · rw [Session.revokeOf, if_neg hauth] at hrevoked
    exact .inl ⟨old, hold, hrevoked⟩

theorem revoked_of_one {session : Session} {sessionId : String}
    (hsessions : db'.sessions = db.sessions.save { session with revoked := true }) (h : Revoked db' sessionId) :
    sessionId = session.id ∨ Revoked db sessionId := by
  obtain ⟨row, hrow, hrevoked⟩ := h
  rw [hsessions, Table.find_save] at hrow
  split at hrow
  next hid => exact .inl hid
  · exact .inr ⟨row, hrow, hrevoked⟩

theorem exchangeable_of_later (hreading : db.reading ≤ db'.reading)
    (hhashes : config.hashToken (.signed payload) ∈ db'.hashes payload.sub →
      config.hashToken (.signed payload) ∈ db.hashes payload.sub)
    (h : Exchangeable config db' payload) : Exchangeable config db payload :=
  ⟨hhashes h.1, (Int.ediv_le_ediv (by decide) hreading).trans_lt h.2⟩

/-- No token is left behind: a logout that goes through finds no token of the account that can
be exchanged but the one that it removes, and a session that is revoked has no token that can be. -/
def LeavesNone (config : AuthConfig) (w : AuthWorld) : AuthCall → Prop
  | .logout authId refreshToken => removedHash config refreshToken = none ∨ w.db.arrayRemove = true →
    ∀ token ∈ w.issued, token.payload.sub = authId → Exchangeable config w.db token.payload →
      removedHash config refreshToken = some (config.hashToken (.signed token.payload))
  | .revokeSession authId sessionId => (∃ session ∈ w.db.sessions.find sessionId, session.authId = authId) →
    ∀ token ∈ w.issued, token.sessionId = sessionId → ¬ Exchangeable config w.db token.payload
  | _ => True

instance (config : AuthConfig) (w : AuthWorld) : DecidablePred (LeavesNone config w) := fun call => by
  unfold LeavesNone
  cases call <;> infer_instance

/-- The tokens of revoked sessions cannot be exchanged. -/
def Dead (config : AuthConfig) (w : AuthWorld) : Prop :=
  ∀ token ∈ w.issued, Revoked w.db token.sessionId → ¬ Exchangeable config w.db token.payload

/-- The session of a token is revoked with the sessions of an account: it was revoked, or the token
is of the account. -/
theorem Recorded.revoked_or_sub_eq (h : Recorded config w) {token : IssuedToken} {authId : String}
    (ht : token ∈ w.issued) (hsessions : db'.sessions = mapRows w.db.sessions (Session.revokeOf authId))
    (hrevoked : Revoked db' token.sessionId) : Revoked w.db token.sessionId ∨ token.payload.sub = authId := by
  rcases revoked_of_account hsessions hrevoked with hrevoked | ⟨row, hrow, hauth⟩
  · exact .inl hrevoked
  · obtain ⟨row', hrow', hauth'⟩ := h.session token ht
    obtain rfl : row = row' := Option.some.inj (hrow.symm.trans hrow')
    exact .inr (hauth'.symm.trans hauth)

/-- The hash of a new token is the hash of no token before it. -/
theorem hash_ne_of_fresh (hinj : Function.Injective config.hashToken) {new old : JwtPayload} {tokenId : String}
    (htoken : new.sessionId = tokenId) (hfresh : some tokenId ≠ some old.sessionId) :
    config.hashToken (.signed old) ≠ config.hashToken (.signed new) := by
  intro hsame
  obtain rfl : old = new := TokenText.signed.inj (hinj hsame)
  exact hfresh (congrArg some htoken.symm)

/-- **A call leaves no token of a revoked session behind.** -/
theorem dead_step (hinj : Function.Injective config.hashToken) (w : AuthWorld) (call : AuthCall)
    (h : Recorded config w ∧ Dead config w) (hcall : FreshIds w call ∧ LeavesNone config w call) :
    Recorded config (authStep config w call) ∧ Dead config (authStep config w call) := by
  refine ⟨recorded_step hinj w call h.1 hcall.1, ?_⟩
  obtain ⟨hrecorded, hdead⟩ := h
  obtain ⟨hfresh, hleaves⟩ := hcall
  have hdoes := does_program config w.db call
  unfold authStep
  generalize ((call.program config).eval serve w.db).1 = reply at hdoes ⊢
  generalize ((call.program config).eval serve w.db).2 = db' at hdoes ⊢
  cases hdoes with
  | nothing hreply huntouched =>
    rw [record_tokenless hreply]
    intro token ht hrevoked hexchangeable
    refine hdead token ht ?_ (exchangeable_of_later huntouched.reading (fun hh => huntouched.hashes _ ▸ hh) hexchangeable)
    rwa [Revoked, ← huntouched.sessions]
  | @opens dto ids ipAddress userAgent auth payload accessToken session _ hauth hadmits hsub htoken hsession hnew
      hhashes hsessions hreading =>
    obtain ⟨hid, -, hlive⟩ := hsession
    intro token ht hrevoked hexchangeable
    obtain ⟨hne, hrevoked⟩ := revoked_of_opened hsessions hlive hrevoked
    rcases List.mem_cons.mp ht with rfl | ht
    · exact hne hid.symm
    · refine hdead token ht hrevoked (exchangeable_of_later hreading (fun hh => ?_) hexchangeable)
      rw [hhashes] at hh
      split at hh
      · exact absurd (List.mem_singleton.mp hh) (hash_ne_of_fresh hinj htoken (hfresh token ht))
      · exact hh
  | @rotates payload new accessToken tokenId _ hvalid hstored hsub htoken hhashes hsessions hreading =>
    intro token ht hrevoked hexchangeable
    rw [Revoked, hsessions] at hrevoked
    rcases List.mem_cons.mp ht with rfl | ht
    · -- a session with a token that is exchanged is not revoked
      obtain ⟨old, hold, rfl, -⟩ := hrecorded.token_of_stored hinj hstored
      rw [hrecorded.sessionOf_eq hold] at hrevoked
      exact hdead old hold hrevoked ⟨hstored, hvalid⟩
    · obtain ⟨old, hold, rfl⟩ := List.mem_map.mp ht
      rw [sessionId_rotate] at hrevoked
      rw [payload_rotate] at hexchangeable
      refine hdead old hold hrevoked (exchangeable_of_later hreading (fun hh => ?_) hexchangeable)
      rw [hhashes] at hh
      split at hh
      next ha =>
        rcases mem_lastTen_filter hh with hkept | hnew
        · exact ha ▸ hkept
        · exact absurd hnew (hash_ne_of_fresh hinj htoken (hfresh old hold))
      · exact hh
  | @ends call reply authId _ hreply hhashes hsessions hreading =>
    rw [record_tokenless hreply]
    intro token ht hrevoked hexchangeable
    -- no hash of the account is left
    have hother : token.payload.sub ≠ authId := by
      rintro rfl
      have hstored := hexchangeable.1
      dsimp only at hstored
      rw [hhashes, if_pos rfl] at hstored
      cases hstored
    have hbefore : Revoked w.db token.sessionId :=
      (hrecorded.revoked_or_sub_eq ht hsessions hrevoked).resolve_right hother
    refine hdead token ht hbefore (exchangeable_of_later hreading (fun hh => ?_) hexchangeable)
    rwa [hhashes, if_neg hother] at hh
  | @logsOut authId refreshToken _ hremoved hhashes hsessions hreading =>
    intro token ht hrevoked hexchangeable
    have hbefore : Exchangeable config w.db token.payload := by
      refine exchangeable_of_later hreading (fun hh => ?_) hexchangeable
      rw [hhashes] at hh
      split at hh
      · exact List.mem_of_mem_filter hh
      · exact hh
    rcases hrecorded.revoked_or_sub_eq ht hsessions hrevoked with hrevoked | hsub
    · exact hdead token ht hrevoked hbefore
    · -- the hash of the token is the one that is removed
      have hhash := hleaves hremoved token ht hsub hbefore
      have hstored := hexchangeable.1
      dsimp only at hstored
      rw [hhashes, if_pos hsub] at hstored
      exact of_decide_eq_true (List.mem_filter.mp hstored).2 hhash
  | @revokes authId sessionId session _ hsession hauth hhashes hsessions hreading =>
    intro token ht hrevoked hexchangeable
    have hbefore : Exchangeable config w.db token.payload :=
      exchangeable_of_later hreading (fun hh => hhashes _ ▸ hh) hexchangeable
    rcases revoked_of_one hsessions hrevoked with hid | hrevoked
    · exact hleaves ⟨session, hsession, hauth⟩ token ht (hid.trans (Table.key_of_find hsession)) hbefore
    · exact hdead token ht hrevoked hbefore

/-- **No token of a revoked session is exchanged**: in every state of every run whose logouts and
revocations leave no token behind, each refresh of an issued token whose session is revoked is
rejected. -/
theorem revoked_rejected (hinj : Function.Injective config.hashToken) {db : AuthDb}
    (hhashes : ∀ a, db.hashes a = []) {calls : List AuthCall}
    (hfresh : Along (authStep config) FreshIds ⟨db, []⟩ calls)
    (hleaves : Along (authStep config) (LeavesNone config) ⟨db, []⟩ calls) :
    Throughout (authStep config) (fun w => ∀ token ∈ w.issued, Revoked w.db token.sessionId →
      Rejected config w.db token.payload) ⟨db, []⟩ calls := by
  have hdead : Dead config ⟨db, []⟩ := fun token ht => by cases ht
  refine (throughout_of_invariant (dead_step hinj) ⟨recorded_start hhashes, hdead⟩ (hfresh.and hleaves)).mono ?_
  exact fun w h token ht hrevoked => rejected_of_not_exchangeable (h.2 token ht hrevoked)

/-- Alice's login, from a device. -/
def aliceLogin (device : String) : AuthCall :=
  .login ⟨"alice@peerx.io", "secret", none, some device⟩ ⟨device, device, device⟩ none none

/-- Alice logs in, refreshes her token, and logs out with the new one, which the column refuses;
then she logs in on two devices, and ends all sessions. -/
def logsOutWithToken : List AuthCall :=
  [aliceLogin "phone", .refreshTokens (.signed (aliceRefreshToken "phone")) "phone'",
    .logout "a" (some (.signed (aliceRefreshToken "phone'"))), aliceLogin "laptop", aliceLogin "tablet",
    .revokeAllSessions "a"]

/-- Her tokens are rejected once their sessions are revoked. -/
theorem revoked_rejected_logsOut :
    Throughout (authStep spelledOut) (fun w => ∀ token ∈ w.issued, Revoked w.db token.sessionId →
      Rejected spelledOut w.db token.payload) ⟨aliceStart, []⟩ logsOutWithToken ∧
    (run (authStep spelledOut) ⟨aliceStart, []⟩ logsOutWithToken).issued.length = 4 ∧
    ∀ token ∈ (run (authStep spelledOut) ⟨aliceStart, []⟩ logsOutWithToken).issued,
      Revoked (run (authStep spelledOut) ⟨aliceStart, []⟩ logsOutWithToken).db token.sessionId :=
  ⟨revoked_rejected digest_injective hashes_aliceStart (by decide +kernel) (by decide +kernel), by decide +kernel,
    by decide +kernel⟩

/-- The token of Alice's phone is exchanged after a call that revokes its session. -/
def ExchangedAfter (call : AuthCall) : Prop :=
  (run (authStep spelledOut) ⟨aliceStart, []⟩ [aliceLogin "phone", call]).issued =
      [⟨aliceRefreshToken "phone", "phone", false⟩] ∧
    Revoked (run (authStep spelledOut) ⟨aliceStart, []⟩ [aliceLogin "phone", call]).db "phone" ∧
    ((refreshTokens spelledOut (.signed (aliceRefreshToken "phone")) "next").eval serve
      (run (authStep spelledOut) ⟨aliceStart, []⟩ [aliceLogin "phone", call]).db).1 = .ok (alicePair "next")

/-- **A token is exchanged after its session was revoked**: by a logout without a token, or by the
revocation of the session. -/
theorem revoked_exchanged :
    ExchangedAfter (.logout "a" none) ∧ ExchangedAfter (.revokeSession "a" "phone") := by
  unfold ExchangedAfter
  decide +kernel

end Identity
