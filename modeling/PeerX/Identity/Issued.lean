import PeerX.Identity.Outcomes
import PeerX.Foundations.Runs

/-!
# Identity: the issued tokens

The service keeps the hashes of its refresh tokens on the account, and does not record the session
of a token. A ledger of the calls does: a login issues the first token of its session, and a refresh
issues the next one. Every stored hash is the one of an issued token of the account, and the session
of an issued token is one of its account.
-/

namespace Identity

open Concurrency Relational

/-- An issued refresh token, with the session that it belongs to. -/
structure IssuedToken where
  payload : JwtPayload
  sessionId : String
  rotated : Bool
deriving DecidableEq

/-- The token, rotated when its payload is the one that is exchanged. -/
def IssuedToken.rotate (old : JwtPayload) (token : IssuedToken) : IssuedToken :=
  if token.payload = old then { token with rotated := true } else token

/-- The tables, and the issued tokens. -/
structure AuthWorld where
  db : AuthDb
  issued : List IssuedToken := []

/-- The session of a token. -/
def AuthWorld.sessionOf (w : AuthWorld) (payload : JwtPayload) : String :=
  ((w.issued.find? fun token => token.payload = payload).map (·.sessionId)).getD ""

/-- The ledger after a call. -/
def AuthWorld.record (w : AuthWorld) : AuthCall → Except AuthError AuthReply → List IssuedToken
  | .login _ ids _ _, .ok (.tokens ⟨_, .signed payload⟩) => ⟨payload, ids.sessionId, false⟩ :: w.issued
  | .refreshTokens (.signed old) _, .ok (.tokens ⟨_, .signed payload⟩) =>
    ⟨payload, w.sessionOf old, false⟩ :: w.issued.map (·.rotate old)
  | _, _ => w.issued

/-- A call that runs alone, with its record. -/
def authStep (config : AuthConfig) (w : AuthWorld) (call : AuthCall) : AuthWorld :=
  ⟨((call.program config).eval serve w.db).2, w.record call ((call.program config).eval serve w.db).1⟩

/-- The identifier in the tokens that a call issues. -/
def AuthCall.tokenId : AuthCall → Option String
  | .login _ ids _ _ => some ids.tokenId
  | .refreshTokens _ sessionId => some sessionId
  | _ => none

/-- The generated identifier is new: no issued token carries it. -/
def FreshIds (w : AuthWorld) (call : AuthCall) : Prop :=
  ∀ token ∈ w.issued, call.tokenId ≠ some token.payload.sessionId

instance (w : AuthWorld) (call : AuthCall) : Decidable (FreshIds w call) :=
  inferInstanceAs (Decidable (∀ token ∈ w.issued, _))

theorem record_tokenless {w : AuthWorld} {call : AuthCall} {reply : Except AuthError AuthReply}
    (h : Tokenless reply) : w.record call reply = w.issued := by
  unfold AuthWorld.record
  split
  · exact absurd rfl (h _)
  · exact absurd rfl (h _)
  · rfl

/-- The ledger is right: a stored hash is the one of an issued token of its account, the session
of an issued token is one of its account, and the tokens are distinct. -/
structure Recorded (config : AuthConfig) (w : AuthWorld) : Prop where
  stored : ∀ a hash, hash ∈ w.db.hashes a →
    ∃ token ∈ w.issued, hash = config.hashToken (.signed token.payload) ∧ token.payload.sub = a
  session : ∀ token ∈ w.issued, ∃ row ∈ w.db.sessions.find token.sessionId, row.authId = token.payload.sub
  nodup : (w.issued.map (·.payload.sessionId)).Nodup

variable {config : AuthConfig} {w : AuthWorld} {call : AuthCall}

theorem recorded_start {db : AuthDb} (hhashes : ∀ a, db.hashes a = []) : Recorded config ⟨db, []⟩ := by
  refine ⟨fun a hash hh => ?_, fun token ht => (by cases ht), List.nodup_nil⟩
  rw [hhashes a] at hh
  cases hh

theorem Recorded.eq_of_payload (h : Recorded config w) {token token' : IssuedToken} (ht : token ∈ w.issued)
    (ht' : token' ∈ w.issued) (hpayload : token.payload = token'.payload) : token = token' :=
  List.inj_on_of_nodup_map h.nodup ht ht' (congrArg _ hpayload)

theorem Recorded.sessionOf_eq (h : Recorded config w) {token : IssuedToken} (ht : token ∈ w.issued) :
    w.sessionOf token.payload = token.sessionId := by
  unfold AuthWorld.sessionOf
  cases hfind : w.issued.find? fun t => t.payload = token.payload with
  | none => exact absurd (List.find?_eq_none.mp hfind token ht) (by simp)
  | some t =>
    have hpayload : t.payload = token.payload := by simpa using List.find?_some hfind
    rw [h.eq_of_payload (List.mem_of_find?_eq_some hfind) ht hpayload]
    rfl

@[simp] theorem payload_rotate (old : JwtPayload) (token : IssuedToken) :
    (token.rotate old).payload = token.payload := by
  unfold IssuedToken.rotate
  split <;> rfl

@[simp] theorem sessionId_rotate (old : JwtPayload) (token : IssuedToken) :
    (token.rotate old).sessionId = token.sessionId := by
  unfold IssuedToken.rotate
  split <;> rfl

theorem Recorded.token_of_stored (h : Recorded config w) (hinj : Function.Injective config.hashToken)
    {payload : JwtPayload} {a : String} (hstored : config.hashToken (.signed payload) ∈ w.db.hashes a) :
    ∃ token ∈ w.issued, token.payload = payload ∧ payload.sub = a := by
  obtain ⟨token, ht, hhash, hsub⟩ := h.stored a _ hstored
  obtain rfl : payload = token.payload := TokenText.signed.inj (hinj hhash)
  exact ⟨token, ht, rfl, hsub⟩

@[simp] theorem authId_revokeOf (authId : String) (session : Session) :
    (session.revokeOf authId).authId = session.authId := by
  unfold Session.revokeOf
  split <;> rfl

theorem find_revokeOf (sessions : Table Session.id) (authId sessionId : String) :
    (mapRows sessions (Session.revokeOf authId)).find sessionId =
      (sessions.find sessionId).map (Session.revokeOf authId) :=
  find_mapRows (fun r => by unfold Session.revokeOf; split <;> rfl) sessions sessionId

/-- The sessions stay, with their accounts. -/
def SessionsStay (db db' : AuthDb) : Prop :=
  ∀ sessionId row, db.sessions.find sessionId = some row →
    ∃ row' ∈ db'.sessions.find sessionId, row'.authId = row.authId

variable {db db' : AuthDb}

theorem sessionsStay_of_eq (h : db'.sessions = db.sessions) : SessionsStay db db' := by
  intro sessionId row hrow
  rw [h, hrow]
  exact ⟨row, rfl, rfl⟩

theorem sessionsStay_of_revoked {authId : String}
    (h : db'.sessions = mapRows db.sessions (Session.revokeOf authId)) : SessionsStay db db' := by
  intro sessionId row hrow
  rw [h, find_revokeOf, hrow]
  exact ⟨_, rfl, authId_revokeOf authId row⟩

theorem sessionsStay_of_save {session : Session} (h : db'.sessions = db.sessions.save session)
    (hauth : ∀ row ∈ db.sessions.find session.id, session.authId = row.authId) : SessionsStay db db' := by
  intro sessionId row hrow
  rw [h, Table.find_save]
  split
  next hid => exact ⟨session, rfl, hauth row (hid ▸ hrow)⟩
  · exact ⟨row, hrow, rfl⟩

theorem Recorded.of_subset (h : Recorded config w) (hhashes : ∀ a, db'.hashes a ⊆ w.db.hashes a)
    (hsessions : SessionsStay w.db db') : Recorded config ⟨db', w.issued⟩ := by
  refine ⟨fun a hash hh => h.stored a hash (hhashes a hh), fun token ht => ?_, h.nodup⟩
  obtain ⟨row, hrow, hauth⟩ := h.session token ht
  obtain ⟨row', hrow', hauth'⟩ := hsessions _ row hrow
  exact ⟨row', hrow', hauth'.trans hauth⟩

theorem Recorded.of_issue (new : IssuedToken) {f : IssuedToken → IssuedToken} (h : Recorded config w)
    (hf : ∀ token, (f token).payload = token.payload ∧ (f token).sessionId = token.sessionId)
    (hnew : ∀ token ∈ w.issued, new.payload.sessionId ≠ token.payload.sessionId)
    (hhashes : ∀ a hash, hash ∈ db'.hashes a →
      hash ∈ w.db.hashes a ∨ hash = config.hashToken (.signed new.payload) ∧ new.payload.sub = a)
    (hsessions : SessionsStay w.db db')
    (hsession : ∃ row ∈ db'.sessions.find new.sessionId, row.authId = new.payload.sub) :
    Recorded config ⟨db', new :: w.issued.map f⟩ := by
  have hpayloads : (w.issued.map f).map (·.payload.sessionId) = w.issued.map (·.payload.sessionId) := by
    rw [List.map_map]
    exact List.map_congr_left fun token _ => congrArg JwtPayload.sessionId (hf token).1
  refine ⟨fun a hash hh => ?_, List.forall_mem_cons.mpr ⟨hsession, fun token ht => ?_⟩, ?_⟩
  · rcases hhashes a hash hh with hold | hnew
    · obtain ⟨token, ht, hhash, hsub⟩ := h.stored a hash hold
      refine ⟨f token, List.mem_cons_of_mem _ (List.mem_map_of_mem ht), ?_⟩
      rw [(hf token).1]
      exact ⟨hhash, hsub⟩
    · exact ⟨new, List.mem_cons_self, hnew⟩
  · obtain ⟨token, hold, rfl⟩ := List.mem_map.mp ht
    obtain ⟨row, hrow, hauth⟩ := h.session token hold
    obtain ⟨row', hrow', hauth'⟩ := hsessions _ row hrow
    rw [(hf token).1, (hf token).2]
    exact ⟨row', hrow', hauth'.trans hauth⟩
  · rw [List.map_cons, List.nodup_cons, hpayloads]
    refine ⟨fun hmem => ?_, h.nodup⟩
    obtain ⟨token, ht, heq⟩ := List.mem_map.mp hmem
    exact hnew token ht heq.symm

/-- A call keeps the ledger. -/
theorem recorded_step (hinj : Function.Injective config.hashToken) (w : AuthWorld) (call : AuthCall)
    (h : Recorded config w) (hfresh : FreshIds w call) : Recorded config (authStep config w call) := by
  have hdoes := does_program config w.db call
  unfold authStep
  generalize ((call.program config).eval serve w.db).1 = reply at hdoes ⊢
  generalize ((call.program config).eval serve w.db).2 = db' at hdoes ⊢
  cases hdoes with
  | nothing hreply huntouched =>
    rw [record_tokenless hreply]
    exact h.of_subset (fun a => huntouched.hashes a ▸ List.Subset.refl _) (sessionsStay_of_eq huntouched.sessions)
  | @opens dto ids ipAddress userAgent auth payload accessToken session _ hauth hadmits hsub htoken hsession hnew
      hhashes hsessions =>
    obtain ⟨hid, hauthId, -⟩ := hsession
    -- the session is a new row, so it takes no other one away
    have hnone : w.db.sessions.find session.id = none := hid ▸ hnew
    have hstay : SessionsStay w.db db' := sessionsStay_of_save hsessions fun row hrow => by
      rw [hnone] at hrow
      cases hrow
    have hissued := h.of_issue ⟨payload, ids.sessionId, false⟩ (f := id) (fun _ => ⟨rfl, rfl⟩)
      (fun token ht heq => hfresh token ht (congrArg some (htoken.symm.trans heq))) (fun a hash hh => ?_) hstay ?_
    · rwa [List.map_id] at hissued
    · rw [hhashes] at hh
      split at hh
      next ha => exact .inr ⟨List.mem_singleton.mp hh, hsub.trans ha.symm⟩
      · exact .inl hh
    · refine ⟨session, ?_, hauthId.trans hsub.symm⟩
      rw [hsessions, ← hid]
      exact Table.find_save_self _ _
  | @rotates payload new accessToken tokenId _ hvalid hstored hsub htoken hhashes hsessions =>
    -- the stored hash is that of a known token, which is rotated in place
    obtain ⟨token, ht, rfl, -⟩ := h.token_of_stored hinj hstored
    refine h.of_issue _ (fun _ => ⟨payload_rotate _ _, sessionId_rotate _ _⟩)
      (fun token ht heq => hfresh token ht (congrArg some (htoken.symm.trans heq))) (fun a hash hh => ?_)
      (sessionsStay_of_eq hsessions) ?_
    · rw [hhashes] at hh
      split at hh
      next ha =>
        rcases mem_lastTen_filter hh with hold | hnew
        · exact .inl (ha ▸ hold)
        · exact .inr ⟨hnew, hsub.trans ha.symm⟩
      · exact .inl hh
    · rw [h.sessionOf_eq ht, hsessions, hsub]
      exact h.session token ht
  | ends hreply hhashes hsessions =>
    rw [record_tokenless hreply]
    refine h.of_subset (fun a => ?_) (sessionsStay_of_revoked hsessions)
    rw [hhashes]
    split
    · exact List.nil_subset _
    · exact List.Subset.refl _
  | logsOut hremoved hhashes hsessions =>
    refine h.of_subset (fun a => ?_) (sessionsStay_of_revoked hsessions)
    rw [hhashes]
    split
    · exact fun _ hh => List.mem_of_mem_filter hh
    · exact List.Subset.refl _
  | @revokes authId sessionId session _ hsession hauth hhashes hsessions =>
    have hid : session.id = sessionId := Table.key_of_find hsession
    refine h.of_subset (fun a => hhashes a ▸ List.Subset.refl _) (sessionsStay_of_save hsessions fun row hrow => ?_)
    obtain rfl : session = row := Option.some.inj (hsession.symm.trans (hid ▸ hrow))
    rfl

end Identity
