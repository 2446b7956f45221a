import PeerX.Identity.Events
import PeerX.Identity.Digest

/-!
# Identity: concurrent refreshes

A refresh reads the list of hashes, and later writes the list that it has read back, with its own
hash exchanged for the one of a new token. Logins and logouts write the list, too. A refresh token
is exchanged once, as long as no other refresh exchanges a token of the list that a refresh has read
before the refresh writes it: a token that was exchanged earlier is not in the list that is read.
When two calls read the same list, both exchange the same token, or one of them brings back the hash
that the other has taken out.

## Main results

* `tokenCall_keeps`: the calls issue the statements of the rule
* `not_exchanged_again`: a token that was exchanged is not exchanged again
* `exchanged_once`: no refresh token is exchanged by two calls
* `exchanged_twice`: two refreshes with the same token
-/

namespace Identity

open Concurrency Relational

/-! ## Calls -/

/-- A call that issues or ends tokens. -/
inductive TokenCall : Type
  | login (dto : LoginDto) (ids : LoginIds) (ipAddress userAgent : Option String)
  | refreshTokens (refreshToken : TokenText) (sessionId : String)
  | logout (authId : String) (refreshToken : Option TokenText)
deriving DecidableEq

def TokenCall.call : TokenCall → AuthCall
  | .login dto ids ipAddress userAgent => .login dto ids ipAddress userAgent
  | .refreshTokens refreshToken sessionId => .refreshTokens refreshToken sessionId
  | .logout authId refreshToken => .logout authId refreshToken

/-- The identifier in the tokens that the call issues. -/
def TokenCall.tokenId : TokenCall → Option String
  | .login _ ids _ _ => some ids.tokenId
  | .refreshTokens _ sessionId => some sessionId
  | .logout _ _ => none

variable (config : AuthConfig) {ι : Type}

/-- The program of a call, which ends with a reply or an exception. -/
def TokenCall.program (call : TokenCall) : AuthTask (Except AuthError AuthReply) :=
  (call.call.program config).attempt

/-- Any number of calls at the same time, one statement after the other. -/
def exchanging (calls : ι → TokenCall) (db : AuthDb) :
    Config AuthCommand AuthCommand.Reply AuthError (Except AuthError AuthReply) ι
      (AuthDb × List (AuthEvent ι)) :=
  ⟨(db, []), fun i => (calls i).program config⟩

/-! ## The statements of a call -/

/-- No list was written. -/
def Unwritten (past : List (AuthEvent ι)) : Prop := ∀ e ∈ past, e.command.list = none

/-- The rule of a call: it writes a list at most once, and a refresh writes the list that it has
read, with its hash exchanged. -/
inductive TokenRule (call : TokenCall) (i : ι) : AuthCommand → List (AuthEvent ι) → Prop
  | quiet {c past} (hc : c.list = none) : TokenRule call i c past
  | clears {authId past} :
  TokenRule call i (.updateAuth { id := authId, refreshTokenHashes := some (some []) }) past
  | opens {payload authId past} (htoken : call.tokenId = some payload.sessionId)
    (hunwritten : Unwritten past)
      (hcall : ∀ refreshToken sessionId, call ≠ .refreshTokens refreshToken sessionId) :
      TokenRule call i (.updateAuth
        { id := authId, refreshTokenHashes := some (some [config.hashToken (.signed payload)]) })
          past
  | rotates {payload new auth past} (hcall : call = .refreshTokens (.signed payload) new.sessionId)
      (hunwritten : Unwritten past) (hread : HasRead AuthCommand.readsById i
        (.findAuthById payload.sub) auth past)
      (hstored : config.hashToken (.signed payload) ∈ auth.refreshTokenHashes.getD []) :
      TokenRule call i (.updateAuth
        { id := auth.id
          refreshTokenHashes := some (some (lastTen
            ((auth.refreshTokenHashes.getD []).filter (· ≠ config.hashToken (.signed payload)) ++
              [config.hashToken (.signed new)]))) }) past

/-- The call has exchanged its token. -/
def HasExchanged (call : TokenCall) (past : List (AuthEvent ι)) : Prop :=
  ∀ refreshToken sessionId, call = .refreshTokens refreshToken sessionId →
    ∃ payload, refreshToken = .signed payload ∧ ∃ e ∈ past, ∃ l, e.command.list = some l ∧ l ≠ []

variable {config} {call : TokenCall} {i : ι} {past : List (AuthEvent ι)} {α : Type}

theorem Unwritten.cons {e : AuthEvent ι} (h : Unwritten past) (he : e.command.list = none) :
    Unwritten (e :: past) := by
  rintro e' (_ | ⟨_, he'⟩)
  · exact he
  · exact h e' he'

/-- A passive program, at any time before the call writes a list. -/
theorem keeps_of_passive {A : α → Prop} {p : AuthTask α} (hp : p.Within AuthCommand.Passive A)
    (hpast : Unwritten past) :
    p.Keeps serve (TokenRule config call i) i (fun a past => A a ∧ Unwritten past)
    (fun _ _ => True) past :=
  hp.keeps hpast (fun _ _ hc _ => .quiet hc.list) fun _ _ hc hpast => hpast.cons hc.list

theorem keeps_passive_bind {β : Type} {c : AuthCommand} {f : c.Value → AuthTask β}
    {Q : β → List (AuthEvent ι) → Prop} (hc : c.Passive) (hpast : Unwritten past)
    (hf : ∀ v past, Unwritten past → (f v).Keeps serve (TokenRule config call i) i Q
      (fun _ _ => True) past) :
    (statement c >>= f).Keeps serve (TokenRule config call i) i Q (fun _ _ => True) past :=
  keeps_bind ((keeps_of_passive (within_issue hc) hpast).mono fun v past h => hf v past h.2)

theorem login_keeps {dto : LoginDto} {ids : LoginIds} {ipAddress userAgent : Option String}
    {Q : TokenPair → List (AuthEvent ι) → Prop} (hQ : ∀ pair past, Q pair past)
    (hpast : Unwritten past) :
    (login config dto ids ipAddress userAgent).Keeps serve
      (TokenRule config (.login dto ids ipAddress userAgent) i) i Q (fun _ _ => True) past := by
  rw [login_eq]
  refine keeps_passive_bind rfl hpast fun auth past hpast => ?_
  cases auth with
  | none => exact keeps_throw trivial
  | some auth =>
  refine keeps_bind ((keeps_of_passive (passive_loginChecks config auth dto ipAddress) hpast).mono
    fun entity past h => ?_)
  have hentity := h.1
  refine keeps_passive_bind rfl h.2 fun user past hpast => ?_
  cases user with
  | none => exact keeps_throw trivial
  | some user =>
  refine keeps_bind
    ((keeps_of_passive (passive_generateTokenPair config auth user ids.tokenId) hpast).mono
    fun pair past h => ?_)
  obtain ⟨payload, htoken, -, hsession⟩ := h.1
  refine keeps_passive_bind rfl h.2 fun now past hpast => ?_
  refine keeps_issue_bind (.quiet rfl) (fun s _ => ?_) fun _ _ => trivial
  -- the entity has no list, so the new one holds the hash of the new token alone
  have hlist : lastTen (((entity.refreshTokenHashes.getD none).getD []).filter (· ≠ "") ++
      [config.hashToken pair.refreshToken]) = [config.hashToken (.signed payload)] := by
    rw [hentity, htoken]
    rfl
  dsimp only
  rw [hlist]
  refine keeps_issue_bind (.opens ?_ (hpast.cons rfl) nofun)
    (fun _ _ => keeps_ret (hQ _ _)) fun _ _ => trivial
  rw [hsession]
  rfl

/-- A refresh exchanges its token, or it ends with an exception. -/
theorem refreshTokens_keeps {refreshToken : TokenText} {sessionId : String}
    (hpast : Unwritten past) :
    (refreshTokens config refreshToken sessionId).Keeps serve
      (TokenRule config (.refreshTokens refreshToken sessionId) i) i
      (fun _ past => HasExchanged (.refreshTokens refreshToken sessionId) past)
      (fun _ _ => True) past := by
  refine keeps_passive_bind rfl hpast fun now past hpast => ?_
  split
  · exact keeps_throw trivial
  next payload hverify =>
  obtain ⟨rfl, -⟩ := verify_eq_some.mp hverify
  split
  · exact keeps_throw trivial
  refine keeps_issue_bind (.quiet rfl) (fun s auth => ?_) fun _ _ => trivial
  cases auth with
  | none => exact keeps_throw trivial
  | some auth =>
  have hunwritten := hpast.cons (e := ⟨i, s, .findAuthById payload.sub, .ok (some auth)⟩) rfl
  dsimp only
  split
  · -- a token that is not stored: all sessions are revoked
    refine keeps_issue_bind (.quiet rfl) (fun _ _ => ?_) fun _ _ => trivial
    exact keeps_issue_bind .clears (fun _ _ => keeps_throw trivial) fun _ _ => trivial
  next hstored =>
  refine keeps_issue_bind (.quiet rfl) (fun _ user => ?_) fun _ _ => trivial
  cases user with
  | none => exact keeps_throw trivial
  | some user =>
  refine keeps_bind (keeps_issue_bind (.quiet rfl) (fun _ now => keeps_ret ?_) fun _ _ => trivial)
  refine keeps_issue_bind (.rotates rfl ?_ ?_ (not_not.mp hstored))
    (fun _ _ => ?_) fun _ _ => trivial
  · exact (hunwritten.cons rfl).cons rfl
  · exact .cons (.cons (.read rfl rfl rfl rfl) rfl) rfl
  · refine keeps_ret fun _ _ hcall => ?_
    obtain ⟨rfl, rfl⟩ := TokenCall.refreshTokens.inj hcall
    exact ⟨payload, rfl, _, List.mem_cons_self, _, rfl, by simp [lastTen_append]⟩

theorem logout_keeps {authId : String} {refreshToken : Option TokenText}
    {Q : Unit → List (AuthEvent ι) → Prop} (hQ : ∀ u past, Q u past) :
    (logout config authId refreshToken).Keeps serve
    (TokenRule config (.logout authId refreshToken) i) i Q
      (fun _ _ => True) past := by
  unfold logout
  split
  · exact keeps_issue (.quiet rfl) (fun _ _ => hQ _ _) fun _ _ => trivial
  · refine keeps_issue_bind (.quiet rfl) (fun _ _ => ?_) fun _ _ => trivial
    exact keeps_issue (.quiet rfl) (fun _ _ => hQ _ _) fun _ _ => trivial

/-- A call other than a refresh has no token to exchange. -/
theorem hasExchanged_of_ne (h : ∀ refreshToken sessionId,
      call ≠ .refreshTokens refreshToken sessionId) :
    HasExchanged call past :=
  fun refreshToken sessionId hcall => absurd hcall (h refreshToken sessionId)

/-- A refresh that has returned has exchanged its token. -/
def Settled (call : TokenCall) : Except AuthError AuthReply → List (AuthEvent ι) → Prop
  | .ok _, past => HasExchanged call past
  | .error _, _ => True

/-- **A call keeps the rule**, and a refresh that returns has exchanged its token. -/
theorem tokenCall_keeps (call : TokenCall) (i : ι) :
    (call.program config).Keeps serve (TokenRule config call i) i (Settled call)
    (fun _ _ => True) [] := by
  have hnil : Unwritten ([] : List (AuthEvent ι)) := fun _ he => by cases he
  refine keeps_attempt ?_
  cases call with
  | login dto ids ipAddress userAgent =>
    exact keeps_map
      (login_keeps (fun _ _ => hasExchanged_of_ne fun _ _ => TokenCall.noConfusion) hnil)
  | refreshTokens refreshToken sessionId =>
    exact keeps_map (refreshTokens_keeps hnil)
  | logout authId refreshToken =>
    exact keeps_map (logout_keeps (fun _ _ => hasExchanged_of_ne fun _ _ => TokenCall.noConfusion))

/-! ## Exchanges -/

section Exchanges

variable (config : AuthConfig) (calls : ι → TokenCall)

/-- The token that a statement exchanges: the statement writes the list of a refresh. -/
def exchanges (i : ι) (c : AuthCommand) : Option JwtPayload :=
  match calls i, c.list.getD [] with
  | .refreshTokens (.signed payload) _, _ :: _ => some payload
  | _, _ => none

/-- The hash of the token that a statement issues. -/
def minted (e : AuthEvent ι) : Option String := (e.command.list.getD []).getLast?

theorem minted_append {e : AuthEvent ι} {kept : List String} {hash : String}
    (h : e.command.list = some (kept ++ [hash])) : minted e = some hash := by
  simp [minted, h]

variable {config calls} {payload : JwtPayload}

theorem exchanges_eq_some {c : AuthCommand} {sessionId : String}
    (hcall : calls i = .refreshTokens (.signed payload) sessionId) (hc : c.list.getD [] ≠ []) :
    exchanges calls i c = some payload := by
  unfold exchanges
  rw [hcall]
  cases hlist : c.list.getD [] with
  | nil => exact absurd hlist hc
  | cons hash hashes => rfl

/-- An issued token carries the identifier of its call. -/
theorem minted_of_rule {e : AuthEvent ι} {hash : String}
    (hrule : TokenRule config (calls e.thread) e.thread e.command past) (h : minted e = some hash) :
    ∃ payload, hash = config.hashToken (.signed payload) ∧
    (calls e.thread).tokenId = some payload.sessionId := by
  obtain ⟨i, before, c, reply⟩ := e
  unfold minted at h
  dsimp only at hrule h
  cases hrule with
  | quiet hc => simp [hc] at h
  | clears => simp [AuthCommand.list] at h
  | @opens payload authId _ htoken =>
    simp only [AuthCommand.list, Option.map_some, Option.getD_some, List.getLast?_singleton,
      Option.some.injEq] at h
    exact ⟨payload, h.symm, htoken⟩
  | @rotates payload new auth _ hcall =>
    simp only [AuthCommand.list, Option.map_some, Option.getD_some, lastTen_append,
      List.getLast?_concat,
      Option.some.injEq] at h
    refine ⟨new, h.symm, ?_⟩
    rw [hcall]
    rfl

/-- A statement that exchanges a token has read the list in which its hash is stored. -/
theorem read_of_exchanges {c : AuthCommand}
    (hrule : TokenRule config (calls i) i c past) (h : exchanges calls i c = some payload) :
    ∃ auth, HasRead AuthCommand.readsById i (.findAuthById payload.sub) auth past ∧
      config.hashToken (.signed payload) ∈ auth.refreshTokenHashes.getD [] := by
  unfold exchanges at h
  cases hrule with
  | quiet hc => split at h <;> simp_all
  | clears => split at h <;> simp_all [AuthCommand.list]
  | opens _ _ hcall =>
    split at h
    next hrefresh _ => exact absurd hrefresh (hcall _ _)
    · cases h
  | @rotates payload' new auth _ hcall _ hread hstored =>
    rw [hcall] at h
    split at h
    next htoken _ =>
      cases htoken
      cases h
      exact ⟨auth, hread, hstored⟩
    · cases h

end Exchanges

/-! ## Known tokens -/

section Known

variable (config : AuthConfig) (calls : ι → TokenCall)

/-- The hash of a token that was stored at the start, or issued since. -/
def Known (db : AuthDb) (es : List (AuthEvent ι)) (hash : String) : Prop :=
  (∃ authId, hash ∈ db.hashes authId) ∨ ∃ e ∈ es, minted e = some hash

/-- The tokens are distinct: every call has an identifier of its own, which no token at the
start carries. -/
structure Distinct (db : AuthDb) : Prop where
  injective : Function.Injective config.hashToken
  own : ∀ i j tokenId, (calls i).tokenId = some tokenId → (calls j).tokenId = some tokenId → i = j
  fresh : ∀ i payload authId, (calls i).tokenId = some payload.sessionId →
    config.hashToken (.signed payload) ∉ db.hashes authId

/-- The stored hashes: each of them is known, those of exchanged tokens are known, too, and are
not stored. -/
structure Exclusive (db s : AuthDb) (es : List (AuthEvent ι)) : Prop where
  stored : ∀ authId hash, hash ∈ s.hashes authId → Known db es hash
  known : ∀ e ∈ es, ∀ payload, exchanges calls e.thread e.command = some payload →
    Known db es (config.hashToken (.signed payload))
  gone : ∀ e ∈ es, ∀ payload, exchanges calls e.thread e.command = some payload →
    config.hashToken (.signed payload) ∉ s.hashes payload.sub

variable {config calls} {db : AuthDb} {es es' new old : List (AuthEvent ι)} {payload : JwtPayload}

theorem Known.mono {hash : String} (h : Known db es hash) (hes : es ⊆ es') : Known db es' hash :=
  h.imp_right fun ⟨e, he, hminted⟩ => ⟨e, hes he, hminted⟩

/-- A statement that adds no hash, and exchanges no token. -/
theorem Exclusive.of_subset {s s' : AuthDb} {e : AuthEvent ι} (h : Exclusive config calls db s es)
    (hnone : exchanges calls e.thread e.command = none)
    (hsub : ∀ authId, s'.hashes authId ⊆ s.hashes authId) :
    Exclusive config calls db s' (e :: es) := by
  refine ⟨fun authId hash hh => ?_, List.forall_mem_cons.mpr ⟨?_, ?_⟩,
    List.forall_mem_cons.mpr ⟨?_, ?_⟩⟩
  · exact (h.stored authId hash (hsub authId hh)).mono (List.subset_cons_self _ _)
  · intro payload hsome
    rw [hnone] at hsome
    cases hsome
  · intro e' he' payload hsome
    exact (h.known e' he' payload hsome).mono (List.subset_cons_self _ _)
  · intro payload hsome
    rw [hnone] at hsome
    cases hsome
  · exact fun e' he' payload hsome hmem => h.gone e' he' payload hsome (hsub _ hmem)

/-- A list is written: some hashes that are known, and not of exchanged tokens, and one that is
not known. -/
theorem Exclusive.of_write {s s' : AuthDb} {e : AuthEvent ι} {authId new : String}
    (kept : List String) (h : Exclusive config calls db s es) (hminted : minted e = some new)
    (hnew : ¬ Known db es new)
    (hhashes : ∀ a hash, hash ∈ s'.hashes a → a = authId ∧ hash ∈ kept ++ [new] ∨ a ≠ authId ∧
      hash ∈ s.hashes a)
    (hknown : ∀ hash ∈ kept, Known db es hash)
    (hkept : ∀ e ∈ es, ∀ payload, exchanges calls e.thread e.command = some payload →
      payload.sub = authId →
      config.hashToken (.signed payload) ∉ kept)
    (hself : ∀ payload, exchanges calls e.thread e.command = some payload → payload.sub = authId ∧
      Known db es (config.hashToken (.signed payload)) ∧
      config.hashToken (.signed payload) ∉ kept) :
    Exclusive config calls db s' (e :: es) := by
  have hcons := List.subset_cons_self e es
  have hne : ∀ hash, Known db es hash → hash ∉ kept → hash ∉ kept ++ [new] := by
    intro hash hh hnot hmem
    rcases List.mem_append.mp hmem with hmem | hmem
    · exact hnot hmem
    · exact hnew (List.mem_singleton.mp hmem ▸ hh)
  refine ⟨fun a hash hh => ?_, List.forall_mem_cons.mpr ⟨?_, ?_⟩, List.forall_mem_cons.mpr ⟨?_, ?_⟩⟩
  · rcases hhashes a hash hh with ⟨-, hmem⟩ | ⟨-, hmem⟩
    · rcases List.mem_append.mp hmem with hmem | hmem
      · exact (hknown hash hmem).mono hcons
      · exact .inr ⟨e, List.mem_cons_self, List.mem_singleton.mp hmem ▸ hminted⟩
    · exact (h.stored a hash hmem).mono hcons
  · exact fun payload hsome => (hself payload hsome).2.1.mono hcons
  · exact fun e' he' payload hsome => (h.known e' he' payload hsome).mono hcons
  · intro payload hsome hmem
    obtain ⟨hsub, hh, hnot⟩ := hself payload hsome
    rcases hhashes _ _ hmem with ⟨-, hmem⟩ | ⟨hother, -⟩
    · exact hne _ hh hnot hmem
    · exact hother hsub
  · intro e' he' payload hsome hmem
    rcases hhashes _ _ hmem with ⟨hsub, hmem⟩ | ⟨-, hmem⟩
    · exact hne _ (h.known e' he' payload hsome) (hkept e' he' payload hsome hsub) hmem
    · exact h.gone e' he' payload hsome hmem

/-- A refresh has not read the hash of an exchanged token. -/
theorem Exclusive.not_mem_read {r e : AuthEvent ι} {authId : String}
    (hold : Exclusive config calls db r.before old)
    (hlist : r.command.list = none)
    (hrivals : ∀ e ∈ new, ∀ payload, exchanges calls e.thread e.command = some payload →
      config.hashToken (.signed payload) ∉ r.before.hashes authId) (he : e ∈ new ++ r :: old)
    (hexchanges : exchanges calls e.thread e.command = some payload) (hsub : payload.sub = authId) :
    config.hashToken (.signed payload) ∉ r.before.hashes authId := by
  rcases List.mem_append.mp he with he | he
  · exact hrivals e he payload hexchanges
  · rcases List.mem_cons.mp he with rfl | he
    · simp [exchanges, hlist] at hexchanges
    · rw [← hsub]
      exact hold.gone e he payload hexchanges

end Known

/-! ## Runs -/

section Runs

variable [DecidableEq ι] (config : AuthConfig) (calls : ι → TokenCall)

/-- The list of hashes that a call has read. -/
def listRead (i : ι) (es : List (AuthEvent ι)) : List String :=
  ((lastRead AuthCommand.readsById i es).bind (·.refreshTokenHashes)).getD []

/-- No refresh has come in between: since a refresh has read the list that it is about to write
back, no other refresh has exchanged a token of the list. -/
def Unrivalled (i : ι) (c : AuthCommand) (s : AuthDb × List (AuthEvent ι)) : Prop :=
  exchanges calls i c ≠ none → ∀ e ∈ since (isRead AuthCommand.readsById i) s.2,
    ∀ payload ∈ exchanges calls e.thread e.command,
    config.hashToken (.signed payload) ∉ listRead i s.2

instance (i : ι) (c : AuthCommand) (s : AuthDb × List (AuthEvent ι)) :
    Decidable (Unrivalled config calls i c s) :=
  inferInstanceAs (Decidable (_ → _))

/-- The rule of each thread, and the condition on its steps. -/
abbrev Rotation (e : AuthEvent ι) (es : List (AuthEvent ι)) : Prop :=
  TokenRule config (calls e.thread) e.thread e.command (Concurrency.own e.thread es) ∧
    Unrivalled config calls e.thread e.command (e.before, es)

variable {config calls} {db s : AuthDb} {es : List (AuthEvent ι)} {payload : JwtPayload}

/-- A token that is about to be issued is not known. -/
theorem not_known (hdistinct : Distinct config calls db)
    (hc : Chronicle serve (Rotation config calls) db s es) {i : ι}
    (htoken : (calls i).tokenId = some payload.sessionId)
    (hunwritten : Unwritten (Concurrency.own i es)) :
    ¬ Known db es (config.hashToken (.signed payload)) := by
  rintro (⟨authId, hstored⟩ | ⟨e, he, hminted⟩)
  · exact hdistinct.fresh i payload authId htoken hstored
  · obtain ⟨older, hrule, -⟩ := hc.ok_of_mem he
    obtain ⟨payload', hhash, htoken'⟩ := minted_of_rule hrule hminted
    -- the token has been issued by the same call
    obtain rfl : payload = payload' := TokenText.signed.inj (hdistinct.injective hhash)
    have hthread := hdistinct.own _ _ _ htoken' htoken
    have hlist := hunwritten e (mem_own.mpr ⟨he, hthread⟩)
    simp [minted, hlist] at hminted

/-- The list that a refresh has read: it was stored when the refresh read it. -/
theorem split_read (hc : Chronicle serve (Rotation config calls) db s es) {i : ι} {auth : Auth}
    {authId : String}
    (hread : HasRead AuthCommand.readsById i (.findAuthById authId) auth (Concurrency.own i es)) :
    ∃ new r old, es = new ++ r :: old ∧ auth.id = authId ∧
      auth.refreshTokenHashes.getD [] = r.before.hashes authId ∧
      listRead i es = r.before.hashes authId ∧
      since (isRead AuthCommand.readsById i) es = new ∧ r.command.list = none := by
  obtain ⟨new, r, old, rfl, hr, hcommand, hfound, hquiet⟩ := split_of_hasRead hread
  have hreply := hc.reply (e := r) (by simp)
  obtain ⟨j, s₀, c, reply⟩ := r
  obtain rfl : c = .findAuthById authId := hcommand
  obtain rfl : reply = .ok (s₀.auths.find authId) := hreply
  have hfind : s₀.auths.find authId = some auth := hfound
  have hhashes : auth.refreshTokenHashes.getD [] = s₀.hashes authId := by
    rw [AuthDb.hashes, hfind]
    rfl
  refine ⟨new, _, old, rfl, Table.key_of_find hfind, hhashes, ?_, ?_, rfl⟩
  · rw [listRead, lastRead_eq hr hquiet, hfound]
    exact hhashes
  · rw [since_append hquiet]
    simp [since, hr]

/-- A refresh reads known hashes, and none of a token that another call exchanges before it
writes its list. -/
theorem known_read (hc : Chronicle serve (Rotation config calls) db s es)
    (hearlier : ∀ new r old, es = new ++ r :: old → Exclusive config calls db r.before old) {i : ι}
    {c : AuthCommand} {auth : Auth} {authId : String}
    (hread : HasRead AuthCommand.readsById i (.findAuthById authId) auth (Concurrency.own i es))
    (hunrivalled : Unrivalled config calls i c (s, es)) (hexchanges : exchanges calls i c ≠ none) :
    auth.id = authId ∧ (∀ hash ∈ auth.refreshTokenHashes.getD [], Known db es hash) ∧
      ∀ e ∈ es, ∀ payload, exchanges calls e.thread e.command = some payload →
      payload.sub = authId →
        config.hashToken (.signed payload) ∉ auth.refreshTokenHashes.getD [] := by
  obtain ⟨new, r, old, hsplit, hid, hlist, hlistRead, hsince, hr⟩ := split_read hc hread
  have hold := hearlier new r old hsplit
  have hrivals : ∀ e ∈ new, ∀ payload, exchanges calls e.thread e.command = some payload →
      config.hashToken (.signed payload) ∉ r.before.hashes authId := by
    intro e he payload hsome
    rw [← hlistRead]
    exact hunrivalled hexchanges e (hsince ▸ he) payload hsome
  rw [hlist]
  refine ⟨hid, fun hash hh => (hold.stored _ hash hh).mono fun x hx => ?_,
    fun e he payload hsome hsub => ?_⟩
  · rw [hsplit]
    exact List.mem_append_right _ (List.mem_cons_of_mem _ hx)
  · rw [hsplit] at he
    exact hold.not_mem_read hr hrivals he hsome hsub

/-- A statement keeps the stored hashes exclusive. -/
theorem exclusive_step (hdistinct : Distinct config calls db) {e : AuthEvent ι}
    (hc : Chronicle serve (Rotation config calls) db e.before es)
    (h : Exclusive config calls db e.before es)
    (hearlier : ∀ new r old, es = new ++ r :: old → Exclusive config calls db r.before old)
    (hok : Rotation config calls e es) : Exclusive config calls db (serve e.command e.before).2
    (e :: es) := by
  obtain ⟨hrule, hunrivalled⟩ := hok
  obtain ⟨i, before, c, reply⟩ := e
  dsimp only at hrule hunrivalled h hc ⊢
  cases hrule with
  | quiet hlist => exact h.of_subset (by simp [exchanges, hlist]) fun authId => hashes_subset hlist
  | clears =>
    refine h.of_subset (by simp [exchanges, AuthCommand.list]) fun authId => ?_
    rw [hashes_updateAuth rfl]
    split
    · exact List.nil_subset _
    · exact List.Subset.refl _
  | @opens payload authId _ htoken hunwritten hcall =>
    have hnew := not_known hdistinct hc htoken hunwritten
    have hnone : exchanges calls i (.updateAuth
        { id := authId, refreshTokenHashes := some (some [config.hashToken (.signed payload)]) }) =
          none := by
      unfold exchanges
      split
      next hrefresh _ => exact absurd hrefresh (hcall _ _)
      · rfl
    refine h.of_write [] rfl hnew (fun a hash hh => mem_hashes_updateAuth rfl hh)
      (fun _ hh => absurd hh List.not_mem_nil)
      (fun _ _ _ _ _ => List.not_mem_nil) fun payload' hsome => ?_
    rw [hnone] at hsome
    cases hsome
  | @rotates payload new auth _ hcall hunwritten hread hstored =>
    have hexchanges : exchanges calls i (.updateAuth
        { id := auth.id
          refreshTokenHashes := some (some (lastTen
            ((auth.refreshTokenHashes.getD []).filter (· ≠ config.hashToken (.signed payload)) ++
              [config.hashToken (.signed new)]))) }) = some payload :=
      exchanges_eq_some hcall (by simp [AuthCommand.list, lastTen_append])
    obtain ⟨hid, hknown, hlive⟩ :=
      known_read hc hearlier hread hunrivalled (hexchanges ▸ Option.some_ne_none _)
    have htoken : (calls i).tokenId = some new.sessionId := by
      rw [hcall]
      rfl
    have hnew := not_known hdistinct hc htoken hunwritten
    rw [lastTen_append] at hexchanges ⊢
    -- the list written back is a part of the one that was read
    have hkept : ∀ hash ∈ ((auth.refreshTokenHashes.getD []).filter
        (· ≠ config.hashToken (.signed payload))).drop
          (((auth.refreshTokenHashes.getD []).filter
            (· ≠ config.hashToken (.signed payload))).length - 9),
        hash ∈ auth.refreshTokenHashes.getD [] ∧ hash ≠ config.hashToken (.signed payload) := by
      intro hash hh
      simpa using List.mem_of_mem_drop hh
    refine h.of_write _ (minted_append rfl) hnew (fun a hash hh => mem_hashes_updateAuth rfl hh)
      (fun hash hh => hknown hash (hkept hash hh).1) ?_ ?_
    · intro e he payload' hsome hsub hmem
      exact hlive e he payload' hsome (hsub.trans hid) (hkept _ hmem).1
    · intro payload' hsome
      obtain rfl : payload = payload' := Option.some.inj (hexchanges.symm.trans hsome)
      exact ⟨hid.symm, hknown _ hstored, fun hmem => (hkept _ hmem).2 rfl⟩

/-- The stored hashes are exclusive after every chronicle. -/
theorem exclusive_of_chronicle (hdistinct : Distinct config calls db)
    (hc : Chronicle serve (Rotation config calls) db s es) : Exclusive config calls db s es := by
  have hnil : Exclusive config calls db db ([] : List (AuthEvent ι)) :=
    ⟨fun authId _ hh => .inl ⟨authId, hh⟩, fun _ he => (by cases he), fun _ he => (by cases he)⟩
  exact hc.strong_invariant hnil fun e es hc h hearlier hok =>
    exclusive_step hdistinct hc h hearlier hok

/-- A token is not exchanged again. -/
theorem not_exchanged_again (hdistinct : Distinct config calls db) {new old : List (AuthEvent ι)}
    {e e' : AuthEvent ι} (hc : Chronicle serve (Rotation config calls) db s (new ++ e' :: old))
    (he : e ∈ old) (h : exchanges calls e.thread e.command = some payload) :
    exchanges calls e'.thread e'.command ≠ some payload := by
  intro h'
  obtain ⟨hold, ⟨hrule, hunrivalled⟩, -⟩ := hc.before
  obtain ⟨auth, hread, hstored⟩ := read_of_exchanges hrule h'
  have hearlier : ∀ new r older, old = new ++ r :: older →
      Exclusive config calls db r.before older :=
    fun new r older hsplit => exclusive_of_chronicle hdistinct (hsplit ▸ hold).before.1
  obtain ⟨-, -, hlive⟩ := known_read hold hearlier hread hunrivalled (h' ▸ nofun)
  exact hlive e he payload h rfl hstored

/-- **Each refresh token is exchanged at most once**, when no refresh exchanges a token of a list
between the `SELECT` and the `UPDATE` of the list by another refresh: whatever the interleaving of
any number of logins, refreshes and logouts. -/
theorem exchanged_once (hdistinct : Distinct config calls db) {is : List ι}
    {c : Config AuthCommand AuthCommand.Reply AuthError (Except AuthError AuthReply) ι
      (AuthDb × List (AuthEvent ι))}
    (hrun : (exchanging config calls db).run (authMachine ι) is = some c)
    (hunrivalled : (exchanging config calls db).Admitted (authMachine ι)
      (Unrivalled config calls) is)
    {i j : ι} {refreshToken : TokenText} {sessionIdᵢ sessionIdⱼ : String}
    {replyᵢ replyⱼ : AuthReply} (hi : calls i = .refreshTokens refreshToken sessionIdᵢ)
    (hj : calls j = .refreshTokens refreshToken sessionIdⱼ)
    (hreturnedᵢ : (c.threads i).result = some (.ok replyᵢ))
    (hreturnedⱼ : (c.threads j).result = some (.ok replyⱼ)) :
    i = j := by
  obtain ⟨hc, hdone⟩ := chronicle_of_keeps (fun i => tokenCall_keeps (calls i) i) hrun hunrivalled
  obtain ⟨payload, rfl, e, he, l, hl, hne⟩ := hdone i _ (Prog.result_eq_some.mp hreturnedᵢ) _ _ hi
  obtain ⟨payload', htoken, e', he', l', hl', hne'⟩ :=
    hdone j _ (Prog.result_eq_some.mp hreturnedⱼ) _ _ hj
  obtain rfl : payload = payload' := TokenText.signed.inj htoken
  obtain ⟨hmem, rfl⟩ := mem_own.mp he
  obtain ⟨hmem', rfl⟩ := mem_own.mp he'
  have hx : exchanges calls e.thread e.command = some payload :=
    exchanges_eq_some hi (by simpa [hl] using hne)
  have hx' : exchanges calls e'.thread e'.command = some payload :=
    exchanges_eq_some hj (by simpa [hl'] using hne')
  by_contra hthreads
  -- one of the two statements is the older one
  obtain ⟨new, old, hsplit⟩ := List.append_of_mem hmem
  rw [hsplit] at hc hmem'
  rcases List.mem_append.mp hmem' with hmem' | hmem'
  · obtain ⟨newer, older, rfl⟩ := List.append_of_mem hmem'
    rw [List.append_assoc, List.cons_append] at hc
    exact not_exchanged_again hdistinct hc (List.mem_append_right _ List.mem_cons_self) hx hx'
  · rcases List.mem_cons.mp hmem' with rfl | hmem'
    · exact hthreads rfl
    · exact not_exchanged_again hdistinct hc hmem' hx' hx

end Runs

/-! ## Examples -/

/-- A refresh token of Alice. -/
def aliceToken : JwtPayload := aliceRefreshToken "t"

/-- Alice's account, with a refresh token. -/
def aliceDb : AuthDb where
  auths := Table.save .empty
    { aliceAuth with refreshTokenHashes := some [TokenText.digest (.signed aliceToken)] }
  sessions := .empty
  users := Table.save .empty aliceUser
  clock := 0

/-- Alice logs in, and refreshes her token twice. -/
def loginAndRefreshes : Fin 3 → TokenCall
  | 0 => .refreshTokens (.signed aliceToken) "t₀"
  | 1 => .refreshTokens (.signed aliceToken) "t₁"
  | 2 => .login ⟨"alice@peerx.io", "secret", none, none⟩ ⟨"t₂", "s", "st"⟩ none none

theorem distinct_loginAndRefreshes : Distinct spelledOut loginAndRefreshes aliceDb := by
  refine ⟨digest_injective, by decide, fun i payload authId htoken hstored => ?_⟩
  have hhashes : aliceDb.hashes authId = if authId = "a"
      then [TokenText.digest (.signed aliceToken)] else [] := by
    by_cases ha : authId = "a" <;> simp [AuthDb.hashes, aliceDb, Table.find_save, aliceAuth, ha]
  rw [hhashes] at hstored
  split at hstored
  · obtain rfl := TokenText.signed.inj (digest_injective (List.mem_singleton.mp hstored))
    revert htoken
    revert i
    decide
  · cases hstored

/-- The first refresh returns tokens while Alice logs in, and the second one finds that the token
was used. -/
theorem exchanged_once_overlapping : ∃ c,
    (exchanging spelledOut loginAndRefreshes aliceDb).run (authMachine (Fin 3))
      ([2, 0, 2, 0] ++ List.replicate 4 2 ++ List.replicate 3 0 ++ List.replicate 4 2 ++
        List.replicate 4 1) = some c ∧
    (c.threads 0).result = some (.ok (.tokens (alicePair "t₀"))) ∧ (c.threads 1).returned = true ∧
    ∀ reply, (c.threads 1).result ≠ some (.ok reply) := by
  have hrun : ((exchanging spelledOut loginAndRefreshes aliceDb).run (authMachine (Fin 3))
      ([2, 0, 2, 0] ++ List.replicate 4 2 ++ List.replicate 3 0 ++ List.replicate 4 2 ++
        List.replicate 4 1)).any
        fun c => (c.threads 0).result = some (.ok (.tokens (alicePair "t₀"))) ∧
          (c.threads 1).returned = true := by
    decide +kernel
  obtain ⟨c, hc, hfinal⟩ := (Option.any_eq_true _ _).mp hrun
  obtain ⟨hfirst, hreturned⟩ := of_decide_eq_true hfinal
  refine ⟨c, hc, hfirst, hreturned, fun reply hsecond => ?_⟩
  have hsame := exchanged_once distinct_loginAndRefreshes hc (by decide +kernel) (i := 0)
    (j := 1) rfl rfl hfirst hsecond
  exact absurd hsame (by decide)

/-- **A refresh token is exchanged twice.** Both refreshes read the list before one of them writes
it. -/
theorem exchanged_twice : ∃ c,
    (exchanging spelledOut loginAndRefreshes aliceDb).run (authMachine (Fin 3))
      ([0, 0, 1, 1] ++ List.replicate 3 0 ++ List.replicate 3 1) = some c ∧
    Distinct spelledOut loginAndRefreshes aliceDb ∧
    (c.threads 0).result = some (.ok (.tokens (alicePair "t₀"))) ∧
    (c.threads 1).result = some (.ok (.tokens (alicePair "t₁"))) := by
  have hrun : ((exchanging spelledOut loginAndRefreshes aliceDb).run (authMachine (Fin 3))
      ([0, 0, 1, 1] ++ List.replicate 3 0 ++ List.replicate 3 1)).any fun c =>
        (c.threads 0).result = some (.ok (.tokens (alicePair "t₀"))) ∧
          (c.threads 1).result = some (.ok (.tokens (alicePair "t₁"))) := by
    decide +kernel
  obtain ⟨c, hc, hfinal⟩ := (Option.any_eq_true _ _).mp hrun
  exact ⟨c, hc, distinct_loginAndRefreshes, of_decide_eq_true hfinal⟩

end Identity
