import PeerX.Identity.Digest
import PeerX.Identity.Outcomes
import PeerX.Foundations.Runs

/-!
# Identity: the second factor

A setup by authenticator app stores its new secret on the account at once, in the column that a
login reads; the verification stores the secret that the client sends with a code for it, and
enables the second factor. Disabling leaves the secret where it is, since an undefined property is
not written. Calls come one after the other.

## Main results

* `keepsFactors_login`: a login leaves the second factor alone
* `confirmed_step_iff`: what one call does to the second factor
* `confirmed_iff`: every enabled factor is a confirmed one in every state, or a call is at fault
-/

namespace Identity

open Concurrency Relational

/-! ## The service -/

/-- The settings, and the verification without a `window`. -/
structure TwoFactorConfig extends AuthConfig where
  verifySetup : String → String → ℤ → Bool

/-- The columns of the second factor in an entity, each of them defined or not. -/
structure FactorEntity where
  is2FAEnabled : Option Bool := none
  totpSecret : Option (Option String) := none
  smsCode : Option (Option String) := none
  smsCodeExpiry : Option (Option ℤ) := none
deriving DecidableEq

/-- The row with the properties of the entity that are defined. -/
def FactorEntity.write (entity : FactorEntity) (row : Auth) : Auth :=
  { row with
    is2FAEnabled := entity.is2FAEnabled.getD row.is2FAEnabled
    totpSecret := entity.totpSecret.getD row.totpSecret
    smsCode := entity.smsCode.getD row.smsCode
    smsCodeExpiry := entity.smsCodeExpiry.getD row.smsCodeExpiry }

/-- `authRepo.save` of an entity of the account. -/
def saveFactor (authId : String) (entity : FactorEntity) (db : AuthDb) : AuthDb :=
  { db with auths := writeRow db.auths authId entity.write }

/-- The `method` of a setup. -/
inductive TwoFactorMethod : Type
  | totp
  | sms
  | other (text : String)
deriving DecidableEq

structure Enable2FADto where
  method : TwoFactorMethod
  phoneNumber : Option String := none
deriving DecidableEq

structure Verify2FASetupDto where
  secret : String
  token : String
deriving DecidableEq

/-- What a setup returns. -/
inductive SetupReply : Type
  | totp (secret : String)
  | sms (phoneNumber : String)
deriving DecidableEq

/-- `AuthService.setup2FA`; `generated` is the generated secret or code. The account is not
asked whether its second factor is enabled. -/
def setup2FA (authId : String) (dto : Enable2FADto) (generated : String) (db : AuthDb) :
    Except AuthError SetupReply × AuthDb :=
  match db.auths.find authId with
  | none => (.error (.unauthorized "Auth record not found"), db)
  | some _ =>
    match dto.method with
    | .totp =>
      -- "temporarily", in the column that a login reads
      (.ok (.totp generated), saveFactor authId { totpSecret := some (some generated) } db)
    | .sms =>
      match dto.phoneNumber.filter (· ≠ "") with
      | none => (.error (.badRequest "Phone number is required for SMS 2FA"), db)
      | some phoneNumber =>
        (.ok (.sms phoneNumber), saveFactor authId
          { smsCode := some (some generated), smsCodeExpiry := some (some (db.reading + 300000)) } db.tick)
    | .other _ => (.error (.badRequest "Unsupported 2FA method"), db)

/-- `AuthService.verify2FASetup`; the recovery codes are generated, and not stored. -/
def verify2FASetup (config : TwoFactorConfig) (authId : String) (dto : Verify2FASetupDto)
    (recoveryCodes : List String) (db : AuthDb) : Except AuthError (List String) × AuthDb :=
  match db.auths.find authId with
  | none => (.error (.notFound "Auth record not found"), db)
  | some _ =>
    if config.verifySetup dto.token dto.secret db.reading then
      (.ok recoveryCodes,
        saveFactor authId { totpSecret := some (some dto.secret), is2FAEnabled := some true } db.tick)
    else (.error (.badRequest "Invalid TOTP token — verify setup failed"), db.tick)

/-- `AuthService.disable2FA`. The secret and the code are set to `undefined`, and stay in the
row. -/
def disable2FA (config : TwoFactorConfig) (authId code : String) (db : AuthDb) : Except AuthError Unit × AuthDb :=
  match db.auths.find authId with
  | none => (.error (.notFound "Auth record not found"), db)
  | some auth =>
    if auth.is2FAEnabled then
      match (verify2FACode config.toAuthConfig auth code).eval serve db with
      | (.ok true, db) => (.ok (), saveFactor authId { is2FAEnabled := some false } db)
      | (.ok false, db) => (.error (.unauthorized "Invalid 2FA code"), db)
      | (.error e, db) => (.error e, db)
    else (.error (.badRequest "2FA is not enabled"), db)

/-! ## Calls -/

inductive FactorCall : Type
  | setup (authId : String) (dto : Enable2FADto) (generated : String)
  | verifySetup (authId : String) (dto : Verify2FASetupDto) (recoveryCodes : List String)
  | disable (authId code : String)
  | login (dto : LoginDto) (ids : LoginIds) (ipAddress userAgent : Option String)

/-- The tables, and the secrets for which an account has presented a valid code in a
verification. -/
structure Factors where
  db : AuthDb
  confirmed : List (String × String) := []

/-- The tables after a call. -/
def factorStep (config : TwoFactorConfig) (s : Factors) : FactorCall → Factors
  | .setup authId dto generated => { s with db := (setup2FA authId dto generated s.db).2 }
  | .verifySetup authId dto recoveryCodes =>
    let (reply, db) := verify2FASetup config authId dto recoveryCodes s.db
    match reply with
    | .ok _ => { db, confirmed := (authId, dto.secret) :: s.confirmed }
    | .error _ => { s with db }
  | .disable authId code => { s with db := (disable2FA config authId code s.db).2 }
  | .login dto ids ipAddress userAgent =>
    { s with db := ((login config.toAuthConfig dto ids ipAddress userAgent).eval serve s.db).2 }

/-- The secret that a login checks: `verify2FACode` takes an empty text for none. -/
def Auth.checkedSecret (auth : Auth) : Option String := auth.totpSecret.filter (· ≠ "")

/-- Every enabled factor is a confirmed one: the secret that a login checks is one for which a
valid code was presented. -/
def Confirmed (s : Factors) : Prop :=
  ∀ authId, ∀ auth ∈ s.db.auths.find authId, auth.is2FAEnabled = true →
    ∃ secret ∈ auth.checkedSecret, (authId, secret) ∈ s.confirmed

/-- No call puts an unconfirmed secret in the place of the factor: a setup by app comes to an
account whose second factor is not enabled, or generates a secret that was confirmed before; and no
empty secret is verified. -/
def NoOverwrite (config : TwoFactorConfig) (s : Factors) : FactorCall → Prop
  | .setup authId dto generated =>
    dto.method = .totp → ∀ auth ∈ s.db.auths.find authId, auth.is2FAEnabled = true →
      generated ≠ "" ∧ (authId, generated) ∈ s.confirmed
  | .verifySetup authId dto _ =>
    (s.db.auths.find authId).isSome → config.verifySetup dto.token dto.secret s.db.reading → dto.secret ≠ ""
  | _ => True

/-! ## The columns of the second factor -/

/-- What a login reads of the second factor by app. -/
def Auth.factor (auth : Auth) : Bool × Option String := (auth.is2FAEnabled, auth.totpSecret)

/-- No account has changed its second factor by app. -/
def KeepsFactors (db db' : AuthDb) : Prop :=
  ∀ authId, (db'.auths.find authId).map Auth.factor = (db.auths.find authId).map Auth.factor

theorem keepsFactors_refl (db : AuthDb) : KeepsFactors db db := fun _ => rfl

theorem KeepsFactors.trans {db₁ db₂ db₃ : AuthDb} (h : KeepsFactors db₁ db₂) (h' : KeepsFactors db₂ db₃) :
    KeepsFactors db₁ db₃ :=
  fun authId => (h' authId).trans (h authId)

section Columns

variable {db db' : AuthDb} {confirmed : List (String × String)}

theorem keepsFactors_writeRow {f : Auth → Auth} (hid : ∀ row, (f row).id = row.id)
    (hf : ∀ row, (f row).factor = row.factor) (id : String) :
    KeepsFactors db { db with auths := writeRow db.auths id f } := by
  intro authId
  dsimp only
  rw [find_writeRow hid]
  split
  next h =>
    subst h
    rw [Option.map_map]
    exact congrFun (congrArg Option.map (funext hf)) _
  · rfl

/-- A statement that inserts no account leaves the factors alone. -/
theorem keepsFactors_serve {c : AuthCommand} (hc : c.inserts = false) : KeepsFactors db (serve c db).2 := by
  unfold serve
  cases c.refusal db with
  | some message => exact keepsFactors_refl db
  | none =>
    cases c with
    | insertAuth auth => cases hc
    | saveAuth entity row => exact keepsFactors_writeRow (entity.diff row).id_write (fun _ => rfl) _
    | updateAuth columns => exact keepsFactors_writeRow columns.id_write (fun _ => rfl) _
    | removeHash authId hash => exact keepsFactors_writeRow (f := (·.removeHash hash)) (fun _ => rfl) (fun _ => rfl) _
    | _ => exact keepsFactors_refl _

theorem KeepsFactors.of_within {α : Type} {A : α → Prop} {p : AuthTask α}
    (hp : p.Within (fun c => c.inserts = false) A) : KeepsFactors db (p.eval serve db).2 :=
  (hp.yields keepsFactors_refl (fun _ _ _ h h' => h.trans h') fun _ _ hc => keepsFactors_serve hc).1

theorem confirmed_congr (h : KeepsFactors db db') : Confirmed ⟨db', confirmed⟩ ↔ Confirmed ⟨db, confirmed⟩ := by
  have haccount : ∀ {d d' : AuthDb}, KeepsFactors d d' → Confirmed ⟨d, confirmed⟩ → Confirmed ⟨d', confirmed⟩ := by
    intro d d' h hd authId auth hauth henabled
    have hfactor := h authId
    have hfind : d'.auths.find authId = some auth := hauth
    rw [hfind] at hfactor
    obtain ⟨row, hrow, hsame⟩ := Option.map_eq_some_iff.mp hfactor.symm
    have henabled' : row.is2FAEnabled = true := (congrArg Prod.fst hsame).trans henabled
    obtain ⟨secret, hsecret, hmem⟩ := hd authId row hrow henabled'
    have htotp : row.totpSecret = auth.totpSecret := congrArg Prod.snd hsame
    refine ⟨secret, ?_, hmem⟩
    rwa [Auth.checkedSecret, ← htotp]
  exact ⟨haccount fun authId => (h authId).symm, haccount h⟩

end Columns

/-! ## Logins -/

section Login

variable (config : AuthConfig) {db : AuthDb}

theorem inserts_openSession (auth : Auth) (entity : AuthEntity) (dto : LoginDto) (ids : LoginIds)
    (ipAddress userAgent : Option String) :
    (openSession config auth entity dto ids ipAddress userAgent).Within (fun c => c.inserts = false)
      fun _ => True := by
  refine within_issue_bind rfl fun user => ?_
  cases user with
  | none => exact within_throw _
  | some user =>
    refine within_bind (within_issue_bind rfl fun now => within_ret trivial) fun tokens (_ : True) => ?_
    refine within_issue_bind rfl fun now => ?_
    refine within_issue_bind rfl fun _ => ?_
    exact within_issue_bind rfl fun _ => within_ret trivial

/-- **A login leaves the second factors alone.** -/
theorem keepsFactors_login (dto : LoginDto) (ids : LoginIds) (ipAddress userAgent : Option String) :
    KeepsFactors db ((login config dto ids ipAddress userAgent).eval serve db).2 := by
  rw [login_eq]
  refine KeepsFactors.of_within (A := fun _ => True) (within_issue_bind rfl fun auth => ?_)
  cases auth with
  | none => exact within_throw _
  | some auth =>
    refine within_bind ((checking_loginChecks config auth dto ipAddress).mono (fun _ hc => hc.2) fun _ ha => ha) ?_
    intro entity _
    exact inserts_openSession config auth entity dto ids ipAddress userAgent

theorem keepsFactors_verify2FACode (db : AuthDb) (auth : Auth) (code : String) :
    KeepsFactors db ((verify2FACode config auth code).eval serve db).2 :=
  KeepsFactors.of_within ((checking_verify2FACode config auth code).mono (fun _ hc => hc.2) fun _ ha => ha)

end Login

/-! ## One call -/

section Step

variable {config : TwoFactorConfig} {s : Factors} {db : AuthDb} {confirmed : List (String × String)}

theorem find_saveFactor (db : AuthDb) (authId : String) (entity : FactorEntity) (a : String) :
    (saveFactor authId entity db).auths.find a =
      if a = authId then (db.auths.find authId).map entity.write else db.auths.find a :=
  find_writeRow (f := entity.write) (fun _ => rfl) db.auths authId a

theorem keepsFactors_tick (db : AuthDb) : KeepsFactors db db.tick := fun _ => rfl

/-- A save that leaves the other accounts alone is judged by its own account. -/
theorem confirmed_saveFactor_iff {authId : String} {entity : FactorEntity} {row : Auth}
    (hrow : db.auths.find authId = some row) (h : Confirmed ⟨db, confirmed⟩) :
    Confirmed ⟨saveFactor authId entity db, confirmed⟩ ↔
      ((entity.write row).is2FAEnabled = true →
        ∃ secret ∈ (entity.write row).checkedSecret, (authId, secret) ∈ confirmed) := by
  have hown : (saveFactor authId entity db).auths.find authId = some (entity.write row) := by
    rw [find_saveFactor, if_pos rfl, hrow]
    rfl
  constructor
  · intro hall henabled
    exact hall authId _ hown henabled
  · intro howner a auth hauth henabled
    by_cases ha : a = authId
    · subst ha
      obtain rfl : entity.write row = auth := Option.some.inj (hown.symm.trans hauth)
      exact howner henabled
    · refine h a auth ?_ henabled
      have hother := find_saveFactor db authId entity a
      rw [if_neg ha] at hother
      exact hother ▸ hauth

theorem confirmed_setup_iff (h : Confirmed s) (authId : String) (dto : Enable2FADto) (generated : String) :
    Confirmed (factorStep config s (.setup authId dto generated)) ↔
      NoOverwrite config s (.setup authId dto generated) := by
  cases hrow : s.db.auths.find authId with
  | none =>
    simp only [factorStep, setup2FA, NoOverwrite, hrow]
    exact iff_of_true h fun _ auth hauth => nomatch hauth
  | some row =>
    simp only [factorStep, setup2FA, NoOverwrite, hrow]
    cases hmethod : dto.method with
    | totp =>
      dsimp only
      rw [confirmed_saveFactor_iff hrow h]
      constructor
      · rintro hsaved - auth hauth henabled
        obtain rfl : row = auth := Option.some.inj hauth
        obtain ⟨secret, hsecret, hmem⟩ := hsaved henabled
        obtain ⟨hsame, hne⟩ := Option.filter_eq_some_iff.mp hsecret
        obtain rfl : generated = secret := Option.some.inj hsame
        exact ⟨by simpa using hne, hmem⟩
      · intro hfree henabled
        obtain ⟨hne, hmem⟩ := hfree rfl row rfl henabled
        exact ⟨generated, Option.filter_eq_some_iff.mpr ⟨rfl, by simpa using hne⟩, hmem⟩
    | sms =>
      -- the code of a text message goes to other columns
      refine iff_of_true ?_ fun hne => nomatch hne
      dsimp only
      split
      · exact h
      · refine (confirmed_congr ((keepsFactors_tick s.db).trans ?_)).mpr h
        exact keepsFactors_writeRow (f := FactorEntity.write _) (fun _ => rfl) (fun _ => rfl) _
    | other text => exact iff_of_true h fun hne => nomatch hne

theorem confirmed_verifySetup_iff (h : Confirmed s) (authId : String) (dto : Verify2FASetupDto)
    (recoveryCodes : List String) :
    Confirmed (factorStep config s (.verifySetup authId dto recoveryCodes)) ↔
      NoOverwrite config s (.verifySetup authId dto recoveryCodes) := by
  cases hrow : s.db.auths.find authId with
  | none =>
    simp only [factorStep, verify2FASetup, NoOverwrite, hrow]
    exact iff_of_true h fun hsome => nomatch hsome
  | some row =>
    simp only [factorStep, verify2FASetup, NoOverwrite, hrow]
    by_cases hvalid : config.verifySetup dto.token dto.secret s.db.reading
    · simp only [hvalid, if_true, Option.isSome_some, true_imp_iff]
      have hmore : Confirmed ⟨s.db.tick, (authId, dto.secret) :: s.confirmed⟩ := by
        intro a auth hauth henabled
        obtain ⟨secret, hsecret, hmem⟩ := h a auth hauth henabled
        exact ⟨secret, hsecret, List.mem_cons_of_mem _ hmem⟩
      have htick : s.db.tick.auths.find authId = some row := hrow
      rw [confirmed_saveFactor_iff htick hmore]
      constructor
      · intro hsaved
        obtain ⟨secret, hsecret, -⟩ := hsaved rfl
        obtain ⟨hsame, hne⟩ := Option.filter_eq_some_iff.mp hsecret
        obtain rfl : dto.secret = secret := Option.some.inj hsame
        simpa using hne
      · intro hne _
        exact ⟨dto.secret, Option.filter_eq_some_iff.mpr ⟨rfl, by simpa using hne⟩, List.mem_cons_self⟩
    · simp only [hvalid]
      refine iff_of_true ?_ fun _ hfalse => absurd hfalse (by simp)
      exact (confirmed_congr (keepsFactors_tick s.db)).mpr h

theorem confirmed_disable (h : Confirmed s) (authId code : String) :
    Confirmed (factorStep config s (.disable authId code)) := by
  cases hrow : s.db.auths.find authId with
  | none =>
    simp only [factorStep, disable2FA, hrow]
    exact h
  | some row =>
    simp only [factorStep, disable2FA, hrow]
    split
    · have hkept := keepsFactors_verify2FACode config.toAuthConfig s.db row code
      have hverified : Confirmed ⟨_, s.confirmed⟩ := (confirmed_congr hkept).mpr h
      rcases hrun : (verify2FACode config.toAuthConfig row code).eval serve s.db with ⟨_ | valid, db'⟩
      · rw [hrun] at hverified
        exact hverified
      · rw [hrun] at hverified hkept
        cases valid with
        | false => exact hverified
        | true =>
          have hfind := hkept authId
          rw [hrow] at hfind
          obtain ⟨row', hrow', -⟩ := Option.map_eq_some_iff.mp hfind
          refine (confirmed_saveFactor_iff hrow' hverified).mpr fun henabled => ?_
          cases henabled
    · exact h

/-- **One call**: the enabled factors stay confirmed exactly when the call overwrites none. -/
theorem confirmed_step_iff (h : Confirmed s) (call : FactorCall) :
    Confirmed (factorStep config s call) ↔ NoOverwrite config s call := by
  cases call with
  | setup authId dto generated => exact confirmed_setup_iff h authId dto generated
  | verifySetup authId dto recoveryCodes => exact confirmed_verifySetup_iff h authId dto recoveryCodes
  | disable authId code => exact iff_of_true (confirmed_disable h authId code) trivial
  | login dto ids ipAddress userAgent =>
    exact iff_of_true ((confirmed_congr (keepsFactors_login config.toAuthConfig dto ids ipAddress userAgent)).mpr h)
      trivial

end Step

/-- **The second factor.** In every run of setups, verifications, disablings and logins, the secret
that a login checks is a confirmed one in every state in which the second factor is enabled, exactly
when no setup by app comes to an account whose second factor is enabled, with a secret that was not
confirmed, and no empty secret is verified. -/
theorem confirmed_iff (config : TwoFactorConfig) {s : Factors} (h : Confirmed s) (calls : List FactorCall) :
    Throughout (factorStep config) Confirmed s calls ↔ Along (factorStep config) (NoOverwrite config) s calls :=
  throughout_iff_along (I := fun _ => True) (fun _ _ _ => trivial) (fun _ call _ h => confirmed_step_iff h call)
    trivial h

/-! ## Alice -/

/-- The settings of the small runs: the code for a secret is the secret. -/
def echoed : TwoFactorConfig :=
  { spelledOut with
    verifyTotp := fun token secret _ => token = secret
    verifySetup := fun token secret _ => token = secret }

theorem confirmed_aliceStart : Confirmed ⟨aliceStart, []⟩ := by
  intro authId auth hauth henabled
  obtain rfl : auth = aliceAuth := by
    have hmem := Table.mem_of_find hauth
    simpa [aliceStart, Table.save, upsert] using hmem
  cases henabled

/-- Alice sets up an app and confirms it. -/
def aliceEnables : List FactorCall :=
  [.setup "a" { method := .totp } "first", .verifySetup "a" ⟨"first", "first"⟩ []]

theorem confirmed_iff_alice :
    Throughout (factorStep echoed) Confirmed ⟨aliceStart, []⟩ aliceEnables ↔
      Along (factorStep echoed) (NoOverwrite echoed) ⟨aliceStart, []⟩ aliceEnables :=
  confirmed_iff echoed confirmed_aliceStart aliceEnables

/-- **An abandoned setup**: Alice has confirmed her app, and a second setup, which nobody confirms,
takes its place; a code of the confirmed app is refused from then on, and one of the unconfirmed
secret is let in. -/
theorem second_setup_overwrites :
    let s := run (factorStep echoed) ⟨aliceStart, []⟩ (aliceEnables ++ [.setup "a" { method := .totp } "second"])
    ¬ Confirmed s ∧ s.confirmed = [("a", "first")] ∧
      ((login echoed.toAuthConfig ⟨"alice@peerx.io", "secret", some "first", none⟩ ⟨"t", "s", "st"⟩ none none).eval
        serve s.db).1 = .error (.unauthorized "Invalid 2FA code") ∧
      ((login echoed.toAuthConfig ⟨"alice@peerx.io", "secret", some "second", none⟩ ⟨"t", "s", "st"⟩ none none).eval
        serve s.db).1.isOk = true := by
  intro s
  have hrow : s.db.auths.find "a" =
      some { aliceAuth with totpSecret := some "second", is2FAEnabled := true } := by decide +kernel
  have hconfirmed : s.confirmed = [("a", "first")] := by decide +kernel
  refine ⟨fun h => ?_, hconfirmed, by decide +kernel, by decide +kernel⟩
  obtain ⟨secret, hsecret, hmem⟩ := h "a" _ hrow rfl
  obtain rfl : "second" = secret := Option.some.inj (Option.filter_eq_some_iff.mp hsecret).1
  rw [hconfirmed] at hmem
  exact absurd hmem (by decide)

end Identity
