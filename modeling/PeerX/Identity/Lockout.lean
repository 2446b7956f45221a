import PeerX.Identity.Events
import PeerX.Identity.Digest

/-!
# Identity: the lockout

A login counts its failure from the row that it has read before the password was compared, and a
save writes the columns in which the entity of the login differs from the row. As long as nothing
comes in between a login's read and its save, each wrong password is counted, and the account is
locked in time; a login that comes in between is lost from the count, and one that saves late clears
the lock.

## Main results

* `login_rule`: a login issues the statements of the rule
* `attempts_step`: what every statement preserves
* `guesses_bounded`: the wrong passwords are bounded, and a lock stays until its end
* `guesses_unbounded`: concurrent logins that evade the lock
-/

namespace Identity

open Concurrency Relational

/-! ## Logins -/

structure LoginRequest where
  dto : LoginDto
  ids : LoginIds
  ipAddress : Option String := none
  userAgent : Option String := none

variable (config : AuthConfig) {ι : Type}

/-- The program of a login, which ends with tokens or an exception. -/
def LoginRequest.program (request : LoginRequest) : AuthTask (Except AuthError TokenPair) :=
  (login config request.dto request.ids request.ipAddress request.userAgent).attempt

/-- Any number of logins at the same time. -/
def loggingIn (requests : ι → LoginRequest) (db : AuthDb) :
    Config AuthCommand AuthCommand.Reply AuthError (Except AuthError TokenPair) ι
    (AuthDb × List (AuthEvent ι)) :=
  ⟨(db, []), fun i => (requests i).program config⟩

/-! ## The statements of a login -/

/-- The columns of the lockout. -/
structure Lockout where
  status : AccountStatus
  failedLoginAttempts : ℕ
  lockedUntil : Option ℤ
deriving DecidableEq

/-- The columns of the lockout of an account. -/
def Auth.lockout (auth : Auth) : Lockout :=
  ⟨auth.status, auth.failedLoginAttempts, auth.lockedUntil⟩

/-- The entity of a login after the lock check. -/
def Auth.checked (auth : Auth) : AuthEntity :=
  if auth.status = .locked then auth.entity.unlocked else auth.entity

/-- The failures that a login has counted before its own. -/
def Auth.failures (auth : Auth) : ℕ := if auth.status = .locked then 0 else auth.failedLoginAttempts

/-- The lock check lets the login in: a lock that the login has found has ended. -/
structure LetIn (auth : Auth) (past : List (AuthEvent ι)) : Prop where
  not_inactive : auth.status ≠ .inactive
  not_suspended : auth.status ≠ .suspended
  ended : auth.status = .locked → ∀ lockedUntil ∈ auth.lockedUntil, ∃ e ∈ past, e.command = .now ∧
    lockedUntil ≤ e.before.reading

/-- The entities that a login saves. -/
inductive Saves (auth : Auth) : AuthEntity → Prop
  | fails (h : ¬ config.maxAttempts ≤ auth.failures + 1) : Saves auth auth.checked.withFailure
  | locks (now : ℤ) (h : config.maxAttempts ≤ auth.failures + 1) :
  Saves auth (auth.checked.withFailure.lockedAt config now)
  | succeeds (now : ℤ) (ipAddress : Option String) :
  Saves auth (auth.checked.succeeded now ipAddress)

/-- The statement leaves the columns of the lockout alone. -/
def AuthCommand.Harmless : AuthCommand → Prop
  | .now | .findAuthById _ | .findUserByAuthId _ | .insertSession _ => True
  | .updateAuth columns => columns.status = none ∧ columns.failedLoginAttempts = none ∧
  columns.lockedUntil = none
  | _ => False

/-- The rule of a login: it compares the password when the lock check has let it in, and saves
the row that it has read, with its failure counted or its failures forgotten. -/
inductive LoginRule (email : String) (i : ι) : AuthCommand → List (AuthEvent ι) → Prop
  | harmless {c past} (hc : c.Harmless) : LoginRule email i c past
  | reads {past} : LoginRule email i (.findAuthByEmail email) past
  | compares {auth valid past}
  (hread : HasRead AuthCommand.readsByEmail i (.findAuthByEmail email) auth past)
    (hin : LetIn auth past) : LoginRule email i (.comparePassword valid) past
  | saves {auth entity row past}
  (hread : HasRead AuthCommand.readsByEmail i (.findAuthByEmail email) auth past)
    (hin : LetIn auth past) (hentity : Saves config auth entity) :
    LoginRule email i (.saveAuth entity row) past

variable {config} {i : ι} {past : List (AuthEvent ι)} {email : String} {auth : Auth}

/-- The state of a login that has been let in. -/
def Entered (email : String) (i : ι) (auth : Auth) (past : List (AuthEvent ι)) : Prop :=
  HasRead AuthCommand.readsByEmail i (.findAuthByEmail email) auth past ∧ LetIn auth past

theorem Entered.cons (h : Entered email i auth past) {e : AuthEvent ι}
    (he : e.command.readsByEmail = false) :
    Entered email i auth (e :: past) :=
  ⟨.cons h.1 he, h.2.not_inactive, h.2.not_suspended, fun hlocked lockedUntil hsome =>
    have ⟨e', he', h'⟩ := h.2.ended hlocked lockedUntil hsome
    ⟨e', List.mem_cons_of_mem _ he', h'⟩⟩

theorem failedLoginAttempts_checked (auth : Auth) :
    auth.checked.failedLoginAttempts.getD 0 = auth.failures := by
  unfold Auth.checked Auth.failures
  split <;> rfl

/-- A program of a login that has been let in. -/
def Inside (config : AuthConfig) (email : String) (i : ι) (auth : Auth) {α : Type}
    (p : AuthTask α) : Prop :=
  ∀ past, Entered email i auth past → p.Keeps serve (LoginRule config email i) i
    (fun _ past => Entered email i auth past) (fun _ _ => True) past

section Inside

variable {α β : Type}

theorem inside_ret (a : α) : Inside config email i auth (pure a) := fun _ h => keeps_ret h

theorem inside_throw (e : AuthError) : Inside config email i auth
    (throw e : AuthTask α) := fun _ _ => keeps_throw trivial

theorem inside_bind {p : AuthTask α} {f : α → AuthTask β} (hp : Inside config email i auth p)
    (hf : ∀ a, Inside config email i auth (f a)) : Inside config email i auth (p >>= f) :=
  fun past h => keeps_bind ((hp past h).mono fun a past h => hf a past h)

theorem inside_statement {c : AuthCommand} (hc : c.Harmless) :
    Inside config email i auth (statement c) := by
  have hread : c.readsByEmail = false := by
    cases c with
    | findAuthByEmail email => exact hc.elim
    | _ => rfl
  exact fun past h => keeps_issue (.harmless hc) (fun _ _ => h.cons hread) fun _ _ => trivial

theorem inside_saveAuth {entity : AuthEntity} (hentity : Saves config auth entity) :
    Inside config email i auth (saveAuth entity) := by
  refine inside_bind (inside_statement trivial) fun row => ?_
  cases row with
  | none => exact inside_ret _
  | some row =>
    exact fun past h => keeps_issue (.saves h.1 h.2 hentity)
      (fun _ _ => h.cons rfl) fun _ _ => trivial

theorem inside_handleFailedLogin : Inside config email i auth
    (handleFailedLogin config auth.checked) := by
  unfold handleFailedLogin
  rw [failedLoginAttempts_checked]
  split
  next hmax => exact inside_bind (inside_statement trivial) fun now =>
    inside_saveAuth (.locks now hmax)
  next hmax => exact inside_saveAuth (.fails hmax)

theorem inside_verify2FACode (code : String) :
    Inside config email i auth (verify2FACode config auth code) := by
  unfold verify2FACode
  split
  · exact inside_bind (inside_statement trivial) fun now => inside_ret _
  · split
    · exact inside_bind (inside_statement trivial) fun now => inside_ret _
    · exact inside_ret _

theorem inside_checkTwoFactor (code : Option String) :
    Inside config email i auth (checkTwoFactor config auth auth.checked code) := by
  unfold checkTwoFactor
  split
  · split
    · exact inside_throw _
    · refine inside_bind (inside_verify2FACode _) fun valid => ?_
      split
      · exact inside_bind inside_handleFailedLogin fun _ => inside_throw _
      · exact inside_ret _
  · exact inside_ret _

theorem inside_openSession {dto : LoginDto} {ids : LoginIds} {ipAddress userAgent : Option String}
    {entity : AuthEntity} :
    Inside config email i auth (openSession config auth entity dto ids ipAddress userAgent) := by
  refine inside_bind (inside_statement trivial) fun user => ?_
  cases user with
  | none => exact inside_throw _
  | some user =>
  refine inside_bind (inside_bind (inside_statement trivial) fun now => inside_ret _)
    fun tokens => ?_
  refine inside_bind (inside_statement trivial) fun now => ?_
  refine inside_bind (inside_statement trivial) fun _ => ?_
  exact inside_bind (inside_statement ⟨rfl, rfl, rfl⟩) fun _ => inside_ret _

end Inside

theorem keeps_checkLock
    (hread : HasRead AuthCommand.readsByEmail i (.findAuthByEmail email) auth past)
    (hinactive : auth.status ≠ .inactive) (hsuspended : auth.status ≠ .suspended) :
    (checkLock auth).Keeps serve (LoginRule config email i) i
      (fun entity past => entity = auth.checked ∧ Entered email i auth past)
      (fun _ _ => True) past := by
  unfold checkLock Auth.checked
  by_cases hlocked : auth.status = .locked
  · rw [if_pos hlocked, if_pos hlocked]
    split
    next hnone =>
      refine keeps_ret ⟨rfl, hread, hinactive, hsuspended, fun _ lockedUntil hsome => ?_⟩
      rw [hnone] at hsome
      cases hsome
    next lockedUntil hsome =>
      refine keeps_reply_bind (fun (_ : AuthDb) => rfl) (.harmless trivial) fun s => ?_
      split
      · exact keeps_issue_bind (.harmless trivial)
          (fun _ _ => keeps_throw trivial) fun _ _ => trivial
      next hended =>
        refine keeps_ret ⟨rfl, .cons hread rfl, hinactive, hsuspended,
          fun _ lockedUntil' hsome' => ?_⟩
        obtain rfl := Option.some.inj (hsome.symm.trans hsome')
        exact ⟨_, List.mem_cons_self, rfl, not_lt.mp hended⟩
  · rw [if_neg hlocked, if_neg hlocked]
    exact keeps_ret ⟨rfl, hread, hinactive, hsuspended, fun h => absurd h hlocked⟩

/-- **A login keeps the rule.** -/
theorem login_rule (request : LoginRequest) (i : ι) :
    (request.program config).Keeps serve (LoginRule config request.dto.email i) i (fun _ _ => True)
    (fun _ _ => True)
      [] := by
  refine keeps_attempt ?_
  rw [login_eq]
  refine keeps_issue_bind .reads (fun s found => ?_) fun _ _ => trivial
  cases found with
  | none => exact keeps_throw trivial
  | some auth =>
  have hread : HasRead AuthCommand.readsByEmail i (.findAuthByEmail request.dto.email) auth
      [(⟨i, s, .findAuthByEmail request.dto.email, .ok (some auth)⟩ : AuthEvent ι)] :=
        .read rfl rfl rfl rfl
  refine keeps_bind ?_
  unfold loginChecks
  split
  · exact keeps_throw trivial
  next hinactive =>
  split
  · exact keeps_throw trivial
  next hsuspended =>
  refine keeps_bind ((keeps_checkLock hread hinactive hsuspended).mono ?_)
  rintro _ past ⟨rfl, hentered⟩
  refine keeps_issue_bind (.compares hentered.1 hentered.2) (fun s valid => ?_) fun _ _ => trivial
  have hentered := hentered.cons
      (e := ⟨i, s, .comparePassword (config.compare request.dto.password auth.passwordHash),
    .ok valid⟩) rfl
  split
  · exact keeps_bind ((inside_handleFailedLogin _ hentered).mono fun _ _ _ => keeps_throw trivial)
  refine keeps_bind ((inside_checkTwoFactor _ _ hentered).mono fun _ past hentered => ?_)
  refine keeps_bind
    ((inside_statement (c := .now) trivial _ hentered).mono fun now past hentered => ?_)
  refine keeps_bind ((inside_saveAuth (.succeeds now _) _ hentered).mono fun _ past hentered => ?_)
  exact (inside_openSession _ hentered).mono fun _ _ _ => trivial

/-! ## Attempts -/

section Attempts

variable (email : String)

/-- The columns of the lockout of the account. -/
def AuthDb.lockout (db : AuthDb) : Option Lockout := (db.account email).map Auth.lockout

/-- The lock of the account holds. -/
def LockHolds (db : AuthDb) : Prop :=
  ∃ l ∈ db.lockout email, l.status = .locked ∧ ∃ lockedUntil ∈ l.lockedUntil, db.clock < lockedUntil

/-- The account is locked, and the lock has ended. -/
def LockEnded (db : AuthDb) : Prop :=
  ∃ l ∈ db.lockout email, l.status = .locked ∧ ∀ lockedUntil ∈ l.lockedUntil, lockedUntil ≤ db.clock

/-- The statement saves a login that has succeeded. -/
def AuthCommand.succeeds : AuthCommand → Bool
  | .saveAuth entity _ => entity.failedLoginAttempts = some 0
  | _ => false

/-- The statement saves a new lock. -/
def AuthCommand.locks : AuthCommand → Bool
  | .saveAuth entity _ => entity.status = some .locked
  | _ => false

/-- The tables after a statement. -/
def after (e : AuthEvent ι) : AuthDb := (serve e.command e.before).2

/-- A login succeeds, or a lock ends. -/
def StartsOver (e : AuthEvent ι) : Prop :=
  e.command.succeeds = true ∨ LockEnded email (after e) ∧
    (¬ LockEnded email e.before ∨ e.command.locks = true)

instance (db : AuthDb) : Decidable (LockHolds email db) :=
  inferInstanceAs (Decidable (∃ l ∈ db.lockout email, _ ∧ _))

instance (db : AuthDb) : Decidable (LockEnded email db) :=
  inferInstanceAs (Decidable (∃ l ∈ db.lockout email, _ ∧ _))

instance (e : AuthEvent ι) : Decidable (StartsOver email e) := inferInstanceAs (Decidable (_ ∨ _))

/-- The statement finds a password wrong. -/
def AuthCommand.finds : AuthCommand → Bool
  | .comparePassword valid => !valid
  | _ => false

/-- The wrong passwords since the last success or the last end of a lock. -/
def wrongs : List (AuthEvent ι) → ℕ
  | [] => 0
  | e :: es => if StartsOver email e then 0 else if e.command.finds then wrongs es + 1
    else wrongs es

variable [DecidableEq ι]

/-- The logins that have found a wrong password, and have not saved the account yet. -/
def unsaved : List (AuthEvent ι) → List ι
  | [] => []
  | e :: es =>
    match e.command with
    | .comparePassword false => e.thread :: unsaved es
    | .saveAuth _ _ => (unsaved es).filter (· ≠ e.thread)
    | _ => unsaved es

/-- Nothing has come in between: a wrong password is found when every earlier one has been
saved, and the columns of the lockout are then, and when the account is saved, as the login has read
them. -/
def Undisturbed (i : ι) (c : AuthCommand) (s : AuthDb × List (AuthEvent ι)) : Prop :=
  match c with
  | .comparePassword false => unsaved s.2 = [] ∧
    ∀ auth ∈ lastRead AuthCommand.readsByEmail i s.2, s.1.lockout email = some auth.lockout
  | .saveAuth _ row => ∀ auth ∈ lastRead AuthCommand.readsByEmail i s.2,
    s.1.lockout email = some auth.lockout ∧ row.lockout = auth.lockout
  | _ => True

instance (i : ι) (c : AuthCommand) (s : AuthDb × List (AuthEvent ι)) :
    Decidable (Undisturbed email i c s) := by
  unfold Undisturbed
  split <;> infer_instance

end Attempts

/-! ## The account after a statement -/

section Account

variable {db : AuthDb} {c : AuthCommand}

theorem account_writeRow {f : Auth → Auth} (hid : ∀ row, (f row).id = row.id)
    (hemail : ∀ row, (f row).email = row.email)
    (id : String) : AuthDb.account { db with auths := writeRow db.auths id f } email =
      (db.account email).map fun row => if row.id = id then f row else row := by
  unfold AuthDb.account
  dsimp only
  rw [rows_writeRow hid, List.find?_map]
  congr 1
  refine congrArg (fun p => List.find? p db.auths.rows) (funext fun row => ?_)
  simp only [Function.comp_apply]
  split
  · rw [hemail]
  · rfl

theorem id_account_writeRow {f : Auth → Auth} (hid : ∀ row, (f row).id = row.id)
    (hemail : ∀ row, (f row).email = row.email) (id : String) :
    (AuthDb.account { db with auths := writeRow db.auths id f } email).map
    (·.id) = (db.account email).map (·.id) := by
  rw [account_writeRow hid hemail, Option.map_map]
  congr 1
  funext row
  simp only [Function.comp_apply]
  split
  · exact hid row
  · rfl

/-- The account stands, with the columns of its lockout, and the clock goes on. -/
structure Stands (email : String) (db db' : AuthDb) : Prop where
  id : (db'.account email).map (·.id) = (db.account email).map (·.id)
  lockout : db'.lockout email = db.lockout email
  clock : db.clock ≤ db'.clock

theorem stands_refl (email : String) (db : AuthDb) : Stands email db db := ⟨rfl, rfl, le_rfl⟩

/-- A statement that is harmless leaves the account as it stands. -/
theorem stands_of_harmless (hc : c.Harmless) : Stands email db (serve c db).2 := by
  unfold serve
  cases hrefusal : c.refusal db with
  | some message => exact stands_refl email db
  | none =>
    cases c with
    | now => exact ⟨rfl, rfl, le_add_of_nonneg_right (Int.natCast_nonneg _)⟩
    | updateAuth columns =>
      obtain ⟨hstatus, hattempts, huntil⟩ := hc
      refine ⟨id_account_writeRow columns.id_write columns.email_write columns.id, ?_, le_rfl⟩
      unfold AuthDb.lockout
      change (AuthDb.account { db with auths := writeRow db.auths columns.id columns.write }
        email).map _ = _
      rw [account_writeRow columns.id_write columns.email_write, Option.map_map]
      congr 1
      funext row
      simp only [Function.comp_apply]
      split
      · simp [Auth.lockout, AuthEntity.write, hstatus, hattempts, huntil]
      · rfl
    | findAuthById | findUserByAuthId | insertSession => exact ⟨rfl, rfl, le_rfl⟩
    | _ => exact hc.elim

variable {db' : AuthDb}

theorem Stands.lockEnded (h : Stands email db db') (hended : LockEnded email db) :
    LockEnded email db' := by
  obtain ⟨l, hl, hlocked, huntil⟩ := hended
  exact ⟨l, h.lockout ▸ hl, hlocked, fun t ht => (huntil t ht).trans h.clock⟩

theorem lockHolds_or_lockEnded {l : Lockout} (hl : db.lockout email = some l)
    (hlocked : l.status = .locked) :
    LockHolds email db ∨ LockEnded email db := by
  by_cases h : ∃ t ∈ l.lockedUntil, db.clock < t
  · exact .inl ⟨l, hl, hlocked, h⟩
  · refine .inr ⟨l, hl, hlocked, fun t ht => not_lt.mp fun hlater => h ⟨t, ht, hlater⟩⟩

theorem not_lockHolds_of_lockEnded (h : LockEnded email db) : ¬ LockHolds email db := by
  rintro ⟨l', hl', -, t, ht, hlater⟩
  obtain ⟨l, hl, -, huntil⟩ := h
  obtain rfl : l = l' := Option.some.inj (hl.symm.trans hl')
  exact absurd hlater (not_lt.mpr (huntil t ht))

/-- A save of a row that was read as it stands writes the entity. -/
theorem lockout_saveAuth {entity : AuthEntity} {row : Auth} {l : Lockout}
    (hid : (db.account email).map (·.id) = some entity.id) (hl : db.lockout email = some l)
    (hrow : row.lockout = l) :
    (serve (.saveAuth entity row) db).2.lockout email =
      some ⟨entity.status.getD l.status, entity.failedLoginAttempts.getD l.failedLoginAttempts,
        entity.lockedUntil.getD l.lockedUntil⟩ := by
  obtain ⟨current, hcurrent, hcurrentId⟩ := Option.map_eq_some_iff.mp hid
  have haccount : ((AuthCommand.saveAuth entity row).effect db).account email =
      (db.account email).map fun r => if r.id = entity.id then (entity.diff row).write r else r :=
    account_writeRow (entity.diff row).id_write (entity.diff row).email_write entity.id
  have hlockout : current.lockout = l := by
    rw [AuthDb.lockout, hcurrent] at hl
    exact Option.some.inj hl
  unfold AuthDb.lockout
  change (((AuthCommand.saveAuth entity row).effect db).account email).map Auth.lockout = _
  rw [haccount, hcurrent, Option.map_some, if_pos hcurrentId, Option.map_some]
  subst hlockout
  simp only [Auth.lockout, Lockout.mk.injEq] at hrow
  obtain ⟨hstatus, hattempts, huntil⟩ := hrow
  simp [Auth.lockout, AuthEntity.write, AuthEntity.diff, ← hstatus, ← hattempts, ← huntil]

end Account

/-! ## What every statement preserves -/

section Counting

variable {db : AuthDb} {e : AuthEvent ι} {es : List (AuthEvent ι)}

theorem wrongs_of_not_finds (h : e.command.finds = false) (hover : ¬ StartsOver email e) :
    wrongs email (e :: es) = wrongs email es := by
  rw [wrongs, if_neg hover, h]
  rfl

theorem wrongs_cons_le (h : e.command.finds = false) :
    wrongs email (e :: es) ≤ wrongs email es := by
  rw [wrongs, h]
  split
  · exact Nat.zero_le _
  · exact le_rfl

theorem wrongs_of_startsOver (hover : StartsOver email e) : wrongs email (e :: es) = 0 := by
  rw [wrongs, if_pos hover]

variable [DecidableEq ι]

/-- The account that a call has found is the account of the email. -/
def Finds (email : String) (db : AuthDb) (es : List (AuthEvent ι)) : Prop :=
  ∀ r ∈ es, r.command = .findAuthByEmail email → ∀ auth ∈ accountFound r,
    (db.account email).map (·.id) = some auth.id

/-- The wrong passwords are counted: those that are saved by the row, and at most one more by
its login. -/
structure Counted (config : AuthConfig) (email : String) (db : AuthDb)
    (es : List (AuthEvent ι)) : Prop where
  clock : ∀ e ∈ es, e.command = .now → e.before.reading ≤ db.clock
  found : Finds email db es
  counted : ∀ l ∈ db.lockout email, wrongs email es ≤
    (if LockEnded email db then 0 else l.failedLoginAttempts) + (unsaved es).length
  single : (unsaved es).length ≤ 1
  bound : wrongs email es ≤ config.maxAttempts
  room : unsaved es = [] → ¬ LockHolds email db → wrongs email es < config.maxAttempts
  kept : ∀ e ∈ es, LockHolds email e.before → (after e).lockout email = e.before.lockout email

/-- What a statement adds to the history: a time that it has read, an account that it has found, and
what it makes of a lock that holds. -/
theorem Counted.history (h : Counted config email e.before es)
    (hle : e.before.clock ≤ (after e).clock)
    (hclock : e.command = .now → e.before.reading ≤ (after e).clock)
    (hid : ((after e).account email).map (·.id) = (e.before.account email).map (·.id))
    (hfound : e.command = .findAuthByEmail email → ∀ auth ∈ accountFound e,
      (e.before.account email).map (·.id) = some auth.id)
    (hkept : LockHolds email e.before → (after e).lockout email = e.before.lockout email) :
    (∀ x ∈ e :: es, x.command = .now → x.before.reading ≤ (after e).clock) ∧
    Finds email (after e) (e :: es) ∧
      ∀ x ∈ e :: es, LockHolds email x.before →
      (after x).lockout email = x.before.lockout email := by
  refine ⟨List.forall_mem_cons.mpr ⟨hclock, fun x hx hnow => (h.clock x hx hnow).trans hle⟩, ?_,
    List.forall_mem_cons.mpr ⟨hkept, h.kept⟩⟩
  intro x hx hread auth hauth
  rw [hid]
  rcases List.mem_cons.mp hx with rfl | hx
  · exact hfound hread auth hauth
  · exact h.found x hx hread auth hauth

/-- A statement that neither saves the account nor finds a password wrong. -/
theorem Counted.of_stands (h : Counted config email e.before es) (hmax : 1 ≤ config.maxAttempts)
    (hstands : Stands email e.before (after e))
    (hclock : e.command = .now → e.before.reading ≤ (after e).clock)
    (hfound : e.command = .findAuthByEmail email → ∀ auth ∈ accountFound e,
      (e.before.account email).map (·.id) = some auth.id)
    (hfinds : e.command.finds = false) (hunsaved : unsaved (e :: es) = unsaved es) :
    Counted config email (after e) (e :: es) := by
  obtain ⟨hclocks, hfounds, hkept⟩ :=
    h.history hstands.clock hclock hstands.id hfound fun _ => hstands.lockout
  refine ⟨hclocks, hfounds, ?_, hunsaved ▸ h.single, ?_, ?_, hkept⟩
  · intro l hl
    rw [hunsaved]
    by_cases hover : StartsOver email e
    · rw [wrongs_of_startsOver hover]
      exact Nat.zero_le _
    rw [wrongs_of_not_finds hfinds hover]
    have hcounted := h.counted l (hstands.lockout ▸ hl)
    by_cases hbefore : LockEnded email e.before
    · rw [if_pos hbefore] at hcounted
      rwa [if_pos (hstands.lockEnded hbefore)]
    · rw [if_neg hbefore] at hcounted
      rwa [if_neg fun hended => hover (.inr ⟨hended, .inl hbefore⟩)]
  · exact (wrongs_cons_le hfinds).trans h.bound
  · intro hempty hholds
    by_cases hover : StartsOver email e
    · rw [wrongs_of_startsOver hover]
      exact hmax
    rw [wrongs_of_not_finds hfinds hover]
    refine h.room (hunsaved ▸ hempty) fun hbefore => ?_
    -- the lock that has held has not ended, so that it still holds
    obtain ⟨l, hl, hlocked, -⟩ := id hbefore
    rcases lockHolds_or_lockEnded (hstands.lockout.trans hl) hlocked with hafter | hafter
    · exact hholds hafter
    · exact hover (.inr ⟨hafter, .inl fun hended => not_lockHolds_of_lockEnded hended hbefore⟩)

/-- A login that has been let in finds no lock in force, when the account is as it was read. -/
theorem Counted.not_lockHolds (h : Counted config email db es) (hin : LetIn auth (own i es))
    (hlockout : db.lockout email = some auth.lockout) : ¬ LockHolds email db ∧
      (LockEnded email db ↔ auth.status = .locked) := by
  have hended : auth.status = .locked → LockEnded email db := by
    refine fun hlocked => ⟨auth.lockout, hlockout, hlocked, fun t ht => ?_⟩
    obtain ⟨r, hr, hnow, hle⟩ := hin.ended hlocked t ht
    exact hle.trans (h.clock r (mem_own.mp hr).1 hnow)
  refine ⟨?_, ?_, hended⟩
  · rintro ⟨l, hl, hlocked, hholds⟩
    obtain rfl : auth.lockout = l := Option.some.inj (hlockout.symm.trans hl)
    exact not_lockHolds_of_lockEnded (hended hlocked) ⟨_, hl, hlocked, hholds⟩
  · rintro ⟨l, hl, hlocked, -⟩
    obtain rfl : auth.lockout = l := Option.some.inj (hlockout.symm.trans hl)
    exact hlocked

/-- The wrong passwords, next to the failures that a login has read. -/
theorem Counted.wrongs_le (h : Counted config email db es) (hin : LetIn auth (own i es))
    (hlockout : db.lockout email = some auth.lockout) :
    wrongs email es ≤ auth.failures + (unsaved es).length := by
  have hcounted := h.counted auth.lockout hlockout
  have hiff := (h.not_lockHolds hin hlockout).2
  simp only [hiff] at hcounted
  exact hcounted

theorem id_of_saves {entity : AuthEntity} (h : Saves config auth entity) : entity.id = auth.id := by
  have hid : auth.checked.id = auth.id := by
    unfold Auth.checked
    split <;> rfl
  cases h <;> exact hid

theorem status_checked_ne (auth : Auth) : auth.checked.status.getD auth.status ≠ .locked := by
  unfold Auth.checked
  split
  · exact AccountStatus.noConfusion
  next h => exact h

/-- The columns of the lockout that a login saves. -/
def AuthEntity.lockout (entity : AuthEntity) (auth : Auth) : Lockout :=
  ⟨entity.status.getD auth.status, entity.failedLoginAttempts.getD auth.failedLoginAttempts,
    entity.lockedUntil.getD auth.lockedUntil⟩

section Save

variable {j : ι} {entity : AuthEntity} {row : Auth}
    {reply : AuthCommand.Reply (.saveAuth entity row)}

/-- The wrong passwords after the save of a login: those that the row has counted, or none. -/
theorem Counted.wrongs_of_save (h : Counted config email db es) (hmax : 1 ≤ config.maxAttempts)
    (hin : LetIn auth (own i es)) (hentity : Saves config auth entity)
    (hlockout : db.lockout email = some auth.lockout)
    (he : e = ⟨j, db, .saveAuth entity row, reply⟩)
    (hnew : (after e).lockout email = some (entity.lockout auth)) :
    (∀ l ∈ (after e).lockout email, wrongs email (e :: es) ≤
      (if LockEnded email (after e) then 0 else l.failedLoginAttempts) +
      (unsaved (e :: es)).length) ∧
      (¬ LockHolds email (after e) → wrongs email (e :: es) < config.maxAttempts) := by
  have hfinds : e.command.finds = false := by
    rw [he]
    rfl
  -- the row counts this failure and those that the login has read
  have hwrongs : wrongs email (e :: es) ≤ auth.failures + 1 := by
    have hbefore := (h.wrongs_le hin hlockout).trans (Nat.add_le_add_left h.single _)
    exact (wrongs_cons_le hfinds).trans hbefore
  have hcounted : ∀ l : Lockout, l.failedLoginAttempts = auth.failures + 1 →
      ¬ LockEnded email (after e) → wrongs email (e :: es) ≤
        (if LockEnded email (after e) then 0 else l.failedLoginAttempts) +
          (unsaved (e :: es)).length := by
    intro l hfailures hnot
    rw [if_neg hnot, hfailures]
    exact hwrongs.trans (Nat.le_add_right _ _)
  have hfailures : auth.checked.failedLoginAttempts.getD 0 + 1 = auth.failures + 1 := by
    rw [failedLoginAttempts_checked]
  cases hentity with
  | fails hless =>
    have hunlocked : ¬ LockEnded email (after e) := by
      rintro ⟨l, hl, hlocked, -⟩
      obtain rfl := Option.some.inj (hnew.symm.trans hl)
      exact status_checked_ne auth hlocked
    refine ⟨fun l hl => ?_, fun _ => hwrongs.trans_lt (not_le.mp hless)⟩
    obtain rfl := Option.some.inj (hnew.symm.trans hl)
    exact hcounted _ hfailures hunlocked
  | locks now hmost =>
    -- a lock of no time has ended as soon as it is saved
    by_cases hover : LockEnded email (after e)
    · rw [wrongs_of_startsOver
        (.inr ⟨hover, .inr (by simp [he, AuthCommand.locks, AuthEntity.lockedAt])⟩)]
      exact ⟨fun _ _ => Nat.zero_le _, fun _ => hmax⟩
    refine ⟨fun l hl => ?_, fun hnot => ?_⟩
    · obtain rfl := Option.some.inj (hnew.symm.trans hl)
      exact hcounted _ hfailures hover
    · rcases lockHolds_or_lockEnded hnew rfl with hafter | hafter
      · exact absurd hafter hnot
      · exact absurd hafter hover
  | succeeds now ipAddress =>
    rw [wrongs_of_startsOver (.inl (by simp [he, AuthCommand.succeeds, AuthEntity.succeeded]))]
    exact ⟨fun _ _ => Nat.zero_le _, fun _ => hmax⟩

/-- The save of a login, of an account that is as it was read. -/
theorem Counted.of_save (h : Counted config email db es) (hmax : 1 ≤ config.maxAttempts)
    (hin : LetIn auth (own i es)) (hentity : Saves config auth entity)
    (hid : (db.account email).map (·.id) = some auth.id)
    (hlockout : db.lockout email = some auth.lockout) (hrow : row.lockout = auth.lockout) :
    Counted config email (after (⟨j, db, .saveAuth entity row, reply⟩ : AuthEvent ι))
      (⟨j, db, .saveAuth entity row, reply⟩ :: es) := by
  set e : AuthEvent ι := ⟨j, db, .saveAuth entity row, reply⟩ with he
  have hnew : (after e).lockout email = some (entity.lockout auth) :=
    lockout_saveAuth (hid.trans (congrArg some (id_of_saves hentity).symm)) hlockout hrow
  have hsame : ((after e).account email).map (·.id) = (db.account email).map (·.id) :=
    id_account_writeRow (entity.diff row).id_write (entity.diff row).email_write entity.id
  have hshrinks : (unsaved (e :: es)).length ≤ (unsaved es).length := List.length_filter_le _ _
  have hkeeps : wrongs email (e :: es) ≤ wrongs email es := wrongs_cons_le rfl
  obtain ⟨hcounted, hroom⟩ := h.wrongs_of_save hmax hin hentity hlockout he hnew
  have hnone : ¬ LockHolds email db := (h.not_lockHolds hin hlockout).1
  obtain ⟨hclocks, hfounds, hkept⟩ := Counted.history (e := e) h le_rfl
    (fun hnow => by cases hnow) hsame
    (fun hread => by cases hread) fun hholds => absurd hholds hnone
  exact ⟨hclocks, hfounds, hcounted, hshrinks.trans h.single, hkeeps.trans h.bound,
    fun _ => hroom, hkept⟩

end Save

/-- A password is found wrong, when every earlier one has been saved. -/
theorem Counted.of_wrong {reply : AuthCommand.Reply (.comparePassword false)}
    (h : Counted config email db es) (hin : LetIn auth (own i es))
    (hlockout : db.lockout email = some auth.lockout) (hsaved : unsaved es = []) :
    Counted config email (after (⟨i, db, .comparePassword false, reply⟩ : AuthEvent ι))
      (⟨i, db, .comparePassword false, reply⟩ :: es) := by
  set e : AuthEvent ι := ⟨i, db, .comparePassword false, reply⟩ with he
  have hover : ¬ StartsOver email e := by
    rintro (hsucceeds | ⟨hended, hnot | hlocks⟩)
    · cases hsucceeds
    · exact hnot hended
    · cases hlocks
  have hwrongs : wrongs email (e :: es) = wrongs email es + 1 := by
    rw [wrongs, if_neg hover]
    rfl
  have hunsaved : unsaved (e :: es) = [i] := by
    rw [← hsaved]
    rfl
  obtain ⟨hclocks, hfounds, hkept⟩ := Counted.history (e := e) h le_rfl
    (fun hnow => by cases hnow) rfl
    (fun hread => by cases hread) fun _ => rfl
  refine ⟨hclocks, hfounds, fun l hl => ?_, ?_, ?_, fun hempty => ?_, hkept⟩
  · have hcounted := h.counted l hl
    rw [hsaved] at hcounted
    rw [hwrongs, hunsaved]
    exact Nat.succ_le_succ hcounted
  · rw [hunsaved]
    rfl
  · rw [hwrongs]
    exact h.room hsaved (h.not_lockHolds hin hlockout).1
  · rw [hunsaved] at hempty
    cases hempty

/-- The account that a login has read is the one of its last read. -/
theorem Counted.of_hasRead (h : Counted config email db es)
    (hread : HasRead AuthCommand.readsByEmail i (.findAuthByEmail email) auth (own i es)) :
    lastRead AuthCommand.readsByEmail i es = some auth ∧
    (db.account email).map (·.id) = some auth.id := by
  obtain ⟨new, r, old, rfl, hr, hcommand, hfound, hnone⟩ := split_of_hasRead hread
  refine ⟨(lastRead_eq hr hnone).trans hfound, h.found r ?_ hcommand auth hfound⟩
  exact List.mem_append_right _ List.mem_cons_self

/-- **What every statement of a login preserves.** -/
theorem attempts_step (hmax : 1 ≤ config.maxAttempts) (h : Counted config email e.before es)
    (hrule : LoginRule config email e.thread e.command (own e.thread es))
    (hundisturbed : Undisturbed email e.thread e.command (e.before, es))
    (hreply : e.reply = (serve e.command e.before).1) :
    Counted config email (after e) (e :: es) := by
  obtain ⟨i, db, c, reply⟩ := e
  cases hrule with
  | harmless hc =>
    have hstands : Stands email db (serve c db).2 := stands_of_harmless hc
    cases c with
    | now => exact h.of_stands hmax hstands (fun _ => le_rfl) (fun hread => by cases hread) rfl rfl
    | findAuthById | findUserByAuthId | insertSession | updateAuth =>
      exact h.of_stands hmax hstands (fun hnow => by cases hnow)
        (fun hread => by cases hread) rfl rfl
    | _ => exact hc.elim
  | reads =>
    refine h.of_stands hmax (stands_refl email db) (fun hnow => by cases hnow)
      (fun _ auth hauth => ?_) rfl rfl
    change reply = (serve (.findAuthByEmail email) db).1 at hreply
    subst hreply
    have hfound : db.account email = some auth := hauth
    rw [hfound]
    rfl
  | @compares auth valid _ hread hin =>
    obtain ⟨hlast, -⟩ := h.of_hasRead hread
    cases valid with
    | true =>
      exact h.of_stands hmax (stands_refl email db) (fun hnow => by cases hnow)
        (fun hr => by cases hr) rfl rfl
    | false => exact h.of_wrong hin (hundisturbed.2 auth hlast) hundisturbed.1
  | @saves auth entity row _ hread hin hentity =>
    obtain ⟨hlast, hid⟩ := h.of_hasRead hread
    obtain ⟨hlockout, hrow⟩ := hundisturbed auth hlast
    exact h.of_save hmax hin hentity hid hlockout hrow

end Counting

/-! ## The bound -/

section Runs

variable [DecidableEq ι]

/-- **The wrong passwords are bounded, and a lock stays until its end**: in every run of any number
of logins to an account, in which nothing has come in between when a password is found wrong or the
account is saved. -/
theorem guesses_bounded (hmax : 1 ≤ config.maxAttempts) {requests : ι → LoginRequest}
    (hemail : ∀ i, (requests i).dto.email = email) {db : AuthDb} {is : List ι}
    {c : Config AuthCommand AuthCommand.Reply AuthError (Except AuthError TokenPair) ι
      (AuthDb × List (AuthEvent ι))}
    (hrun : (loggingIn config requests db).run (authMachine ι) is = some c)
    (hundisturbed : (loggingIn config requests db).Admitted (authMachine ι)
      (Undisturbed email) is) :
    wrongs email c.shared.2 ≤ config.maxAttempts ∧
      ∀ e ∈ c.shared.2, LockHolds email e.before →
      (after e).lockout email = e.before.lockout email := by
  have hkeeps : ∀ i, ((requests i).program config).Keeps serve (LoginRule config email i) i
    (fun _ _ => True)
      (fun _ _ => True) [] := fun i => hemail i ▸ login_rule (requests i) i
  obtain ⟨hc, -⟩ := chronicle_of_keeps hkeeps hrun hundisturbed
  have hnil : Counted config email db ([] : List (AuthEvent ι)) :=
    ⟨fun _ he => (by cases he), fun _ he => (by cases he), fun _ _ => Nat.zero_le _, Nat.zero_le _,
      Nat.zero_le _,
      fun _ _ => hmax, fun _ he => (by cases he)⟩
  have hcounted :=
    hc.invariant hnil fun e es _ h hok hreply => attempts_step hmax h hok.1 hok.2 hreply
  exact ⟨hcounted.bound, hcounted.kept⟩

end Runs

/-- Six logins to Alice's account with a wrong password, and one with hers. -/
def sixGuesses (i : Fin 7) : LoginRequest where
  dto := ⟨"alice@peerx.io", if i = 6 then "secret" else "guess", none, none⟩
  ids := ⟨"t", "s", "st"⟩

/-- Five guesses, one after the other, lock the account; Alice's own login is refused then. -/
def oneByOne : List (Fin 7) :=
  ([0, 1, 2, 3] : List (Fin 7)).flatMap (List.replicate 4) ++ List.replicate 5 4 ++
    List.replicate 3 6

theorem guesses_bounded_oneByOne : ∃ c,
    (loggingIn spelledOut sixGuesses aliceStart).run (authMachine (Fin 7)) oneByOne = some c ∧
    LockHolds "alice@peerx.io" c.shared.1 ∧ wrongs "alice@peerx.io" c.shared.2 = 5 ∧
    ∀ e ∈ c.shared.2, LockHolds "alice@peerx.io" e.before →
      (after e).lockout "alice@peerx.io" = e.before.lockout "alice@peerx.io" := by
  have hrun : ((loggingIn spelledOut sixGuesses aliceStart).run
    (authMachine (Fin 7)) oneByOne).any fun c =>
      LockHolds "alice@peerx.io" c.shared.1 ∧ 5 ≤ wrongs "alice@peerx.io" c.shared.2 := by
    decide +kernel
  obtain ⟨c, hc, hfinal⟩ := (Option.any_eq_true _ _).mp hrun
  obtain ⟨hholds, hwrongs⟩ := of_decide_eq_true hfinal
  have hundisturbed : (loggingIn spelledOut sixGuesses aliceStart).Admitted (authMachine (Fin 7))
      (Undisturbed "alice@peerx.io") oneByOne := by
    decide +kernel
  have hmax : 1 ≤ spelledOut.maxAttempts := by decide
  have hemail : ∀ i, (sixGuesses i).dto.email = "alice@peerx.io" := fun _ => rfl
  obtain ⟨hbound, hkept⟩ := guesses_bounded hmax hemail hc hundisturbed
  exact ⟨c, hc, hholds, le_antisymm hbound hwrongs, hkept⟩

/-- **Six wrong passwords are evaluated**, when all logins read the account before one of them saves
it; and Alice's own login clears the lock of five guesses, when it has compared her password
before. -/
theorem guesses_unbounded :
    (∃ c, (loggingIn spelledOut sixGuesses aliceStart).run (authMachine (Fin 7))
        ([0, 1, 2, 3, 4, 5] ++ [0, 1, 2, 3, 4, 5]) = some c ∧
      spelledOut.maxAttempts < wrongs "alice@peerx.io" c.shared.2) ∧
    ∃ c, (loggingIn spelledOut sixGuesses aliceStart).run (authMachine (Fin 7))
        ([6, 6] ++ ([0, 1, 2, 3] : List (Fin 7)).flatMap (List.replicate 4) ++
          List.replicate 5 4 ++ [6, 6, 6]) = some c ∧
      ∃ e ∈ c.shared.2, e.thread = 6 ∧ LockHolds "alice@peerx.io" e.before ∧
        (after e).lockout "alice@peerx.io" = some ⟨.active, 0, none⟩ := by
  constructor
  · have hrun : ((loggingIn spelledOut sixGuesses aliceStart).run (authMachine (Fin 7))
        ([0, 1, 2, 3, 4, 5] ++ [0, 1, 2, 3, 4, 5])).any fun c =>
          spelledOut.maxAttempts < wrongs "alice@peerx.io" c.shared.2 := by
      decide +kernel
    obtain ⟨c, hc, hfinal⟩ := (Option.any_eq_true _ _).mp hrun
    exact ⟨c, hc, of_decide_eq_true hfinal⟩
  · have hrun : ((loggingIn spelledOut sixGuesses aliceStart).run (authMachine (Fin 7))
        ([6, 6] ++ ([0, 1, 2, 3] : List (Fin 7)).flatMap (List.replicate 4) ++ List.replicate 5 4 ++
          [6, 6, 6])).any
          fun c => ∃ e ∈ c.shared.2, e.thread = 6 ∧ LockHolds "alice@peerx.io" e.before ∧
            (after e).lockout "alice@peerx.io" = some ⟨.active, 0, none⟩ := by
      decide +kernel
    obtain ⟨c, hc, hfinal⟩ := (Option.any_eq_true _ _).mp hrun
    exact ⟨c, hc, of_decide_eq_true hfinal⟩

end Identity
