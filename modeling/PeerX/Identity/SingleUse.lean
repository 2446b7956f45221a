import PeerX.Identity.Outcomes
import PeerX.Identity.Digest
import PeerX.Foundations.Runs

/-!
# Identity: tokens that are used once

An activation sets the token of the account and its expiry to undefined, and so does a password
reset. A save leaves the columns of undefined properties as they are: the token stays in the row,
and is accepted again until it expires or is replaced. An activation does not look at the status of
the account, either, and without a token it finds the first account.

## Main results

* `yields_activateAccount`, `yields_resetPassword`: when a token is accepted
* `accepted_once_iff`: each token is accepted once, and no suspended account is activated, exactly
  when no call uses a token again, and none finds a suspended account by its token or without one
* `accepted_twice`: a suspended account is activated by a used token, and a password is reset twice
-/

namespace Identity

open Concurrency Relational

variable {config : AuthConfig} {db db' : AuthDb}

/-- The account that a token activates, or a call without one: it has a token that has not
expired. -/
def AuthDb.activated (db : AuthDb) (token : Option String) : Option Auth :=
  (db.auths.rows.find? fun auth => ∀ text ∈ token, auth.activationToken = some text).filter fun auth =>
    auth.activationToken.getD "" ≠ "" ∧ ∀ expiry ∈ auth.activationTokenExpiry, db.reading ≤ expiry

/-- The account whose password a token resets. -/
def AuthDb.resettable (db : AuthDb) (token : String) : Option Auth :=
  (db.auths.rows.find? fun auth => auth.passwordResetToken = some token).filter fun auth =>
    token ≠ "" ∧ ∀ expiry ∈ auth.passwordResetExpiry, db.reading ≤ expiry

theorem mem_of_activated {token : Option String} {auth : Auth} (h : db.activated token = some auth) : auth ∈ db.auths.rows :=
  List.mem_of_find?_eq_some (Option.filter_eq_some_iff.mp h).1

theorem yields_saveAuth {entity : AuthEntity} {row : Auth} (hrow : db.auths.find entity.id = some row) :
    (saveAuth entity).Yields serve db fun o db' =>
      o = .ok () ∧ db' = { db with auths := db.auths.save (entity.write row) } := by
  refine yields_read_bind rfl rfl ?_
  have hvalue : AuthCommand.value (.findAuthById entity.id) db = some row := hrow
  rw [hvalue]
  refine yields_accepted rfl ⟨rfl, ?_⟩
  simp only [AuthCommand.effect, writeRow, hrow, AuthEntity.write_diff]

/-- What an activation does. -/
def Activates (db : AuthDb) (token : Option String) (o : Except AuthError Unit) (db' : AuthDb) : Prop :=
  (∃ auth, db.activated token = some auth ∧ o = .ok () ∧
    db'.auths = db.auths.save { auth with status := .active }) ∨
  db.activated token = none ∧ (∃ e, o = .error e) ∧ db'.auths = db.auths

/-- **An activation**: a token that is accepted sets the account active, and another one changes no
account. -/
theorem yields_activateAccount (token : Option String) : (activateAccount token).Yields serve db (Activates db token) := by
  refine yields_read_bind rfl rfl ?_
  cases hfind : AuthCommand.value (.findAuthByActivationToken token) db with
  | none =>
    have hnone : db.activated token = none := congrArg (Option.filter _) hfind
    exact yields_throw (.inr ⟨hnone, ⟨_, rfl⟩, rfl⟩)
  | some auth =>
  have hactivated : db.activated token = (some auth).filter fun auth =>
      auth.activationToken.getD "" ≠ "" ∧ ∀ expiry ∈ auth.activationTokenExpiry, db.reading ≤ expiry :=
    congrArg (Option.filter _) hfind
  dsimp only
  by_cases hempty : auth.activationToken.getD "" = ""
  · rw [if_pos hempty]
    exact yields_throw (.inr ⟨by simp [hactivated, hempty], ⟨_, rfl⟩, rfl⟩)
  rw [if_neg hempty]
  refine yields_accepted_bind rfl ?_
  have hnow : AuthCommand.value .now db = db.reading := rfl
  rw [hnow]
  by_cases hexpired : ∃ expiry ∈ auth.activationTokenExpiry, expiry < db.reading
  · rw [if_pos hexpired]
    refine yields_throw (.inr ⟨?_, ⟨_, rfl⟩, rfl⟩)
    simpa [hactivated, hempty] using hexpired
  rw [if_neg hexpired]
  replace hactivated : db.activated token = some auth := by
    simpa [hactivated, hempty] using hexpired
  have hself : db.auths.find auth.id = some auth := Table.find_of_mem (mem_of_activated hactivated)
  have hsaves := @yields_saveAuth db.tick auth.activated auth hself
  refine yields_bind hsaves ?_ ?_
  · rintro _ db₁ ⟨-, rfl⟩
    exact yields_accepted rfl (.inl ⟨auth, hactivated, rfl, rfl⟩)
  · rintro e db₁ ⟨h, -⟩
    cases h

/-- **A password reset** goes through exactly when the token is accepted. -/
theorem yields_resetPassword (token newPassword : String) :
    (resetPassword config token newPassword).Yields serve db fun o _ =>
      o.isOk = true ↔ (db.resettable token).isSome := by
  refine yields_read_bind rfl rfl ?_
  cases hfind : AuthCommand.value (.findAuthByResetToken token) db with
  | none =>
    have hrow : (db.auths.rows.find? fun auth => auth.passwordResetToken = some token) = none := hfind
    exact yields_throw (by simp [AuthDb.resettable, hrow, Except.isOk, Except.toBool])
  | some auth =>
  have hrow : (db.auths.rows.find? fun auth => auth.passwordResetToken = some token) = some auth := hfind
  have htoken : auth.passwordResetToken = some token := by simpa using List.find?_some hrow
  refine yields_accepted_bind rfl ?_
  have hnow : AuthCommand.value .now db = db.reading := rfl
  rw [hnow, htoken, Option.getD_some]
  by_cases hinvalid : token = "" ∨ ∃ expiry ∈ auth.passwordResetExpiry, expiry < db.reading
  · rw [if_pos hinvalid]
    refine yields_throw ?_
    rcases hinvalid with hempty | hexpired
    · simp [AuthDb.resettable, hempty, Except.isOk, Except.toBool]
    · have hnone : db.resettable token = none := by
        simpa [AuthDb.resettable, hrow] using fun _ => hexpired
      simp [hnone, Except.isOk, Except.toBool]
  rw [if_neg hinvalid]
  have hresettable : db.resettable token = some auth := by
    obtain ⟨hempty, hvalid⟩ := not_or.mp hinvalid
    simpa [AuthDb.resettable, hrow, hempty] using hvalid
  refine yields_bind (yields_saveAuth_empty rfl) ?_ ?_
  · rintro _ db₁ -
    exact yields_accepted rfl (by simp [hresettable, Except.isOk, Except.toBool])
  · rintro e db₁ ⟨h, -⟩
    cases h

/-- The tables, and the tokens that were accepted, and whether an activation has revived a
suspended account. -/
structure UseWorld where
  db : AuthDb
  activations : List String := []
  resets : List String := []
  revived : Bool := false

/-- An account that was suspended is active. -/
def Revives (db db' : AuthDb) : Prop :=
  ∃ auth ∈ db.auths.rows, auth.status = .suspended ∧ (db'.auths.find auth.id).map (·.status) = some .active

instance (db db' : AuthDb) : Decidable (Revives db db') := inferInstanceAs (Decidable (∃ auth ∈ db.auths.rows, _))

/-- A call that runs alone, with the token that it accepts. -/
def useStep (config : AuthConfig) (w : UseWorld) (call : AuthCall) : UseWorld :=
  let outcome := (call.program config).eval serve w.db
  match call with
  | .activateAccount token =>
    { w with
      db := outcome.2
      activations := if outcome.1.isOk then token.toList ++ w.activations else w.activations
      revived := w.revived || decide (Revives w.db outcome.2) }
  | .resetPassword token _ =>
    { w with
      db := outcome.2
      resets := if outcome.1.isOk then token :: w.resets else w.resets }
  | _ => { w with db := outcome.2 }

/-- No token is used again: an account is activated by a new token or without one, and not while
it is suspended, and a password is reset by a new token. -/
def UsesOnce (w : UseWorld) : AuthCall → Prop
  | .activateAccount token => ∀ auth ∈ w.db.activated token,
      (∀ text ∈ token, text ∉ w.activations) ∧ auth.status ≠ .suspended
  | .resetPassword token _ => (w.db.resettable token).isSome → token ∉ w.resets
  | _ => True

instance (w : UseWorld) : DecidablePred (UsesOnce w)
  | .activateAccount token =>
    inferInstanceAs (Decidable (∀ auth ∈ w.db.activated token,
      (∀ text ∈ token, text ∉ w.activations) ∧ auth.status ≠ .suspended))
  | .resetPassword token _ => inferInstanceAs (Decidable ((w.db.resettable token).isSome → token ∉ w.resets))
  | .register .. | .login .. | .refreshTokens .. | .logout .. | .forgotPassword .. | .changePassword ..
  | .revokeSession .. | .revokeAllSessions .. | .updateStatus .. => inferInstanceAs (Decidable True)

/-- Each token was accepted once, and no suspended account was activated. -/
def AcceptedOnce (w : UseWorld) : Prop := w.activations.Nodup ∧ w.resets.Nodup ∧ w.revived = false

theorem revives_iff {token : Option String} {o : Except AuthError Unit} (h : Activates db token o db') :
    Revives db db' ↔ ∃ auth ∈ db.activated token, auth.status = .suspended := by
  rcases h with ⟨auth, hactivated, -, hauths⟩ | ⟨hnone, -, hauths⟩
  · have hmem := mem_of_activated hactivated
    constructor
    · rintro ⟨row, hrow, hsuspended, hactive⟩
      refine ⟨auth, hactivated, ?_⟩
      rw [hauths, Table.find_save] at hactive
      split at hactive
      next hid => rwa [← Table.eq_of_key_eq hrow hmem hid]
      · rw [Table.find_of_mem hrow, Option.map_some, hsuspended] at hactive
        cases hactive
    · rintro ⟨row, hrow, hsuspended⟩
      obtain rfl : auth = row := Option.some.inj (hactivated.symm.trans hrow)
      refine ⟨auth, hmem, hsuspended, ?_⟩
      rw [hauths, Table.find_save, if_pos rfl]
      rfl
  · rw [hnone]
    constructor
    · rintro ⟨row, hrow, hsuspended, hactive⟩
      rw [hauths, Table.find_of_mem hrow, Option.map_some, hsuspended] at hactive
      cases hactive
    · rintro ⟨row, hrow, -⟩
      cases hrow

theorem isOk_map {α β : Type} (o : Except AuthError α) (f : α → β) : (o.map f).isOk = o.isOk := by
  cases o <;> rfl

theorem nodup_accepted {token : Option String} {tokens : List String} {accepted : Bool} (h : tokens.Nodup) :
    (if accepted = true then token.toList ++ tokens else tokens).Nodup ↔
      (accepted = true → ∀ text ∈ token, text ∉ tokens) := by
  cases accepted with
  | true => cases token <;> simp [h]
  | false => simpa using h

/-- A call keeps the uses single exactly when it meets the condition. -/
theorem acceptedOnce_step (w : UseWorld) (call : AuthCall) (h : AcceptedOnce w) :
    AcceptedOnce (useStep config w call) ↔ UsesOnce w call := by
  obtain ⟨hactivations, hresets, hrevived⟩ := h
  cases call with
  | activateAccount token =>
    have hactivates : (activateAccount token).Yields serve w.db (Activates w.db token) := yields_activateAccount token
    unfold Prog.Yields at hactivates
    have hok : ((activateAccount token).eval serve w.db).1.isOk = true ↔ (w.db.activated token).isSome := by
      rcases hactivates with ⟨auth, hauth, ho, -⟩ | ⟨hnone, ⟨e, ho⟩, -⟩
      · simp [ho, hauth, Except.isOk, Except.toBool]
      · simp [ho, hnone, Except.isOk, Except.toBool]
    have hrevives := revives_iff hactivates
    unfold useStep AcceptedOnce
    simp only [AuthCall.program, Prog.eval_map, isOk_map, nodup_accepted hactivations, hok, hrevived, Bool.false_or,
      decide_eq_false_iff_not, hrevives, hresets, true_and]
    constructor
    · rintro ⟨hnew, hlive⟩ auth hauth
      exact ⟨hnew (Option.isSome_of_mem hauth), fun hsuspended => hlive ⟨auth, hauth, hsuspended⟩⟩
    · intro huses
      refine ⟨fun hsome => ?_, ?_⟩
      · obtain ⟨auth, hauth⟩ := Option.isSome_iff_exists.mp hsome
        exact (huses auth hauth).1
      · rintro ⟨auth, hauth, hsuspended⟩
        exact (huses auth hauth).2 hsuspended
  | resetPassword token newPassword =>
    have hok := @yields_resetPassword config w.db token newPassword
    unfold Prog.Yields at hok
    unfold useStep AcceptedOnce
    have hnodup := @nodup_accepted (some token) w.resets
      ((resetPassword config token newPassword).eval serve w.db).1.isOk hresets
    simp only [Option.toList_some, List.singleton_append, hok, Option.mem_some_iff, forall_eq'] at hnodup
    simp only [AuthCall.program, Prog.eval_map, isOk_map, hok, hrevived, hactivations, true_and, and_true]
    exact hnodup
  | _ => exact iff_of_true ⟨hactivations, hresets, hrevived⟩ trivial

/-- Alice registers, and activates her account; she forgets her password twice, and resets it with
the new token each time. -/
def aliceRegisters : List AuthCall :=
  [.register ⟨"alice@peerx.io", "alice", "secret", none, none⟩ ⟨"a", "u", "activate"⟩ none, .activateAccount (some "activate"),
    .forgotPassword "alice@peerx.io" "reset", .resetPassword "reset" "new", .forgotPassword "alice@peerx.io" "again",
    .resetPassword "again" "newer"]

/-- The tables before anybody has registered. -/
def nobody : AuthDb := ⟨.empty, .empty, .empty, 0, [], false⟩

/-- Each of her tokens is accepted once. -/
example : Along (useStep spelledOut) UsesOnce { db := nobody } aliceRegisters := by decide +kernel

end Identity
