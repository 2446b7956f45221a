import PeerX.Messages.ZeroLoss

/-!
# Messages: a sweep alone

What a recovery sweep does when no other call runs. It leaves a message alone that is no orphan or
has a lease, and moves each orphan it has scanned: to `pending`, or to `failed` when its attempts
are exhausted.
-/

namespace Messages

open Concurrency

/-- The fields that a sweep assigns to an orphan. -/
def PersistedMessage.recovery (message : PersistedMessage) (now : ℕ) : List HashField :=
  if message.Below then [.status .pending, .updatedAt now]
  else [.status .failed, .error "Acknowledgment timeout", .failedAt (some now), .updatedAt now]

/-- The event of a sweep that has moved an orphan. -/
def PersistedMessage.recoveryEvent (message : PersistedMessage) (id : MessageId) : MessageEvent :=
  if message.Below then .requeued id "acknowledgment-timeout"
  else .failed id none (some "max-attempts-exceeded")

/-- The status of an orphan that was moved. -/
def PersistedMessage.recoveredStatus (message : PersistedMessage) : MessageStatus :=
  if message.Below then .pending else .failed

theorem setAll_recovery_status (message : PersistedMessage) (now : ℕ) (fields : MessageHash) :
    (fields.setAll (message.recovery now)).status = some message.recoveredStatus := by
  unfold PersistedMessage.recovery PersistedMessage.recoveredStatus
  split <;> rfl

theorem MessageHash.status_of_message {fields : MessageHash} {message : PersistedMessage}
    (h : fields.message = some message) : message.status = fields.status ∧
      message.acknowledgedAt = fields.acknowledgedAt ∧ fields.messageId = some message.messageId := by
  obtain ⟨id, hid, rfl⟩ := Option.map_eq_some_iff.mp h
  exact ⟨rfl, rfl, hid⟩

/-- The store after an orphan was moved. -/
def Store.recovered (s : Store) (now : ℕ) (id : MessageId) (message : PersistedMessage) : Store :=
  { s with
    messages := Function.update s.messages id ((s.messages id).setAll (message.recovery now))
    events := s.events ++ [message.recoveryEvent id] }

@[simp] theorem Store.recovered_messages (s : Store) (now : ℕ) (id : MessageId)
    (message : PersistedMessage) :
    (s.recovered now id message).messages id = (s.messages id).setAll (message.recovery now) :=
  Function.update_self ..

/-- The message of the id is an orphan without a lease. -/
def Store.Stuck (s : Store) (id : MessageId) (message : PersistedMessage) : Prop :=
  (s.messages id).message = some message ∧ message.Orphan ∧ s.leases id = none

/-- A stored message that is in `processing`, not acknowledged and without a lease is stuck. -/
theorem stuck_of_status {s : Store} {id : MessageId} (hid : (s.messages id).messageId.isSome)
    (hstatus : (s.messages id).status = some .processing)
    (hack : (s.messages id).acknowledgedAt = none) (hlease : s.leases id = none) :
    ∃ message, s.Stuck id message := by
  obtain ⟨messageId, hmessageId⟩ := Option.isSome_iff_exists.mp hid
  obtain ⟨message, hmessage⟩ : ∃ message, (s.messages id).message = some message := by
    unfold MessageHash.message
    rw [hmessageId]
    exact ⟨_, rfl⟩
  obtain ⟨hsame, hsame', -⟩ := MessageHash.status_of_message hmessage
  exact ⟨message, hmessage, ⟨hsame.trans hstatus, hsame'.trans hack⟩, hlease⟩

section Alone

variable {this : Instance} {now : ℕ} {id m : MessageId} {s : Store} {message : PersistedMessage}

theorem eval_client {α : Type} (c : Command) (k : c.Reply → Client α) (s : Store) :
    (client c >>= k).eval redis s = (k (redis c s).1).eval redis (redis c s).2 := rfl

theorem eval_getHashMessage {α : Type} (k : Option PersistedMessage → Client α) :
    (getHashMessage id >>= k).eval redis s = (k (s.messages id).message).eval redis s := rfl

/-- A message that is not stuck is left alone. -/
theorem eval_recoverOne_skip (h : ∀ message, ¬ s.Stuck id message) :
    (recoverOne this now id).eval redis s = (.ok false, s) := by
  unfold recoverOne
  rw [eval_getHashMessage]
  cases hmessage : (s.messages id).message with
  | none => rfl
  | some message =>
    dsimp only
    split
    · rfl
    next horphan =>
    rw [eval_client, show redis (.getLease id) s = (s.leases id, s) from rfl]
    split
    · rfl
    next hlease => exact absurd ⟨hmessage, not_not.mp horphan, not_not.mp hlease⟩ (h message)

theorem eval_recoverClaimed (hmessage : (s.messages id).message = some message)
    (horphan : message.Orphan) :
    (recoverClaimed now id).eval redis s = (.ok true, s.recovered now id message) := by
  unfold recoverClaimed Store.recovered PersistedMessage.recovery PersistedMessage.recoveryEvent
  rw [eval_getHashMessage, hmessage]
  dsimp only
  rw [if_neg (not_not.mpr horphan)]
  split <;> rfl

/-- A stuck message is moved, and its lease is free again. -/
theorem eval_recoverOne_move (h : s.Stuck id message) :
    (recoverOne this now id).eval redis s = (.ok true, s.recovered now id message) := by
  obtain ⟨hmessage, horphan, hlease⟩ := h
  let claimed : Store :=
    { s with leases := Function.update s.leases id (some (.recovery this.instanceId)) }
  have hclaim : redis (.setNx id (.recovery this.instanceId)) s = (true, claimed) := if_pos hlease
  unfold recoverOne
  rw [eval_getHashMessage, hmessage]
  dsimp only
  rw [if_neg (not_not.mpr horphan), eval_client, show redis (.getLease id) s = (s.leases id, s) from rfl,
    if_neg (not_not.mpr hlease), eval_client, hclaim, if_neg Bool.noConfusion, Prog.eval_bind]
  rw [eval_recoverClaimed (s := claimed) hmessage horphan]
  -- the claim is deleted: the leases are as they were
  have hleases : Function.update claimed.leases id none = s.leases := by
    rw [Function.update_idem, ← hlease, Function.update_eq_self]
  show (Except.ok true, { s.recovered now id message with
    leases := Function.update claimed.leases id none }) = _
  rw [hleases]
  rfl

/-- `recoverOne` leaves the other messages alone. -/
theorem eval_recoverOne_other (this : Instance) (now : ℕ) (s : Store) (hne : id ≠ m) :
    ∃ recovered s', (recoverOne this now id).eval redis s = (.ok recovered, s') ∧
      s'.messages m = s.messages m ∧ s'.leases = s.leases := by
  by_cases h : ∃ message, s.Stuck id message
  · obtain ⟨message, hstuck⟩ := h
    exact ⟨true, _, eval_recoverOne_move hstuck, Function.update_of_ne hne.symm _ _, rfl⟩
  · exact ⟨false, s, eval_recoverOne_skip (not_exists.mp h), rfl, rfl⟩

theorem eval_recoverLoop_cons {ids recovered : List MessageId} {moved : Bool} {s' : Store}
    (h : (recoverOne this now id).eval redis s = (.ok moved, s')) :
    (recoverLoop this now (id :: ids) recovered).eval redis s =
      (recoverLoop this now ids (if moved then recovered ++ [id] else recovered)).eval redis s' := by
  show ((recoverOne this now id >>= _).eval redis s) = _
  rw [Prog.eval_bind, h]
  cases moved <;> rfl

theorem eval_recoverLoop_skip {ids recovered : List MessageId} (h : ∀ message, ¬ s.Stuck m message) :
    ((recoverLoop this now ids recovered).eval redis s).2.messages m = s.messages m := by
  induction ids generalizing s recovered with
  | nil => rfl
  | cons id ids ih =>
    by_cases hid : id = m
    · subst hid
      rw [eval_recoverLoop_cons (eval_recoverOne_skip h)]
      exact ih h
    · obtain ⟨moved, s', heval, hmessages, hleases⟩ := eval_recoverOne_other this now s hid
      rw [eval_recoverLoop_cons heval, ih fun message hstuck => h message ?_, hmessages]
      exact ⟨by rw [← hmessages]; exact hstuck.1, hstuck.2.1, by rw [← hleases]; exact hstuck.2.2⟩

theorem not_stuck_recovered (message' : PersistedMessage) :
    ¬ (s.recovered now id message).Stuck id message' := by
  rintro ⟨hmessage, ⟨hstatus, -⟩, -⟩
  rw [(MessageHash.status_of_message hmessage).1, Store.recovered_messages,
    setAll_recovery_status] at hstatus
  unfold PersistedMessage.recoveredStatus at hstatus
  split at hstatus <;> cases hstatus

/-- The loop moves a stuck message that is in the list. -/
theorem eval_recoverLoop_move (this : Instance) (now : ℕ) {ids : List MessageId}
    (recovered : List MessageId) (h : s.Stuck m message) (hmem : m ∈ ids) :
    (((recoverLoop this now ids recovered).eval redis s).2.messages m).status =
      some message.recoveredStatus := by
  induction ids generalizing s recovered with
  | nil => cases hmem
  | cons id ids ih =>
    by_cases hid : id = m
    · subst hid
      rw [eval_recoverLoop_cons (eval_recoverOne_move h), eval_recoverLoop_skip not_stuck_recovered,
        Store.recovered_messages]
      exact setAll_recovery_status ..
    · obtain ⟨moved, s', heval, hmessages, hleases⟩ := eval_recoverOne_other this now s hid
      rw [eval_recoverLoop_cons heval]
      refine ih _ ⟨by rw [hmessages]; exact h.1, h.2.1, by rw [hleases]; exact h.2.2⟩ ?_
      exact (List.mem_cons.mp hmem).resolve_left fun he => hid he.symm

/-- A sweep alone moves every stuck message that it has scanned, to `pending` or to `failed`. -/
theorem eval_recoverOrphanedMessages (this : Instance) (now : ℕ) {scanned : List MessageId}
    (h : s.Stuck m message) (hmem : m ∈ scanned) :
    (((recoverOrphanedMessages this now scanned).eval redis s).2.messages m).status =
      some message.recoveredStatus := by
  have hmove := eval_recoverLoop_move this now [] h hmem
  unfold recoverOrphanedMessages
  rw [Prog.eval_bind]
  rcases hloop : (recoverLoop this now scanned []).eval redis s with ⟨_ | recovered, s'⟩
  · rw [hloop] at hmove
    exact hmove
  · rw [hloop] at hmove
    exact hmove

end Alone

end Messages
