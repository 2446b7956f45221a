import PeerX.Bridges.Payments
import Mathlib.Data.String.Basic

/-!
# Bridges: refunds

The execution of a bridge takes every failure of its withdrawal for a payment that was not made, and
pays back. The memos of both payments carry the id of the bridge, and the spelling of a `uuid`
leaves no memo that is short enough, so that the network is asked for neither of them.
-/

namespace Bridges

open Concurrency Relational Resilience

/-- The payment at the destination. -/
def destination (bridge : CrossChainBridge) : Withdrawal :=
  ⟨bridge.userId, bridge.destinationAddress, bridge.amount, some ("bridge:" ++ bridge.id)⟩

/-- The payment back to the source. -/
def refund (bridge : CrossChainBridge) : Withdrawal :=
  ⟨bridge.userId, bridge.sourceAddress, bridge.amount, some ("refund:" ++ bridge.id)⟩

section Execution

variable {o : Outcomes} {opossum : Opossum Step.Reply BridgeError Unit Withdrawn} {s : Services}
  {platformKey : String} {bridge : CrossChainBridge} {paid paid' : List Withdrawal}

theorem run_save_ok (paid : List Withdrawal) (bridge : CrossChainBridge) (h : o.saveBridge bridge.status = .ok ()) :
    o.run (bridgeRepo.save bridge) paid = (.ok bridge, paid) :=
  run_quiet_ok (c := .saveBridge bridge) (v := ()) rfl h

theorem run_save_error (paid : List Withdrawal) (bridge : CrossChainBridge) {e : BridgeError}
    (h : o.saveBridge bridge.status = .error e) :
    o.run (bridgeRepo.save bridge) paid = (.error e, paid) :=
  run_await_error (c := .saveBridge bridge) h

theorem run_save (bridge : CrossChainBridge) :
    o.run (bridgeRepo.save bridge) paid =
      ((o.saveBridge bridge.status).map fun _ => bridge, paid) := by
  cases hsave : o.saveBridge bridge.status with
  | error e => exact run_save_error paid bridge hsave
  | ok _ => exact run_save_ok paid bridge hsave

theorem run_payDestination_ok (bridge : CrossChainBridge) {tx : Withdrawn}
    (hdest : bridge.destinationNetwork = .stellar)
    (hpay : o.run (withdraw opossum s platformKey (destination bridge)) paid = (.ok tx, paid')) :
    o.run (payDestination (stellarService opossum s platformKey) bridge) paid =
      (.ok { bridge with destinationTxHash := tx.txHash }, paid') := by
  unfold payDestination
  rw [if_pos hdest]
  exact (run_bind_ok hpay).trans rfl

theorem run_payDestination_error (bridge : CrossChainBridge) {e : BridgeError}
    (hdest : bridge.destinationNetwork = .stellar)
    (hpay : o.run (withdraw opossum s platformKey (destination bridge)) paid = (.error e, paid')) :
    o.run (payDestination (stellarService opossum s platformKey) bridge) paid = (.error e, paid') := by
  unfold payDestination
  rw [if_pos hdest]
  exact run_bind_error hpay

variable (o opossum s platformKey bridge paid) in
/-- What the network has taken after the payment back. -/
def Outcomes.paidBack : List Withdrawal :=
  if bridge.sourceNetwork = .stellar then
    (o.run (withdraw opossum s platformKey (refund bridge)) paid).2
  else paid

theorem run_payBack :
    (o.run (payBack (stellarService opossum s platformKey) bridge) paid).2 =
      o.paidBack opossum s platformKey bridge paid := by
  unfold payBack Outcomes.paidBack
  by_cases hsource : bridge.sourceNetwork = .stellar
  · rw [if_pos hsource, if_pos hsource]
    rcases hpay : o.run (withdraw opossum s platformKey (refund bridge)) paid with ⟨e | tx, paid'⟩
    · exact congrArg Prod.snd (run_bind_error hpay)
    · exact congrArg Prod.snd (run_bind_ok hpay)
  · rw [if_neg hsource, if_neg hsource]
    rfl

theorem run_refundBridge :
    o.run (refundBridge bridgeRepo (stellarService opossum s platformKey) bridge) paid =
      (.ok (), o.paidBack opossum s platformKey bridge paid) := by
  unfold refundBridge
  rw [← run_payBack]
  rcases hpay : o.run (payBack (stellarService opossum s platformKey) bridge) paid with ⟨e | _, paid'⟩
  · -- a refund that fails is dropped
    exact (run_tryCatch_error (run_bind_error hpay)).trans rfl
  · cases hsave : o.saveBridge .refunded with
    | error e =>
      have hthrown := run_save_error paid' { bridge with status := .refunded } hsave
      exact (run_tryCatch_error ((run_bind_ok hpay).trans (run_bind_error hthrown))).trans rfl
    | ok _ =>
      have hsaved := run_save_ok paid' { bridge with status := .refunded } hsave
      exact run_tryCatch_ok ((run_bind_ok hpay).trans ((run_bind_ok hsaved).trans rfl))

variable (o opossum s platformKey bridge paid) in
/-- What the network has taken after the `catch`, which pays back when the failure could be
stored. -/
def Outcomes.paidAtFailure : List Withdrawal :=
  if (o.saveBridge .failed).isOk then o.paidBack opossum s platformKey bridge paid else paid

variable (o opossum s platformKey bridge paid) in
/-- The `catch` throws. -/
theorem run_failBridge (err : BridgeError) :
    ∃ e, o.run (failBridge bridgeRepo (stellarService opossum s platformKey) bridge err) paid =
      (.error e, o.paidAtFailure opossum s platformKey bridge paid) := by
  unfold failBridge Outcomes.paidAtFailure
  cases hsave : o.saveBridge .failed with
  | error e =>
    exact ⟨e, run_bind_error (run_save_error paid
      { bridge with status := .failed, errorMessage := some err.message } hsave)⟩
  | ok _ =>
    rw [run_bind_ok (run_save_ok paid
      { bridge with status := .failed, errorMessage := some err.message } hsave),
      run_bind_ok run_refundBridge]
    exact ⟨_, rfl⟩

/-- A failure in the `try` of `executeBridge`: its exception skips the last save. -/
theorem run_failed {p : Client CrossChainBridge} {e : BridgeError}
    (hp : o.run p paid = (.error e, paid')) :
    ∃ e', o.run (tryCatch p (failBridge bridgeRepo (stellarService opossum s platformKey) bridge) >>=
        bridgeRepo.save) paid = (.error e', o.paidAtFailure opossum s platformKey bridge paid') := by
  obtain ⟨e', hfail⟩ := run_failBridge o opossum s platformKey bridge paid' e
  exact ⟨e', run_bind_error ((run_tryCatch_error hp).trans hfail)⟩

variable (o opossum s platformKey paid) in
/-- How the execution of a bridge ends: the bridge is not yet stored, or it is and the payment
succeeds, or fails. -/
theorem run_executeBridge (hdest : bridge.destinationNetwork = .stellar) :
    (¬ (o.saveBridge .destinationPending).isOk ∧
      ∃ e, o.run (executeBridge bridgeRepo (stellarService opossum s platformKey) bridge) paid =
        (.error e, o.paidAtFailure opossum s platformKey bridge paid)) ∨
    ((o.saveBridge .destinationPending).isOk ∧ ∃ tx paid',
      o.run (withdraw opossum s platformKey (destination bridge)) paid = (.ok tx, paid') ∧
      o.run (executeBridge bridgeRepo (stellarService opossum s platformKey) bridge) paid =
        ((o.saveBridge .completed).map fun _ =>
          { bridge with status := .completed, destinationTxHash := tx.txHash }, paid')) ∨
    ((o.saveBridge .destinationPending).isOk ∧ ∃ e paid',
      o.run (withdraw opossum s platformKey (destination bridge)) paid = (.error e, paid') ∧
      ∃ e', o.run (executeBridge bridgeRepo (stellarService opossum s platformKey) bridge) paid =
        (.error e', o.paidAtFailure opossum s platformKey bridge paid')) := by
  unfold executeBridge
  cases hpending : o.saveBridge .destinationPending with
  | error e =>
    have hthrown := run_save_error paid { bridge with status := .destinationPending } hpending
    exact .inl ⟨Bool.false_ne_true, run_failed (run_bind_error hthrown)⟩
  | ok _ =>
    have hsaved := run_save_ok (o := o) paid
      { bridge with status := .destinationPending } hpending
    rcases hpay : o.run (withdraw opossum s platformKey (destination bridge)) paid with ⟨e | tx, paid'⟩
    · have hthrown := run_payDestination_error { bridge with status := .destinationPending } hdest hpay
      refine .inr (.inr ⟨rfl, e, paid', rfl, run_failed (e := e) ?_⟩)
      exact (run_bind_ok hsaved).trans (run_bind_error hthrown)
    · have hpaid := run_payDestination_ok { bridge with status := .destinationPending } hdest hpay
      refine .inr (.inl ⟨rfl, tx, paid', rfl, ?_⟩)
      rw [run_bind_ok (run_tryCatch_ok ((run_bind_ok hsaved).trans ((run_bind_ok hpaid).trans rfl)))]
      exact run_save _

end Execution

/-- The services, with `onModuleInit` called or not, and any bulkheads. -/
def services (initialized : Bool) (bulkheads : Bulkheads) : Services :=
  { (if initialized then onModuleInit noServices else noServices) with bulkheads }

theorem services_initialized (bulkheads : Bulkheads) :
    (services true bulkheads).breakers circuitBreakerName = some registeredFunction := rfl

theorem services_uninitialized (bulkheads : Bulkheads) :
    (services false bulkheads).breakers circuitBreakerName = none := rfl

theorem length_le_utf8ByteSize (l : List Char) : l.length ≤ (String.ofList l).utf8ByteSize := by
  induction l with
  | nil => simp
  | cons c l ih =>
    have hc := c.utf8Size_pos
    simp only [String.utf8ByteSize_ofList, String.utf8Len_cons, List.length_cons] at ih ⊢
    omega

/-- No memo with the id of a bridge fits. -/
theorem not_memoFits {w : Withdrawal} {t : String} (ht : 0 < t.utf8ByteSize) (id : Uuid)
    (hmemo : w.memo = some (t ++ String.ofList id.text)) : ¬ w.MemoFits := by
  have hlong := length_le_utf8ByteSize id.text
  rw [length_text] at hlong
  rw [Withdrawal.MemoFits, not_not, hmemo, Option.any_some, decide_eq_true_eq, String.utf8ByteSize_append]
  omega

section PaidOnce

variable (o : Outcomes) (opossum : Opossum Step.Reply BridgeError Unit Withdrawn) (initialized : Bool)
  (bulkheads : Bulkheads) (platformKey : String) {w : Withdrawal} {bridge : CrossChainBridge}
  (paid : List Withdrawal)

/-- A withdrawal whose memo does not fit is not paid, with the registered breaker or without
one. -/
theorem run_withdraw_unfit (hmemo : ¬ w.MemoFits) :
    (o.run (withdraw opossum (services initialized bulkheads) platformKey w) paid).2 = paid := by
  cases initialized with
  | true => exact run_withdraw_registered o w platformKey paid opossum (services_initialized bulkheads)
  | false =>
    rcases run_withdraw o w platformKey paid opossum (services_uninitialized bulkheads) with
      ⟨htaken, -⟩ | ⟨htaken, -⟩ | ⟨-, e, h⟩
    · exact absurd htaken.memo hmemo
    · exact absurd htaken.memo hmemo
    · exact congrArg Prod.snd h

theorem paidAtFailure_unfit (hmemo : ¬ (refund bridge).MemoFits) :
    o.paidAtFailure opossum (services initialized bulkheads) platformKey bridge paid = paid := by
  have hback : o.paidBack opossum (services initialized bulkheads) platformKey bridge paid = paid := by
    unfold Outcomes.paidBack
    split
    · exact run_withdraw_unfit o opossum initialized bulkheads platformKey paid hmemo
    · rfl
  unfold Outcomes.paidAtFailure
  rw [hback, ite_self]

/-- The execution of a bridge pays nothing. -/
theorem run_executeBridge_unpaid (id : Uuid) (hid : bridge.id = String.ofList id.text)
    (hdest : bridge.destinationNetwork = .stellar) :
    (o.run (executeBridge bridgeRepo (stellarService opossum (services initialized bulkheads) platformKey)
      bridge) paid).2 = paid := by
  have hback (paid : List Withdrawal) := paidAtFailure_unfit o opossum initialized bulkheads platformKey paid
    (not_memoFits (w := refund bridge) (t := "refund:") (by decide) id (by rw [refund, hid]))
  have hquiet := run_withdraw_unfit o opossum initialized bulkheads platformKey paid
    (not_memoFits (w := destination bridge) (t := "bridge:") (by decide) id (by rw [destination, hid]))
  rcases run_executeBridge o opossum (services initialized bulkheads) platformKey paid hdest with
    ⟨-, e, h⟩ | ⟨-, tx, paid', hpay, h⟩ | ⟨-, e, paid', hpay, e', h⟩
  · rw [h, hback]
  · rw [h]
    exact (congrArg Prod.snd hpay).symm.trans hquiet
  · rw [h, hback]
    exact (congrArg Prod.snd hpay).symm.trans hquiet

end PaidOnce

/-- **A bridge between Stellar accounts is paid at most once**, whatever becomes of each step. -/
theorem paid_once (opossum : Opossum Step.Reply BridgeError Unit Withdrawn) (initialized : Bool)
    (bulkheads : Bulkheads) (platformKey : String) (o : Outcomes) (bridge : CrossChainBridge) (id : Uuid)
    (hid : bridge.id = String.ofList id.text) (hdest : bridge.destinationNetwork = .stellar) :
    (o.run (executeBridge bridgeRepo
      (stellarService opossum (services initialized bulkheads) platformKey) bridge) []).2.length ≤ 1 := by
  rw [run_executeBridge_unpaid o opossum initialized bulkheads platformKey [] id hid hdest]
  exact Nat.zero_le 1

/-- The documented breaker. -/
def documented : Opossum Step.Reply BridgeError Unit Withdrawn :=
  .documented (.error "Breaker is open") (.error "Timed out after 30000ms")

/-- A bridge between Stellar accounts, when its execution starts. -/
def approvedBridge : CrossChainBridge :=
  { newBridge 2 "b1" "user-1" .stellar .stellar "GSOURCE" "GDEST" "100" with
    status := .bridgeProcessing, multisigApprovals := 2 }

/-- The confirmed records cannot be saved. -/
def unconfirmed : Outcomes where
  saveTransaction _ status := if status = .confirmed then .error (.error "Connection terminated") else .ok ()

/-- The execution of a bridge whose row has an id of the database. -/
theorem paid_once_unconfirmed :
    (unconfirmed.run (executeBridge bridgeRepo (stellarService documented (services false fun _ => none) "GPLATFORM")
      { approvedBridge with id := "0d3bd4ab-6a56-4d6c-a6e3-14c2e4d3a5f1" }) []).2.length ≤ 1 :=
  paid_once documented false (fun _ => none) "GPLATFORM" unconfirmed _
    0x0d3bd4ab6a564d6ca6e314c2e4d3a5f1#128 (by decide +kernel) rfl

end Bridges
