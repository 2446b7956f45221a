import PeerX.Bridges.Refunds

/-!
# Bridges: the breaker of the Stellar service

A breaker calls the function it was made for, whatever function `execute` is given. The Stellar
service registers one function and executes others, so that its breaker pays nothing and reports
success.

## Main results

* `run_withdraw_closed`: a withdrawal through a closed breaker
* `withdraw_eq_iff`: when it is the unprotected withdrawal
* `completed_paid_iff`: when a completed bridge is paid
* `protected_iff`: the three together
-/

namespace Bridges

open Concurrency Resilience

variable (o : Outcomes) (w : Withdrawal) (platformKey : String) (paid : List Withdrawal)
  (opossum : Opossum Step.Reply BridgeError Unit Withdrawn)

/-- **A withdrawal through a closed breaker**, in time: the function of the breaker, or the
withdrawal when there is none. -/
theorem run_withdraw_closed (s : Services) (hclosed : o.circuit w = (.closed, false))
    (hintime : o.bulkheadTimer w = false) :
    o.run (withdraw opossum s platformKey w) paid =
      o.run ((s.breakers circuitBreakerName).getD (fun _ => withdrawInternal platformKey w) ()) paid := by
  have hbreaker : o.run (throughBreaker opossum s.breakers platformKey w) paid =
      o.run ((s.breakers circuitBreakerName).getD (fun _ => withdrawInternal platformKey w) ()) paid := by
    cases hname : s.breakers circuitBreakerName with
    | none => exact run_throughBreaker_unregistered o w platformKey paid opossum hname
    | some action =>
      unfold throughBreaker
      rw [run_quiet_ok (c := .circuit w) (v := (.closed, false)) rfl (congrArg Except.ok hclosed)]
      show o.run (execute opossum s.breakers .closed false circuitBreakerName _ ()) paid = _
      rw [execute_registered _ _ hname, opossum.fire_closed]
      rfl
  unfold withdraw
  rcases run_bulkhead o w paid s.bulkheads (throughBreaker opossum s.breakers platformKey w) with
    ⟨hfn, -⟩ | ⟨-, htimer⟩
  · exact hfn.trans hbreaker
  · -- the timer has not ended
    exact absurd (hintime.symm.trans htimer.2) Bool.false_ne_true

theorem run_withdrawInternal_default (hmemo : w.MemoFits) :
    (({} : Outcomes).run (withdrawInternal platformKey w) paid).2 = paid ++ [w] := by
  have htaken : ({} : Outcomes).Taken w := ⟨⟨rfl, rfl, rfl, hmemo, rfl⟩, trivial⟩
  rcases run_withdrawInternal {} platformKey w paid with ⟨-, -, a, h⟩ | ⟨-, -, e, h⟩ | ⟨hnot, -⟩
  · exact congrArg Prod.snd h
  · exact congrArg Prod.snd h
  · exact absurd htaken hnot

/-- **The protected withdrawal is the unprotected one** exactly when no breaker is registered: the
function of a breaker gets no arguments, and cannot pay different withdrawals. -/
theorem withdraw_eq_iff (calls : List (ServiceCall Step.Reply BridgeError Unit Withdrawn))
    (bulkheads : Bulkheads) :
    (∀ (o : Outcomes) (w : Withdrawal) (paid : List Withdrawal), o.circuit w = (.closed, false) →
        o.bulkheadTimer w = false →
        o.run (withdraw opossum ⟨breakersAfter calls, bulkheads⟩ platformKey w) paid =
          o.run (withdrawInternal platformKey w) paid) ↔
      registered calls circuitBreakerName = none := by
  constructor
  · intro h
    cases hname : registered calls circuitBreakerName with
    | none => rfl
    | some action =>
      -- every withdrawal is paid by the same program
      have hpaid (w : Withdrawal) (hmemo : w.MemoFits) : (({} : Outcomes).run (action ()) []).2 = [w] := by
        have hclosed := run_withdraw_closed {} w platformKey [] opossum
          ⟨breakersAfter calls, bulkheads⟩ rfl rfl
        have haction : (⟨breakersAfter calls, bulkheads⟩ : Services).breakers circuitBreakerName =
            some action := (breakers_after calls _).trans hname
        rw [h {} w [] rfl rfl, haction] at hclosed
        exact (congrArg Prod.snd hclosed).symm.trans (run_withdrawInternal_default w platformKey [] hmemo)
      have hsame := (hpaid ⟨"user-1", "GDEST", "50", none⟩ Bool.false_ne_true).symm.trans
        (hpaid ⟨"user-2", "GDEST", "50", none⟩ Bool.false_ne_true)
      exact absurd hsame (by decide)
  · intro hname o w paid hclosed hintime
    rw [run_withdraw_closed o w platformKey paid opossum _ hclosed hintime]
    have hnone : (⟨breakersAfter calls, bulkheads⟩ : Services).breakers circuitBreakerName = none :=
      (breakers_after calls _).trans hname
    rw [hnone]
    rfl

theorem paid_of_completed {s : Services} {bridge completed : CrossChainBridge}
    (hnone : s.breakers circuitBreakerName = none) (hdest : bridge.destinationNetwork = .stellar)
    (hok : (o.run (executeBridge bridgeRepo (stellarService opossum s platformKey) bridge) paid).1 =
      .ok completed) :
    destination bridge ∈
      (o.run (executeBridge bridgeRepo (stellarService opossum s platformKey) bridge) paid).2 := by
  rcases run_executeBridge o opossum s platformKey paid hdest with
    ⟨-, e, h⟩ | ⟨-, tx, paid', hpay, h⟩ | ⟨-, e, paid', hpay, e', h⟩
  · rw [h] at hok
    cases hok
  · have hends := run_withdraw o (destination bridge) platformKey paid opossum hnone
    rw [hpay] at hends
    rcases hends with ⟨-, -, a, hrun⟩ | ⟨-, -, e, hrun⟩ | ⟨-, e, hrun⟩
    · have hpaid : paid' = paid ++ [destination bridge] := congrArg Prod.snd hrun
      rw [h, hpaid]
      exact List.mem_append_right paid (List.mem_singleton.mpr rfl)
    · cases hrun
    · cases hrun
  · rw [h] at hok
    cases hok

/-- With the registered breaker a bridge completes, and nothing is paid. -/
theorem completed_of_registered {s : Services} (bridge : CrossChainBridge)
    (hsome : s.breakers circuitBreakerName = some registeredFunction)
    (hdest : bridge.destinationNetwork = .stellar) :
    ({} : Outcomes).run (executeBridge bridgeRepo (stellarService opossum s platformKey) bridge) paid =
      (.ok { bridge with status := .completed, destinationTxHash := none }, paid) := by
  have hfired : ({} : Outcomes).run (withdraw opossum s platformKey (destination bridge)) paid =
      (.ok .success, paid) := by
    rw [run_withdraw_closed {} (destination bridge) platformKey paid opossum s rfl rfl, hsome]
    rfl
  rcases run_executeBridge {} opossum s platformKey paid hdest with
    ⟨hpending, -⟩ | ⟨-, tx, paid', hpay, h⟩ | ⟨-, e, paid', hpay, -⟩
  · exact absurd rfl hpending
  · obtain ⟨htx, hpaid⟩ := Prod.mk.inj (hpay.symm.trans hfired)
    cases htx
    rw [h, hpaid]
    rfl
  · cases hpay.symm.trans hfired

/-- **A completed bridge is paid** exactly when the breaker is not registered. -/
theorem completed_paid_iff (initialized : Bool) (bulkheads : Bulkheads) :
    (∀ (o : Outcomes) (bridge completed : CrossChainBridge), bridge.destinationNetwork = .stellar →
        (o.run (executeBridge bridgeRepo
          (stellarService opossum (services initialized bulkheads) platformKey) bridge) []).1 =
            .ok completed → completed.status = .completed →
        destination bridge ∈ (o.run (executeBridge bridgeRepo
          (stellarService opossum (services initialized bulkheads) platformKey) bridge) []).2) ↔
      initialized = false := by
  cases initialized with
  | true =>
    -- the run without a failure completes the bridge and pays nothing
    refine iff_of_false (fun h => ?_) Bool.true_eq_false_eq_False
    have hrun := completed_of_registered platformKey [] opossum approvedBridge
      (services_initialized bulkheads) rfl
    have hpaid := h {} approvedBridge _ rfl (congrArg Prod.fst hrun) rfl
    rw [hrun] at hpaid
    cases hpaid
  | false =>
    refine iff_of_true (fun o bridge completed hdest hok _ => ?_) rfl
    exact paid_of_completed o platformKey [] opossum (services_uninitialized bulkheads) hdest hok

/-- **A protected function runs as the unprotected one** exactly when its breaker, if there is one,
was made for a function that does the same with the arguments; an open breaker runs nothing. So the
protected withdrawal is the withdrawal exactly when no breaker is registered, and a completed bridge
is paid exactly when `onModuleInit` was not called. -/
theorem protected_iff {C : Type} {R : C → Type} {ε A α : Type} (breaker : Opossum R ε A α)
    (history : List (ServiceCall R ε A α)) (name : String) (fn : A → Prog C R ε α) (args : A)
    (opossum : Opossum Step.Reply BridgeError Unit Withdrawn)
    (calls : List (ServiceCall Step.Reply BridgeError Unit Withdrawn)) (initialized : Bool)
    (bulkheads : Bulkheads) (platformKey : String) :
    (execute breaker (breakersAfter history) .closed false name fn args = fn args ↔
      ∀ action, registered history name = some action → action args = fn args) ∧
    ((registered history name).isSome → ∀ timedOut, ∃ e,
      execute breaker (breakersAfter history) .opened timedOut name fn args = .fail e) ∧
    ((∀ (o : Outcomes) (w : Withdrawal) (paid : List Withdrawal), o.circuit w = (.closed, false) →
        o.bulkheadTimer w = false →
        o.run (withdraw opossum ⟨breakersAfter calls, bulkheads⟩ platformKey w) paid =
          o.run (withdrawInternal platformKey w) paid) ↔
      registered calls circuitBreakerName = none) ∧
    ((∀ (o : Outcomes) (bridge completed : CrossChainBridge), bridge.destinationNetwork = .stellar →
        (o.run (executeBridge bridgeRepo
          (stellarService opossum (services initialized bulkheads) platformKey) bridge) []).1 =
            .ok completed → completed.status = .completed →
        destination bridge ∈ (o.run (executeBridge bridgeRepo
          (stellarService opossum (services initialized bulkheads) platformKey) bridge) []).2) ↔
      initialized = false) :=
  ⟨execute_eq_iff history, fun hsome timedOut => execute_opened history timedOut hsome,
    withdraw_eq_iff platformKey opossum calls bulkheads,
    completed_paid_iff platformKey opossum initialized bulkheads⟩

/-- **After `onModuleInit` nothing is paid**: a withdrawal through the closed breaker reports
success, and a bridge is completed. -/
theorem completed_unpaid :
    ({} : Outcomes).run (withdraw documented (onModuleInit noServices) "GPLATFORM"
      (destination approvedBridge)) [] = (.ok .success, []) ∧
    (({} : Outcomes).run (withdrawInternal "GPLATFORM" (destination approvedBridge)) []).2 =
      [destination approvedBridge] ∧
    ({} : Outcomes).run (executeBridge bridgeRepo
      (stellarService documented (onModuleInit noServices) "GPLATFORM") approvedBridge) [] =
        (.ok { approvedBridge with status := .completed }, []) :=
  ⟨rfl, rfl, rfl⟩

end Bridges
