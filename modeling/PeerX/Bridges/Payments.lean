import PeerX.Bridges.StellarService

/-!
# Bridges: payments

What the network has taken of a withdrawal, and what the withdrawal reports. The two differ when the
payment is taken and something fails afterwards: the answer of the network is lost, the confirmed
record cannot be saved, or the timer of the bulkhead ends first.
-/

namespace Bridges

open Concurrency Resilience

section Steps

variable {α β : Type} {o : Outcomes} {c : Step} {f : c.Value → Client α} {paid : List Withdrawal}

/-- What the network has taken after a step. -/
abbrev Outcomes.paidAfter (o : Outcomes) (c : Step) (paid : List Withdrawal) : List Withdrawal :=
  (o.handler c paid).2

theorem run_await_ok {v : c.Value} (h : o.answer c = .ok v) :
    o.run (await c >>= f) paid = o.run (f v) (o.paidAfter c paid) := by
  unfold await Outcomes.run
  rw [bind_assoc, Prog.perform_bind, Prog.eval_call]
  show Prog.eval _ (_ >>= f) _ = _
  rw [show (o.handler c paid).1 = .ok v from h]
  rfl

theorem run_await_error {e : BridgeError} (h : o.answer c = .error e) :
    o.run (await c >>= f) paid = (.error e, o.paidAfter c paid) := by
  unfold await Outcomes.run
  rw [bind_assoc, Prog.perform_bind, Prog.eval_call]
  show Prog.eval _ (_ >>= f) _ = _
  rw [show (o.handler c paid).1 = .error e from h]
  rfl

theorem run_quiet_ok {v : c.Value} (hquiet : o.paidAfter c paid = paid) (h : o.answer c = .ok v) :
    o.run (await c >>= f) paid = o.run (f v) paid := by
  rw [run_await_ok h, hquiet]

theorem run_bind_ok {p : Client α} {g : α → Client β} {paid' : List Withdrawal} {a : α}
    (h : o.run p paid = (.ok a, paid')) : o.run (p >>= g) paid = o.run (g a) paid' := by
  unfold Outcomes.run at *
  rw [Prog.eval_bind, h]

theorem run_bind_error {p : Client α} {g : α → Client β} {paid' : List Withdrawal} {e : BridgeError}
    (h : o.run p paid = (.error e, paid')) : o.run (p >>= g) paid = (.error e, paid') := by
  unfold Outcomes.run at *
  rw [Prog.eval_bind, h]

theorem run_tryCatch_ok {p : Client α} {g : BridgeError → Client α} {paid' : List Withdrawal} {a : α}
    (h : o.run p paid = (.ok a, paid')) : o.run (tryCatch p g) paid = (.ok a, paid') := by
  unfold Outcomes.run at *
  rw [Prog.eval_tryCatch, h]

theorem run_tryCatch_error {p : Client α} {g : BridgeError → Client α} {paid' : List Withdrawal}
    {e : BridgeError} (h : o.run p paid = (.error e, paid')) :
    o.run (tryCatch p g) paid = o.run (g e) paid' := by
  unfold Outcomes.run at *
  rw [Prog.eval_tryCatch, h]

end Steps

section Withdrawals

variable (o : Outcomes) (w : Withdrawal)

/-- The memo, if there is one, is short enough. -/
def Withdrawal.MemoFits : Prop := ¬ w.memo.any fun memo => 28 < memo.utf8ByteSize

/-- Every step before the submission succeeds. -/
structure Outcomes.Submits : Prop where
  wallet : o.findWallet w = .ok true
  pending : o.saveTransaction w .pending = .ok ()
  account : o.loadAccount w = .ok ()
  memo : w.MemoFits
  built : o.buildTransaction w = .ok ()

/-- The network takes the payment. -/
structure Outcomes.Taken : Prop extends o.Submits w where
  taken : (o.submitTransaction w).Taken

/-- The payment is reported: the network answers, and the confirmed record is saved. -/
structure Outcomes.Reported : Prop where
  answered : ∃ hash, o.submitTransaction w = .accepted hash
  confirmed : o.saveTransaction w .confirmed = .ok ()

/-- The withdrawal lost the race against the timer of its bulkhead. -/
def Outcomes.TimedOut (bulkheads : Bulkheads) : Prop :=
  (Bulkhead.timeoutOf bulkheads bulkheadName).isSome ∧ o.bulkheadTimer w = true

/-- How a withdrawal ends: it succeeds when the payment is taken and reported, and the network
has taken the payment when it is taken. -/
def Ends {α : Type} (taken reported : Prop) (w : Withdrawal) (paid : List Withdrawal)
    (r : Except BridgeError α × List Withdrawal) : Prop :=
  (taken ∧ reported ∧ ∃ a, r = (.ok a, paid ++ [w])) ∨
    (taken ∧ ¬ reported ∧ ∃ e, r = (.error e, paid ++ [w])) ∨ (¬ taken ∧ ∃ e, r = (.error e, paid))

variable {o w} {platformKey : String} {paid : List Withdrawal}

/-- The payment: it is accepted, taken without an answer, or not taken. -/
theorem run_pay (platformKey : String) (paid : List Withdrawal) (hpre : o.findWallet w = .ok true)
    (hpending : o.saveTransaction w .pending = .ok ()) :
    (∃ hash, o.Taken w ∧ o.submitTransaction w = .accepted hash ∧
      o.run (pay platformKey w) paid = (.ok (confirmedRecord platformKey w hash), paid ++ [w])) ∨
    (o.Taken w ∧ (∀ hash, o.submitTransaction w ≠ .accepted hash) ∧
      ∃ e, o.run (pay platformKey w) paid = (.error e, paid ++ [w])) ∨
    (¬ o.Taken w ∧ ∃ e, o.run (pay platformKey w) paid = (.error e, paid)) := by
  unfold pay
  -- a step before the submission that throws leaves the payment unmade
  cases haccount : o.loadAccount w with
  | error e =>
    refine .inr (.inr ⟨fun h => ?_, e, run_await_error haccount⟩)
    cases haccount.symm.trans h.account
  | ok _ =>
    rw [run_quiet_ok (c := .loadAccount w) rfl haccount]
    by_cases hmemo : w.MemoFits
    swap
    · have hthrown : addMemo w = throw (.error "Expects string, array or buffer, max 28 bytes") :=
        if_pos (not_not.mp hmemo)
      exact .inr (.inr ⟨fun h => hmemo h.memo, _, run_bind_error (by rw [hthrown]; rfl)⟩)
    have hadded : addMemo w = pure () := if_neg hmemo
    rw [hadded, pure_bind]
    cases hbuilt : o.buildTransaction w with
    | error e =>
      refine .inr (.inr ⟨fun h => ?_, e, run_await_error hbuilt⟩)
      cases hbuilt.symm.trans h.built
    | ok _ =>
      rw [run_quiet_ok (c := .buildTransaction w) rfl hbuilt]
      have hsubmits : o.Submits w := ⟨hpre, hpending, haccount, hmemo, hbuilt⟩
      -- the payments after the submission
      have hafter : o.paidAfter (.submitTransaction w) paid =
          if (o.submitTransaction w).Taken then paid ++ [w] else paid := rfl
      cases hsubmission : o.submitTransaction w with
      | accepted hash =>
        have htaken : (o.submitTransaction w).Taken := hsubmission ▸ trivial
        have hanswer : o.answer (.submitTransaction w) = .ok hash :=
          congrArg Submission.answer hsubmission
        refine .inl ⟨hash, ⟨hsubmits, htaken⟩, rfl, (run_await_ok hanswer).trans ?_⟩
        rw [if_pos htaken] at hafter
        exact congrArg (Prod.mk _) hafter
      | unanswered e =>
        have htaken : (o.submitTransaction w).Taken := hsubmission ▸ trivial
        have hanswer : o.answer (.submitTransaction w) = .error e :=
          congrArg Submission.answer hsubmission
        refine .inr (.inl ⟨⟨hsubmits, htaken⟩, fun hash h => (by cases h), e,
          (run_await_error hanswer).trans ?_⟩)
        rw [if_pos htaken] at hafter
        exact congrArg (Prod.mk _) hafter
      | rejected e =>
        have hnot : ¬ (o.submitTransaction w).Taken := hsubmission ▸ id
        have hanswer : o.answer (.submitTransaction w) = .error e :=
          congrArg Submission.answer hsubmission
        refine .inr (.inr ⟨fun h => hnot h.taken, e, (run_await_error hanswer).trans ?_⟩)
        rw [if_neg hnot] at hafter
        exact congrArg (Prod.mk _) hafter

/-- The `catch` throws, whatever becomes of its save. -/
theorem run_failWithdrawal (platformKey : String) (w : Withdrawal) (err : BridgeError)
    (paid : List Withdrawal) :
    ∃ e, o.run (failWithdrawal platformKey w err) paid = (.error e, paid) := by
  unfold failWithdrawal
  cases hfailed : o.saveTransaction w .failed with
  | error e => exact ⟨e, run_await_error hfailed⟩
  | ok _ => exact ⟨_, run_await_ok hfailed⟩

/-- What is taken of a withdrawal, and what it reports. -/
theorem run_withdrawInternal (o : Outcomes) (platformKey : String) (w : Withdrawal)
    (paid : List Withdrawal) : Ends (o.Taken w) (o.Reported w) w paid
      (o.run (withdrawInternal platformKey w) paid) := by
  unfold withdrawInternal
  cases hwallet : o.findWallet w with
  | error e =>
    refine .inr (.inr ⟨fun h => ?_, e, run_await_error hwallet⟩)
    cases hwallet.symm.trans h.wallet
  | ok found =>
    rw [run_quiet_ok (c := .findWallet w) rfl hwallet]
    cases found with
    | false =>
      refine .inr (.inr ⟨fun h => ?_, _, rfl⟩)
      cases hwallet.symm.trans h.wallet
    | true =>
      rw [if_pos rfl]
      cases hpending : o.saveTransaction w .pending with
      | error e =>
        refine .inr (.inr ⟨fun h => ?_, e, run_await_error hpending⟩)
        cases hpending.symm.trans h.pending
      | ok _ =>
        rw [run_quiet_ok (c := .saveTransaction w (txRecord platformKey w)) rfl hpending]
        rcases run_pay platformKey paid hwallet hpending with
          ⟨hash, htaken, haccepted, hpay⟩ | ⟨htaken, hnone, e, hpay⟩ |
            ⟨hnot, e, hpay⟩
        · rw [run_bind_ok (run_tryCatch_ok hpay)]
          -- the payment is made, and its record decides what is reported
          cases hconfirmed : o.saveTransaction w .confirmed with
          | ok _ =>
            exact .inl ⟨htaken, ⟨⟨hash, haccepted⟩, hconfirmed⟩, _,
              run_await_ok hconfirmed⟩
          | error e =>
            refine .inr (.inl ⟨htaken, fun h => ?_, e, run_await_error hconfirmed⟩)
            cases hconfirmed.symm.trans h.confirmed
        · -- the answer is lost, and the `catch` takes it for a refusal
          obtain ⟨e', hfailed⟩ := run_failWithdrawal platformKey w e _
          rw [run_bind_error ((run_tryCatch_error hpay).trans hfailed)]
          exact .inr (.inl ⟨htaken, fun ⟨⟨hash, h⟩, _⟩ => hnone hash h, e', rfl⟩)
        · obtain ⟨e', hfailed⟩ := run_failWithdrawal platformKey w e _
          rw [run_bind_error ((run_tryCatch_error hpay).trans hfailed)]
          exact .inr (.inr ⟨hnot, e', rfl⟩)

variable (o w platformKey paid) (opossum : Opossum Step.Reply BridgeError Unit Withdrawn)

/-- A withdrawal in its bulkhead ends as the function, or with the error of the timer; what the
network has taken is that of the function. -/
theorem run_bulkhead (bulkheads : Bulkheads) (fn : Client Withdrawn) :
    o.run (Bulkhead.execute bulkheads bulkheadName fn (await (.bulkheadTimer w)) bulkheadError) paid =
        o.run fn paid ∧ ¬ o.TimedOut w bulkheads ∨
      (∃ e, o.run (Bulkhead.execute bulkheads bulkheadName fn (await (.bulkheadTimer w)) bulkheadError)
        paid = (.error e, (o.run fn paid).2)) ∧ o.TimedOut w bulkheads := by
  unfold Bulkhead.execute Outcomes.TimedOut
  cases htimeout : Bulkhead.timeoutOf bulkheads bulkheadName with
  | none => exact .inl ⟨rfl, fun h => (by cases h.1)⟩
  | some timeoutMs =>
    have hsettled : o.run (Bulkhead.settle fn) paid = (.ok (o.run fn paid).1, (o.run fn paid).2) :=
      Bulkhead.eval_settle o.handler fn paid
    simp only [run_bind_ok hsettled]
    rw [run_quiet_ok (c := .bulkheadTimer w) (v := o.bulkheadTimer w) rfl rfl]
    cases htimer : o.bulkheadTimer w with
    | true => exact .inr ⟨⟨_, rfl⟩, rfl, rfl⟩
    | false =>
      refine .inl ⟨?_, fun h => (by cases h.2)⟩
      rw [if_neg Bool.false_ne_true]
      rcases o.run fn paid with ⟨e | a, paid'⟩ <;> rfl

/-- What runs in the bulkhead, when no breaker is registered: the withdrawal. -/
theorem run_throughBreaker_unregistered {breakers : StellarBreakers}
    (hnone : breakers circuitBreakerName = none) :
    o.run (throughBreaker opossum breakers platformKey w) paid =
      o.run (withdrawInternal platformKey w) paid := by
  unfold throughBreaker
  rw [run_quiet_ok (c := .circuit w) (v := o.circuit w) rfl rfl]
  exact congrArg (o.run · paid) (execute_unregistered _ _ hnone)

/-- What runs in the bulkhead, when a breaker is registered: nothing that the withdrawal asks
for. -/
theorem run_throughBreaker_registered {breakers : StellarBreakers}
    (hsome : breakers circuitBreakerName = some registeredFunction) :
    (o.run (throughBreaker opossum breakers platformKey w) paid).2 = paid := by
  unfold throughBreaker
  rw [run_quiet_ok (c := .circuit w) (v := o.circuit w) rfl rfl]
  show (o.run (execute opossum breakers _ _ circuitBreakerName _ ()) paid).2 = paid
  rw [execute_registered _ _ hsome]
  rcases opossum.fire_cases registeredFunction (o.circuit w).1 (o.circuit w).2 () with
    hcalled | ⟨e, hrefused⟩ | ⟨e, hlate⟩
  · rw [hcalled]
    rfl
  · rw [hrefused]
    rfl
  · rw [hlate]
    rfl

/-- What is taken of a withdrawal without a breaker, and what it reports. -/
theorem run_withdraw {s : Services} (hnone : s.breakers circuitBreakerName = none) :
    Ends (o.Taken w) (o.Reported w ∧ ¬ o.TimedOut w s.bulkheads) w paid
      (o.run (withdraw opossum s platformKey w) paid) := by
  have hends := run_withdrawInternal o platformKey w paid
  rw [← run_throughBreaker_unregistered o w platformKey paid opossum hnone] at hends
  unfold withdraw
  rcases run_bulkhead o w paid s.bulkheads (throughBreaker opossum s.breakers platformKey w) with ⟨hfn, hnot⟩ | ⟨⟨e, hlate⟩, htimer⟩
  · rw [hfn]
    rcases hends with ⟨htaken, hreported, h⟩ | ⟨htaken, hreported, h⟩ | h
    · exact .inl ⟨htaken, ⟨hreported, hnot⟩, h⟩
    · exact .inr (.inl ⟨htaken, fun hboth => hreported hboth.1, h⟩)
    · exact .inr (.inr h)
  · rw [hlate]
    -- the function has run to its end, and only its result is lost
    rcases hends with ⟨htaken, -, a, h⟩ | ⟨htaken, -, a, h⟩ | ⟨htaken, a, h⟩
    · exact .inr (.inl ⟨htaken, fun hboth => hboth.2 htimer, e, by rw [h]⟩)
    · exact .inr (.inl ⟨htaken, fun hboth => hboth.2 htimer, e, by rw [h]⟩)
    · exact .inr (.inr ⟨htaken, e, by rw [h]⟩)

/-- Nothing is taken of a withdrawal with the registered breaker, in any state of the
circuit. -/
theorem run_withdraw_registered {s : Services}
    (hsome : s.breakers circuitBreakerName = some registeredFunction) :
    (o.run (withdraw opossum s platformKey w) paid).2 = paid := by
  have hquiet := run_throughBreaker_registered o w platformKey paid opossum hsome
  unfold withdraw
  rcases run_bulkhead o w paid s.bulkheads (throughBreaker opossum s.breakers platformKey w) with
    ⟨hfn, -⟩ | ⟨⟨e, hlate⟩, -⟩
  · rw [hfn, hquiet]
  · rw [hlate, hquiet]

end Withdrawals

end Bridges
