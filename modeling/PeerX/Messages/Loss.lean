import PeerX.Messages.Sweeps

/-!
# Messages: no message is lost

A message in `processing` whose lease is gone waits for a sweep, unless it was acknowledged. The
hash says so by `acknowledgedAt`, which no later attempt clears: a claim of a message that was
acknowledged before is never recovered. Where every claim finds no acknowledgement, and a message in
`processing` is acknowledged by the instance that has claimed it only, the next sweep moves every
message whose claim was not acknowledged.

## Main results

* `Tracked.step`: an acknowledged message in `processing` is one whose claim was acknowledged
* `message_recovered`: no message is lost in a run whose steps meet the condition
* `message_lost`: a message that is acknowledged, retried and claimed again
-/

namespace Messages

open Concurrency

variable {ι : Type}

section Claims

variable (calls : ι → Call) (m : MessageId)

/-- `acknowledgeMessage` writes the hash. -/
def Acknowledges (e : RedisEvent ι) : Prop :=
  e.command.assigned = some m ∧ (calls e.thread).operation = .acknowledgeMessage m

instance : DecidablePred (Acknowledges calls m) := fun _ => inferInstanceAs (Decidable (_ ∧ _))

/-- The call that was the last one to claim the message. -/
def claimant (es : List (RedisEvent ι)) : Option ι :=
  (es.find? fun e => Claims calls m e).map (·.thread)

/-- The last claim was acknowledged by its own instance. -/
def Acknowledged (es : List (RedisEvent ι)) : Prop :=
  ∃ e ∈ since (fun e => Claims calls m e) es, Acknowledges calls m e ∧
    ∃ i ∈ claimant calls m es, (calls i).this.instanceId = (calls e.thread).this.instanceId

instance (es : List (RedisEvent ι)) : Decidable (Acknowledged calls m es) :=
  inferInstanceAs (Decidable (∃ e ∈ _, _ ∧ _))

/-- Claims are fresh: `markProcessing` claims a message that has no acknowledgement, and
`acknowledgeMessage` writes to a message in `processing` for the instance that has claimed it
only. -/
def Fresh (i : ι) (s : Served ι) (c : Command) : Prop :=
  c.assigned = some m →
    ((calls i).operation = .markProcessing m → (s.1.messages m).acknowledgedAt = none) ∧
    ((calls i).operation = .acknowledgeMessage m → (s.1.messages m).status = some .processing →
      ∃ j ∈ claimant calls m s.2, (calls j).this.instanceId = (calls i).this.instanceId)

instance (i : ι) (s : Served ι) : DecidablePred (Fresh calls m i s) :=
  fun _ => inferInstanceAs (Decidable (_ → _ ∧ _))

end Claims

section Steps

variable [DecidableEq ι] {calls : ι → Call} {m : MessageId} {d₀ s : Store} {e : RedisEvent ι}
  {es past : List (RedisEvent ι)} {i : ι}

omit [DecidableEq ι] in
/-- A command that is no claim leaves an acknowledged claim acknowledged. -/
theorem Acknowledged.cons (h : Acknowledged calls m es) (hclaims : ¬ Claims calls m e) :
    Acknowledged calls m (e :: es) := by
  obtain ⟨e', he', hack, hown⟩ := h
  refine ⟨e', ?_, hack, ?_⟩
  · unfold since
    rw [List.takeWhile_cons_of_pos (by simpa using hclaims)]
    exact List.mem_cons_of_mem e he'
  · unfold claimant
    rw [List.find?_cons_of_neg (by simpa using hclaims)]
    exact hown

omit [DecidableEq ι] in
/-- An acknowledgement of the instance that has claimed the message. -/
theorem acknowledged_cons (hack : Acknowledges calls m e)
    (hown : ∃ i ∈ claimant calls m es, (calls i).this.instanceId = (calls e.thread).this.instanceId) :
    Acknowledged calls m (e :: es) := by
  have hclaims : ¬ Claims calls m e := fun hclaims => by cases hclaims.2.symm.trans hack.2
  refine ⟨e, ?_, hack, ?_⟩
  · unfold since
    rw [List.takeWhile_cons_of_pos (by simpa using hclaims)]
    exact List.mem_cons_self
  · unfold claimant
    rw [List.find?_cons_of_neg (by simpa using hclaims)]
    exact hown

/-- The message has a status or a bound: it was persisted. -/
def MessageHash.Known (fields : MessageHash) : Prop :=
  fields.status ≠ none ∨ fields.maxAttempts ≠ none

/-- The invariant of the acknowledgements. -/
structure Tracked (calls : ι → Call) (m : MessageId) (s : Store) (es : List (RedisEvent ι)) : Prop where
  /-- A message in `processing` with an acknowledgement is one whose claim was acknowledged. -/
  acknowledged : (s.messages m).status = some .processing →
    (s.messages m).acknowledgedAt ≠ none → Acknowledged calls m es
  /-- A message that is known, or was known once, is stored. -/
  known : (s.messages m).Known → (s.messages m).messageId ≠ none
  looked : ∀ e ∈ es, (e.before.messages m).Known → (s.messages m).messageId ≠ none

omit [DecidableEq ι] in
theorem messageId_step (hn : Next calls e past) (hcleanup : ¬ (calls e.thread).operation.IsCleanup)
    (h : (s.messages m).messageId ≠ none) : ((redis e.command s).2.messages m).messageId ≠ none := by
  rcases hn.origin s m with ⟨horigin, -⟩ | ⟨-, hstored⟩ | ⟨hop, -⟩
  · rw [show ((redis e.command s).2.messages m).messageId = _ from congrArg Prod.fst horigin]
    exact h
  · exact hstored
  · exact absurd hop hcleanup

omit [DecidableEq ι] in
/-- A call that writes to a message persists it, or leaves it as known as it was, or has looked at
it. -/
theorem Next.known {fields : List HashField} {r : Unit}
    (h : Next calls ⟨i, s, .hset m fields, r⟩ past)
    (hreplies : ∀ e ∈ past, e.reply = (redis e.command e.before).1)
    (hknown : (s.messages m).Known → (s.messages m).messageId ≠ none)
    (hlooked : ∀ e ∈ past, (e.before.messages m).Known → (s.messages m).messageId ≠ none)
    (hafter : ((s.messages m).setAll fields).Known) :
    ((s.messages m).setAll fields).messageId ≠ none := by
  cases h with
  | reads hhash => cases hhash
  | persists => exact Option.some_ne_none _
  | renews | acknowledges => exact hknown hafter
  | @claims _ _ _ s₁ s₂ s₃ s₄ _ n k hop =>
    have hlook : (⟨i, s₂, .hgetStatus m, some .pending⟩ : RedisEvent ι) ∈
      [⟨i, s₄, .hgetMaxAttempts m, k⟩, ⟨i, s₃, .hincrbyAttempts m, n⟩,
        ⟨i, s₂, .hgetStatus m, some .pending⟩,
        ⟨i, s₁, .setNx m (.worker (calls i).this.instanceId), true⟩] := by simp
    have hreply : some .pending = (s₂.messages m).status := hreplies _ hlook
    exact hlooked _ hlook (.inl (by rw [← hreply]; exact Option.some_ne_none _))
  | @completes _ _ _ s₁ _ status hop | @fails _ _ _ s₁ _ error status hop =>
    -- the transition was checked against a status that the message had
    have hreply : some status = (s₁.messages m).status := hreplies _ List.mem_cons_self
    exact hlooked _ List.mem_cons_self (.inl (by rw [← hreply]; exact Option.some_ne_none _))
  | @retries _ _ _ s₁ s₂ _ attempts maxAttempts hop hbelow =>
    have hreply : maxAttempts = (s₂.messages m).maxAttempts := hreplies _ List.mem_cons_self
    refine hlooked _ List.mem_cons_self (.inr ?_)
    rw [← hreply]
    rintro rfl
    exact absurd hbelow (Nat.not_lt_zero _)
  | @requeues _ _ _ s₁ s₂ past _ fields message hop hmessage horphan hbelow
  | @exhausts _ _ _ s₁ s₂ past _ fields message hop hmessage horphan hbelow =>
    have hreply : fields = s₂.messages m := hreplies _ List.mem_cons_self
    refine hlooked _ List.mem_cons_self (.inl ?_)
    rw [← hreply, ← (MessageHash.status_of_message hmessage).1, horphan.1]
    exact Option.some_ne_none _

/-- **A step keeps the invariant.** -/
theorem Tracked.step (h : Tracked calls m e.before es) (hn : Next calls e (own e.thread es))
    (hp : Fresh calls m e.thread (e.before, es) e.command)
    (hcleanup : ¬ (calls e.thread).operation.IsCleanup)
    (hreplies : ∀ e' ∈ own e.thread es, e'.reply = (redis e'.command e'.before).1) :
    Tracked calls m (redis e.command e.before).2 (e :: es) := by
  -- only a cleanup deletes a hash
  have hdel : e.command ≠ .delMessage m := by
    intro hdel
    obtain ⟨i, s, c, r⟩ := e
    obtain rfl : c = _ := hdel
    cases hn with
    | reads hhash => cases hhash
    | cleans hop =>
      rw [hop] at hcleanup
      exact hcleanup trivial
  have hstays : ∀ e' ∈ e :: es, (e'.before.messages m).Known →
      ((redis e.command e.before).2.messages m).messageId ≠ none := by
    rintro e' he' hknown
    refine messageId_step hn hcleanup ?_
    rcases List.mem_cons.mp he' with rfl | he'
    · exact h.known hknown
    · exact h.looked e' he' hknown
  by_cases hassigned : e.command.assigned = some m
  swap
  · -- the hash of the message is as it was
    obtain ⟨a, ha⟩ := redis_hash (s := e.before) hassigned hdel
    refine ⟨?_, ?_, hstays⟩
    · rw [ha]
      exact fun hstatus hack => (h.acknowledged hstatus hack).cons fun hclaims => hassigned hclaims.1
    · rw [ha]
      exact h.known
  obtain ⟨i, s, c, r⟩ := e
  cases c with
  | hset id fields =>
    obtain rfl : id = m := Option.some.inj hassigned
    refine ⟨?_, fun hknown => ?_, hstays⟩
    · -- only a claim, a renewal and an acknowledgement leave the status `processing`
      rw [redis_hset_messages]
      intro hstatus hack
      generalize own i es = past at hn hreplies
      cases hn with
      | reads hhash => cases hhash
      | persists | completes | fails | retries | requeues | exhausts => cases hstatus
      | claims hop => exact absurd ((hp rfl).1 hop) hack
      | renews hop =>
        refine (h.acknowledged hstatus hack).cons fun hclaims => ?_
        cases hclaims.2.symm.trans hop
      | acknowledges hop => exact acknowledged_cons ⟨rfl, hop⟩ ((hp rfl).2 hop hstatus)
    · rw [redis_hset_messages] at hknown ⊢
      exact hn.known hreplies h.known (fun e' he' => h.looked e' (mem_own.mp he').1) hknown
  | _ => cases hassigned

end Steps

section Runs

variable [DecidableEq ι] {calls : ι → Call} {m : MessageId} {d₀ s : Store} {is : List ι}
  {es : List (RedisEvent ι)}

/-- The invariant holds in every state of a run with fresh claims. -/
theorem tracked_of_chronicle (hcleanup : ∀ i, ¬ (calls i).operation.IsCleanup)
    (hnew : d₀.messages m = {})
    (hc : Chronicle redis (fun e es => Next calls e (own e.thread es) ∧
      Fresh calls m e.thread (e.before, es) e.command) d₀ s es) : Tracked calls m s es := by
  refine hc.invariant (I := fun s es => Tracked calls m s es) ?_ ?_
  · refine ⟨fun hstatus => ?_, fun hknown => ?_, fun e he => (by cases he)⟩
    · rw [hnew] at hstatus
      cases hstatus
    · rw [hnew] at hknown
      exact hknown.elim (absurd rfl) (absurd rfl)
  · intro e es hc h hok _
    exact h.step hok.1 hok.2 (hcleanup _) fun e' he' => hc.reply (mem_own.mp he').1

/-- **No message is lost** in a run with fresh claims: a message in `processing` whose lease is gone
and whose claim was not acknowledged is moved by the next sweep, to `pending` or, when its attempts
are exhausted, to `failed`. The calls are those of any number of instances, and may stop
anywhere. -/
theorem message_recovered {c : Config Command Command.Reply Empty Result ι (Served ι)}
    (hcleanup : ∀ i, ¬ (calls i).operation.IsCleanup) (hnew : d₀.messages m = {})
    (hr : (serving calls d₀).run (redisMachine ι) is = some c)
    (ha : (serving calls d₀).Admitted (redisMachine ι) (fun i cmd s => Fresh calls m i s cmd) is)
    (hprocessing : (c.shared.1.messages m).status = some .processing)
    (hlease : c.shared.1.leases m = none) (hack : ¬ Acknowledged calls m c.shared.2) :
    ∃ message, c.shared.1.Stuck m message ∧ ∀ this now scanned, m ∈ scanned →
      (((recoverOrphanedMessages this now scanned).eval redis c.shared.1).2.messages m).status =
        some message.recoveredStatus := by
  have htracked := tracked_of_chronicle hcleanup hnew (chronicle_serving hr ha).1
  have hunacknowledged : (c.shared.1.messages m).acknowledgedAt = none := by
    by_contra hsome
    exact hack (htracked.acknowledged hprocessing hsome)
  have hid : (c.shared.1.messages m).messageId ≠ none :=
    htracked.known (.inl (by rw [hprocessing]; exact Option.some_ne_none _))
  obtain ⟨message, hstuck⟩ := stuck_of_status (Option.isSome_iff_ne_none.mpr hid) hprocessing
    hunacknowledged hlease
  exact ⟨message, hstuck, fun this now _ hmem => eval_recoverOrphanedMessages this now hstuck hmem⟩

end Runs

/-- A message that is persisted, claimed, acknowledged and retried by one instance, and claimed
again by another one whose lease expires. -/
def attempted : Fin 6 → Call
  | 0 => ⟨{ instanceId := 1 }, 10, .persistMessage 7 "orders" "{}" 3⟩
  | 1 => ⟨{ instanceId := 1 }, 20, .markProcessing 7⟩
  | 2 => ⟨{ instanceId := 1 }, 30, .acknowledgeMessage 7⟩
  | 3 => ⟨{ instanceId := 1 }, 40, .retryMessage 7⟩
  | 4 => ⟨{ instanceId := 2 }, 50, .markProcessing 7⟩
  | 5 => ⟨{ instanceId := 2 }, 80, .leaseExpiry 7⟩

/-- Without the acknowledgement of the first attempt, the second one is recovered. -/
theorem message_recovered_attempted : ∃ c,
    (serving attempted Store.empty).run (redisMachine (Fin 6)) ([0, 0, 0, 0] ++ [1, 1, 1, 1, 1] ++
      [3, 3, 3, 3, 3] ++ [4, 4, 4, 4, 4, 5]) = some c ∧
    ∃ message, c.shared.1.Stuck 7 message ∧ ∀ this now scanned, 7 ∈ scanned →
      (((recoverOrphanedMessages this now scanned).eval redis c.shared.1).2.messages 7).status =
        some message.recoveredStatus := by
  have hrun : ((serving attempted Store.empty).run (redisMachine (Fin 6)) ([0, 0, 0, 0] ++
      [1, 1, 1, 1, 1] ++ [3, 3, 3, 3, 3] ++ [4, 4, 4, 4, 4, 5])).any fun c =>
        (c.shared.1.messages 7).status = some .processing ∧ c.shared.1.leases 7 = none ∧
          ¬ Acknowledged attempted 7 c.shared.2 := by
    decide +kernel
  obtain ⟨c, hc, hrest⟩ := (Option.any_eq_true _ _).mp hrun
  obtain ⟨hstatus, hlease, hack⟩ := of_decide_eq_true hrest
  exact ⟨c, hc, message_recovered (by decide) rfl hc (by decide +kernel) hstatus hlease hack⟩

/-- **A message is lost.** Its first attempt was acknowledged, so no sweep recovers the second
one. -/
theorem message_lost : (∀ i, ¬ (attempted i).operation.IsCleanup) ∧ ∃ c,
    (serving attempted Store.empty).run (redisMachine (Fin 6)) ([0, 0, 0, 0] ++ [1, 1, 1, 1, 1] ++
      [2, 2, 2, 2] ++ [3, 3, 3, 3, 3] ++ [4, 4, 4, 4, 4, 5]) = some c ∧
    (c.shared.1.messages 7).status = some .processing ∧ c.shared.1.leases 7 = none ∧
      ¬ Acknowledged attempted 7 c.shared.2 ∧
      (((recoverOrphanedMessages { instanceId := 3 } 90 [7]).eval redis c.shared.1).2.messages
        7).status = some .processing := by
  have hrun : ((serving attempted Store.empty).run (redisMachine (Fin 6)) ([0, 0, 0, 0] ++
      [1, 1, 1, 1, 1] ++ [2, 2, 2, 2] ++ [3, 3, 3, 3, 3] ++ [4, 4, 4, 4, 4, 5])).any fun c =>
        (c.shared.1.messages 7).status = some .processing ∧ c.shared.1.leases 7 = none ∧
          ¬ Acknowledged attempted 7 c.shared.2 ∧
          (((recoverOrphanedMessages { instanceId := 3 } 90 [7]).eval redis c.shared.1).2.messages
            7).status = some .processing := by
    decide +kernel
  obtain ⟨c, hc, hlost⟩ := (Option.any_eq_true _ _).mp hrun
  exact ⟨by decide, c, hc, of_decide_eq_true hlost⟩

end Messages
