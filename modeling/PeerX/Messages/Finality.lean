import PeerX.Messages.Attempts

/-!
# Messages: completed is final

A message that was completed stays completed, until a cleanup deletes it, when `retryMessage` and
`markFailed` start on a message that is not completed, and when no call completes the message
between the look of another one and its write. `retryMessage` and `markFailed` do not check this
themselves, so a completed message can be retried and claimed again.

## Main results

* `not_completed_of_leaves`: a message is moved to another status only when it was never completed
* `completed_final`: completed is final in every run whose steps meet the condition
* `completed_reopened`: a completed message that is retried and claimed again
-/

namespace Messages

open Concurrency

/-- The command moves the message to another status than `completed`. -/
def Command.Leaves (m : MessageId) (c : Command) : Prop :=
  c.Sets m .pending ∨ c.Sets m .processing ∨ c.Sets m .failed

instance (m : MessageId) : DecidablePred (Command.Leaves m) :=
  fun _ => inferInstanceAs (Decidable (_ ∨ _ ∨ _))

theorem Command.Leaves.assigned {m : MessageId} {c : Command} (h : c.Leaves m) : c.assigned = some m := by
  rcases h with h | h | h <;> exact h.1

/-- `retryMessage` or `markFailed` of the message. -/
def Operation.Reopens (m : MessageId) : Operation → Prop
  | .retryMessage id | .markFailed id _ => id = m
  | _ => False

instance (m : MessageId) : DecidablePred (Operation.Reopens m) := fun o =>
  match o with
  | .retryMessage id | .markFailed id _ => inferInstanceAs (Decidable (id = m))
  | .persistMessage _ _ _ _ | .markProcessing _ | .renewProcessingLease _ | .acknowledgeMessage _
  | .markCompleted _ | .recoverOrphanedMessages _ | .cleanupCompletedMessages _ _
  | .leaseExpiry _ => isFalse not_false

variable {ι : Type} [DecidableEq ι]

/-- The message is not reopened: `retryMessage` and `markFailed` start on a message that is not
completed, and nobody completes it between the look of a call and its write. -/
def NotReopened (calls : ι → Call) (m : MessageId) (i : ι) (s : Served ι) (c : Command) : Prop :=
  ((calls i).operation.Reopens m → c.Looks m → (s.1.messages m).status ≠ some .completed) ∧
    (c.Leaves m → ∀ e ∈ sinceLook i m s.2, ¬ e.command.Sets m .completed)

instance (calls : ι → Call) (m : MessageId) (i : ι) (s : Served ι) :
    DecidablePred (NotReopened calls m i s) := fun _ => inferInstanceAs (Decidable (_ ∧ _))

/-- A command has completed the message. -/
def Completed (m : MessageId) (es : List (RedisEvent ι)) : Prop :=
  ∃ e ∈ es, e.command.Sets m .completed

/-- The message is completed, or a cleanup has deleted it. -/
def Closed (m : MessageId) (s : Store) (es : List (RedisEvent ι)) : Prop :=
  (s.messages m).status = some .completed ∨ (s.messages m).status = none ∧
    (s.messages m).maxAttempts = none ∧ ∃ e ∈ es, e.command = .delMessage m

section Steps

variable {calls : ι → Call} {m : MessageId} {d₀ s : Store} {e : RedisEvent ι}
  {es past : List (RedisEvent ι)} {i : ι}

omit [DecidableEq ι] in
theorem maxAttempts_none_step (h : Next calls e past)
    (hpersisted : (calls e.thread).operation.persisted ≠ some m)
    (hnone : (s.messages m).maxAttempts = none) :
    ((redis e.command s).2.messages m).maxAttempts = none := by
  rcases h.origin s m with ⟨horigin, -⟩ | ⟨hop, -⟩ | ⟨-, hdeleted⟩
  · exact (congrArg (·.2.2) horigin).trans hnone
  · exact absurd hop hpersisted
  · rw [hdeleted]

/-- A bound that was not there at a command is not there later. -/
theorem maxAttempts_none_of_mem {P : RedisEvent ι → List (RedisEvent ι) → Prop}
    (hpersisted : ∀ i, (calls i).operation.persisted ≠ some m)
    (hc : Chronicle redis (fun e es => Next calls e (own e.thread es) ∧ P e es) d₀ s es) (he : e ∈ es)
    (hnone : (e.before.messages m).maxAttempts = none) : (s.messages m).maxAttempts = none := by
  obtain ⟨new, old, rfl⟩ := List.append_of_mem he
  obtain ⟨-, hok, hnew⟩ := hc.before
  refine hnew.invariant (I := fun s _ => (s.messages m).maxAttempts = none)
    (maxAttempts_none_step hok.1 (hpersisted _) hnone) ?_
  exact fun e' _ _ h hok _ => maxAttempts_none_step hok.1 (hpersisted _) h

omit [DecidableEq ι] in
theorem Command.Looks.not_sets {c : Command} {status : MessageStatus} (h : c.Looks m) :
    ¬ c.Sets m status := by
  rcases h with rfl | rfl | rfl <;> exact fun hset => by cases hset.1

omit [DecidableEq ι] in
/-- A call that looks at a closed message and finds it neither completed nor gone. -/
theorem not_completed_of_look {new old : List (RedisEvent ι)} (hlook : e.command.Looks m)
    (hnew : ∀ e ∈ new, ¬ e.command.Sets m .completed)
    (hclosed : Completed m old → Closed m e.before old)
    (hopen : (e.before.messages m).status ≠ some .completed)
    (hgone : (e.before.messages m).status = none → (e.before.messages m).maxAttempts ≠ none) :
    ¬ Completed m (new ++ e :: old) := by
  rintro ⟨e', he', hset⟩
  rcases List.mem_append.mp he' with hmem | hmem
  · exact hnew e' hmem hset
  rcases List.mem_cons.mp hmem with rfl | hmem
  · exact hlook.not_sets hset
  rcases hclosed ⟨e', hmem, hset⟩ with hcompleted | ⟨hnone, hmax, -⟩
  · exact hopen hcompleted
  · exact hgone hnone hmax

omit [DecidableEq ι] in
/-- A call that looks at a message and finds it in another status. -/
theorem not_completed_of_status {new old : List (RedisEvent ι)} {status : MessageStatus}
    (hlook : e.command.Looks m) (hnew : ∀ e ∈ new, ¬ e.command.Sets m .completed)
    (hclosed : Completed m old → Closed m e.before old)
    (hstatus : (e.before.messages m).status = some status) (hne : status ≠ .completed) :
    ¬ Completed m (new ++ e :: old) := by
  refine not_completed_of_look hlook hnew hclosed (fun he => hne ?_) fun he => ?_
  · exact Option.some.inj (hstatus.symm.trans he)
  · cases hstatus.symm.trans he

/-- **A message is moved to another status only when it was never completed.** -/
theorem not_completed_of_leaves {fields : List HashField} {r : Unit}
    (hpersisted : ∀ i, (calls i).operation.persisted ≠ some m)
    (hc : Chronicle redis (fun e es => Next calls e (own e.thread es) ∧
      NotReopened calls m e.thread (e.before, es) e.command) d₀ s es)
    (hclosed : ∀ e new old, es = new ++ e :: old → Completed m old → Closed m e.before old)
    (hn : Next calls ⟨i, s, .hset m fields, r⟩ (own i es)) (hleaves : (Command.hset m fields).Leaves m)
    (hseen : ∀ e ∈ sinceLook i m es, ¬ e.command.Sets m .completed) : ¬ Completed m es := by
  generalize hown : own i es = past at hn
  simp only [Command.Leaves, Command.Sets, Command.assigned, Command.fields, true_and] at hleaves
  cases hn with
  | reads hhash => cases hhash
  | persists hop => exact absurd (by rw [hop]; rfl) (hpersisted i)
  | renews | acknowledges | completes => simp at hleaves
  | @claims _ _ _ s₁ s₂ s₃ s₄ _ n k hop =>
    -- the claim has read `pending`
    have hlook : (Command.hgetStatus m).Looks m := .inl rfl
    obtain ⟨new, old, rfl, hsince⟩ := split_of_look
      (show own i es = [⟨i, s₄, .hgetMaxAttempts m, k⟩, ⟨i, s₃, .hincrbyAttempts m, n⟩] ++
        ⟨i, s₂, .hgetStatus m, some .pending⟩ :: [_] from hown) hlook (by simp [Command.Looks])
    rw [hsince] at hseen
    have hpending : some .pending = (s₂.messages m).status :=
      hc.reply (List.mem_append_right _ List.mem_cons_self)
    exact not_completed_of_status hlook hseen (hclosed _ new old rfl) hpending.symm (by decide)
  | @fails _ _ _ s₁ _ error status hop =>
    -- the failure has found the message, and its look was not at a completed one
    have hlook : (Command.hgetStatus m).Looks m := .inl rfl
    obtain ⟨new, old, rfl, hsince⟩ := split_of_last_look hown hlook
    rw [hsince] at hseen
    have hstatus : some status = (s₁.messages m).status :=
      hc.reply (List.mem_append_right _ List.mem_cons_self)
    have hreopens : (calls i).operation.Reopens m := by rw [hop]; rfl
    refine not_completed_of_look hlook hseen (hclosed _ new old rfl)
      (hc.before.2.1.2.1 hreopens hlook) ?_
    rw [← hstatus]
    exact fun he => by cases he
  | @retries _ _ _ s₁ s₂ _ attempts maxAttempts hop hbelow =>
    have hlook : (Command.hgetAttempts m).Looks m := .inr (.inl rfl)
    -- the bound was there after the look
    obtain ⟨newer, older, hes, -, holder⟩ := split_of_own (show own i es = [] ++
      ⟨i, s₂, .hgetMaxAttempts m, maxAttempts⟩ :: [⟨i, s₁, .hgetAttempts m, attempts⟩] from hown)
    have hbound : (s₂.messages m).maxAttempts ≠ none := by
      have hmax : maxAttempts = (s₂.messages m).maxAttempts := by
        rw [hes] at hc
        exact hc.reply (List.mem_append_right _ List.mem_cons_self)
      rw [← hmax]
      rintro rfl
      exact absurd hbelow (Nat.not_lt_zero _)
    have hmem : (⟨i, s₁, .hgetAttempts m, attempts⟩ : RedisEvent ι) ∈ older := by
      refine (mem_own.mp (show _ ∈ own i older from ?_)).1
      rw [holder]
      exact List.mem_cons_self
    have hgone : (s₁.messages m).maxAttempts ≠ none := fun hnone => by
      rw [hes] at hc
      exact hbound (maxAttempts_none_of_mem hpersisted hc.before.1 hmem hnone)
    obtain ⟨new, old, rfl, hsince⟩ := split_of_look
      (show own i es = [⟨i, s₂, .hgetMaxAttempts m, maxAttempts⟩] ++
        ⟨i, s₁, .hgetAttempts m, attempts⟩ :: [] from hown) hlook (by simp [Command.Looks])
    rw [hsince] at hseen
    have hreopens : (calls i).operation.Reopens m := by rw [hop]; rfl
    exact not_completed_of_look hlook hseen (hclosed _ new old rfl)
      (hc.before.2.1.2.1 hreopens hlook) fun _ => hgone
  | @requeues _ _ _ s₁ s₂ past _ fields message hop hmessage horphan hbelow
  | @exhausts _ _ _ s₁ s₂ past _ fields message hop hmessage horphan hbelow =>
    -- the sweep has read `processing`
    have hlook : (Command.hgetall m).Looks m := .inr (.inr rfl)
    obtain ⟨new, old, rfl, hsince⟩ := split_of_last_look hown hlook
    rw [hsince] at hseen
    have hfields : fields = s₂.messages m := hc.reply (List.mem_append_right _ List.mem_cons_self)
    have hprocessing : (s₂.messages m).status = some .processing := by
      rw [← hfields, ← (MessageHash.status_of_message hmessage).1]
      exact horphan.1
    exact not_completed_of_status hlook hseen (hclosed _ new old rfl) hprocessing (by decide)

theorem setAll_status {fields : List HashField} (h : ∀ status, .status status ∉ fields)
    (hash : MessageHash) : (hash.setAll fields).status = hash.status := by
  induction fields generalizing hash with
  | nil => rfl
  | cons f fs ih =>
    rw [MessageHash.setAll_cons, ih fun status hmem => h status (List.mem_cons_of_mem f hmem)]
    cases f with
    | status v => exact absurd List.mem_cons_self (h v)
    | _ => rfl

omit [DecidableEq ι] in
/-- A command that neither completes the message nor moves it elsewhere leaves it closed. -/
theorem Closed.step (h : Closed m e.before es) (hn : Next calls e past)
    (hpersisted : (calls e.thread).operation.persisted ≠ some m)
    (hset : ¬ e.command.Sets m .completed) (hleaves : ¬ e.command.Leaves m) :
    Closed m (redis e.command e.before).2 (e :: es) := by
  by_cases hdel : e.command = .delMessage m
  · refine .inr ?_
    have hempty : (redis (.delMessage m) e.before).2.messages m = {} := Function.update_self ..
    rw [hdel, hempty]
    exact ⟨rfl, rfl, e, List.mem_cons_self, hdel⟩
  have hstatus : ((redis e.command e.before).2.messages m).status = (e.before.messages m).status := by
    by_cases hassigned : e.command.assigned = some m
    · obtain ⟨i, s, c, r⟩ := e
      cases c with
      | hset id fields =>
        obtain rfl : id = m := Option.some.inj hassigned
        rw [redis_hset_messages]
        refine setAll_status (fun status hmem => ?_) _
        have hsets : (Command.hset id fields).Sets id status := ⟨rfl, hmem⟩
        cases status with
        | pending => exact hleaves (.inl hsets)
        | processing => exact hleaves (.inr (.inl hsets))
        | failed => exact hleaves (.inr (.inr hsets))
        | completed => exact hset hsets
      | _ => cases hassigned
    · obtain ⟨a, ha⟩ := redis_hash (s := e.before) hassigned hdel
      rw [ha]
  rcases h with hcompleted | ⟨hnone, hmax, e', he', hdeleted⟩
  · exact .inl (hstatus.trans hcompleted)
  · exact .inr ⟨hstatus.trans hnone, maxAttempts_none_step hn hpersisted hmax, e',
      List.mem_cons_of_mem e he', hdeleted⟩

theorem not_completed_of_step (hpersisted : ∀ i, (calls i).operation.persisted ≠ some m)
    (hc : Chronicle redis (fun e es => Next calls e (own e.thread es) ∧
      NotReopened calls m e.thread (e.before, es) e.command) d₀ e.before es)
    (hclosed : ∀ e new old, es = new ++ e :: old → Completed m old → Closed m e.before old)
    (hn : Next calls e (own e.thread es)) (hp : NotReopened calls m e.thread (e.before, es) e.command)
    (hleaves : e.command.Leaves m) : ¬ Completed m es := by
  obtain ⟨i, s, c, r⟩ := e
  cases c with
  | hset id fields =>
    obtain rfl : id = m := Option.some.inj hleaves.assigned
    exact not_completed_of_leaves hpersisted hc hclosed hn hleaves (hp.2 hleaves)
  | _ => cases hleaves.assigned

omit [DecidableEq ι] in
/-- A message that is moved to `completed` is completed. -/
theorem Next.completed (h : Next calls e past)
    (hpersisted : (calls e.thread).operation.persisted ≠ some m) (hset : e.command.Sets m .completed) :
    (calls e.thread).operation = .markCompleted m ∧
      ((redis e.command e.before).2.messages m).status = some .completed := by
  obtain ⟨i, s, c, r⟩ := e
  cases c with
  | hset id fields =>
    obtain rfl : id = m := Option.some.inj hset.1
    have hmem : .status .completed ∈ fields := hset.2
    cases h with
    | reads hhash => cases hhash
    | persists hop => exact absurd (by rw [hop]; rfl) hpersisted
    | completes hop =>
      rw [redis_hset_messages]
      exact ⟨hop, rfl⟩
    | claims | renews | acknowledges | fails | retries | requeues | exhausts => simp at hmem
  | _ => cases hset.1

omit [DecidableEq ι] in
/-- `markCompleted` writes `completed`. -/
theorem Next.sets_completed (h : Next calls e past)
    (hop : (calls e.thread).operation = .markCompleted m) (hassigned : e.command.assigned = some m) :
    e.command.Sets m .completed := by
  obtain ⟨i, s, c, r⟩ := e
  refine ⟨hassigned, ?_⟩
  cases h with
  | reads hhash =>
    cases c with
    | hset id fields => cases hhash
    | _ => cases hassigned
  | completes => exact List.mem_cons_self
  | persists h | claims h | renews h | acknowledges h | fails h | retries h => cases hop.symm.trans h
  | requeues h | exhausts h =>
    rw [hop] at h
    exact absurd h not_false
  | lists | takes | gives | counts | deletes | recovers | announces | drops | cleans | unlists
  | expires => cases hassigned

section Chronicles

variable (hpersisted : ∀ i, (calls i).operation.persisted ≠ some m)
include hpersisted

/-- A completed message is closed, in every state of a run that does not reopen it. -/
theorem closed_of_chronicle (hc : Chronicle redis (fun e es => Next calls e (own e.thread es) ∧
    NotReopened calls m e.thread (e.before, es) e.command) d₀ s es) (h : Completed m es) :
    Closed m s es := by
  -- the look of a call is in an earlier state, so the induction is on the number of commands
  induction hn : es.length using Nat.strongRecOn generalizing s es with
  | _ n ih =>
    cases es with
    | nil =>
      obtain ⟨e, he, -⟩ := h
      cases he
    | cons e es =>
      obtain ⟨hexec, ⟨hnext, hp⟩, hold⟩ := hc
      obtain rfl : (redis e.command e.before).2 = s := by rw [hexec]
      have hprefix : ∀ e₁ new old, es = new ++ e₁ :: old → Completed m old →
          Closed m e₁.before old := by
        rintro e₁ new old rfl hcompleted
        refine ih old.length ?_ hold.before.1 hcompleted rfl
        rw [← hn]
        simp only [List.length_cons, List.length_append]
        omega
      by_cases hset : e.command.Sets m .completed
      · exact .inl (hnext.completed (hpersisted _) hset).2
      · obtain ⟨e', he', hcompletes⟩ := h
        have hes : Completed m es := by
          rcases List.mem_cons.mp he' with rfl | he'
          · exact absurd hcompletes hset
          · exact ⟨e', he', hcompletes⟩
        have hclosed := ih es.length (by rw [← hn]; exact Nat.lt_succ_self _) hold hes rfl
        refine hclosed.step hnext (hpersisted _) hset fun hleaves => ?_
        exact not_completed_of_step hpersisted hold hprefix hnext hp hleaves hes

/-- A message that was completed is not moved to another status. -/
theorem not_leaves_of_completed {new old : List (RedisEvent ι)}
    (hc : Chronicle redis (fun e es => Next calls e (own e.thread es) ∧
      NotReopened calls m e.thread (e.before, es) e.command) d₀ s (new ++ e :: old))
    (h : Completed m old) : ¬ e.command.Leaves m := by
  obtain ⟨hold, ⟨hnext, hp⟩, -⟩ := hc.before
  refine fun hleaves => not_completed_of_step hpersisted hold ?_ hnext hp hleaves h
  rintro e₁ newer older rfl
  exact closed_of_chronicle hpersisted hold.before.1

end Chronicles

end Steps

/-! ## Runs -/

section Runs

variable {calls : ι → Call} {m : MessageId} {d₀ : Store} {is : List ι}

/-- Completed is final. -/
structure Finished (calls : ι → Call) (m : MessageId)
    (c : Config Command Command.Reply Empty Result ι (Served ι)) : Prop where
  /-- When a `markCompleted` call has returned `true`, the message is completed, or a cleanup has
  deleted it. -/
  final : ∀ i, (calls i).operation = .markCompleted m → c.threads i = .ret (.answered true) →
    (c.shared.1.messages m).status = some .completed ∨ (c.shared.1.messages m).status = none ∧
      ∃ e ∈ c.shared.2, e.command = .delMessage m
  /-- Once it was completed, the message is not claimed, re-queued, retried or failed. -/
  unclaimed : ∀ new e old, c.shared.2 = new ++ e :: old → Completed m old → ¬ e.command.Leaves m

/-- **Completed is final** in every run in which `retryMessage` and `markFailed` start on a message
that is not completed, and in which nobody completes the message between the look of a call and its
write. -/
theorem completed_final {c : Config Command Command.Reply Empty Result ι (Served ι)}
    (hpersisted : ∀ i, (calls i).operation.persisted ≠ some m)
    (hr : (serving calls d₀).run (redisMachine ι) is = some c)
    (ha : (serving calls d₀).Admitted (redisMachine ι) (fun i cmd s => NotReopened calls m i s cmd) is) :
    Finished calls m c := by
  obtain ⟨hc, hall⟩ := chronicle_serving hr ha
  refine ⟨fun i hop hret => ?_, fun new e old hes hcompleted => ?_⟩
  · -- the call has written the hash, and it writes `completed`
    have hanswered := hall i
    rw [hret] at hanswered
    obtain ⟨e, he, hassigned⟩ := hanswered rfl m (by rw [hop]; rfl)
    obtain ⟨hmem, hthread⟩ := mem_own.mp he
    obtain ⟨older, hok⟩ := hc.ok_of_mem hmem
    have hset := hok.1.sets_completed (by rw [hthread]; exact hop) hassigned
    rcases closed_of_chronicle hpersisted hc ⟨e, hmem, hset⟩ with hcompleted | ⟨hnone, -, hdeleted⟩
    · exact .inl hcompleted
    · exact .inr ⟨hnone, hdeleted⟩
  · rw [hes] at hc
    exact not_leaves_of_completed hpersisted hc hcompleted

end Runs

/-- A worker that completes the message, a retry, and a sweep with another worker. -/
def retried : Fin 4 → Call
  | 0 => ⟨{ instanceId := 1 }, 10, .markProcessing 7⟩
  | 1 => ⟨{ instanceId := 1 }, 20, .markCompleted 7⟩
  | 2 => ⟨{ instanceId := 2 }, 30, .retryMessage 7⟩
  | 3 => ⟨{ instanceId := 2 }, 40, .markProcessing 7⟩

/-- The message is retried before it is completed, and claimed again only then. -/
theorem completed_final_retried : ∃ c, (serving retried (stored 7 "orders" 3)).run (redisMachine (Fin 4))
      ([2, 2, 2, 2, 2] ++ [0, 0, 0, 0, 0] ++ [1, 1, 1, 1] ++ [3, 3, 3]) = some c ∧
    Finished retried 7 c ∧ (c.shared.1.messages 7).status = some .completed := by
  have hrun : ((serving retried (stored 7 "orders" 3)).run (redisMachine (Fin 4))
      ([2, 2, 2, 2, 2] ++ [0, 0, 0, 0, 0] ++ [1, 1, 1, 1] ++ [3, 3, 3])).any
        fun c => (c.shared.1.messages 7).status = some .completed := by
    decide +kernel
  obtain ⟨c, hc, hstatus⟩ := (Option.any_eq_true _ _).mp hrun
  exact ⟨c, hc, completed_final (by decide) hc (by decide +kernel), of_decide_eq_true hstatus⟩

/-- **A completed message is claimed again**, when it is retried. -/
theorem completed_reopened : (∀ i, (retried i).operation.persisted ≠ some 7) ∧
    ∃ c, (serving retried (stored 7 "orders" 3)).run (redisMachine (Fin 4))
      ([0, 0, 0, 0, 0] ++ [1, 1, 1, 1] ++ [2, 2, 2, 2, 2] ++ [3, 3, 3, 3, 3]) = some c ∧
    c.threads 1 = .ret (.answered true) ∧ c.threads 3 = .ret (.answered true) ∧
      (c.shared.1.messages 7).status = some .processing ∧ ¬ Finished retried 7 c := by
  have hrun : ((serving retried (stored 7 "orders" 3)).run (redisMachine (Fin 4))
      ([0, 0, 0, 0, 0] ++ [1, 1, 1, 1] ++ [2, 2, 2, 2, 2] ++ [3, 3, 3, 3, 3])).any fun c =>
        (c.threads 1).result = some (.answered true) ∧ (c.threads 3).result = some (.answered true) ∧
          (c.shared.1.messages 7).status = some .processing := by
    decide +kernel
  obtain ⟨c, hc, hrest⟩ := (Option.any_eq_true _ _).mp hrun
  obtain ⟨hcompleted, hclaimed, hstatus⟩ := of_decide_eq_true hrest
  refine ⟨by decide, c, hc, Prog.result_eq_some.mp hcompleted, Prog.result_eq_some.mp hclaimed, hstatus,
    fun hfinished => ?_⟩
  rcases hfinished.final 1 rfl (Prog.result_eq_some.mp hcompleted) with hfinal | ⟨hnone, -⟩
  · exact absurd (hstatus.symm.trans hfinal) (by decide)
  · exact absurd (hstatus.symm.trans hnone) (by decide)

end Messages
