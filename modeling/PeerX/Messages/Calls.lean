import PeerX.Messages.ZeroLoss
import PeerX.Foundations.Chronicle

/-!
# Messages: what a call does

Each command of a call that writes a hash or a lease, next to the commands of the same call before
it. This is all that the properties of runs use of the programs.

## Main results

* `Next.origin`: a step keeps the id, the queue and the bound of a message
* `obeys_program`: every call does what `Next` says
* `chronicle_serving`: a run of any number of calls is a chronicle of such commands
-/

namespace Messages

open Concurrency

/-! ## Commands and operations -/

/-- The message whose hash `HSET` writes. -/
def Command.assigned : Command → Option MessageId
  | .hset id _ => some id
  | _ => none

/-- The fields that `HSET` assigns. -/
def Command.fields : Command → List HashField
  | .hset _ fields => fields
  | _ => []

/-- The command moves the message to the status. -/
def Command.Sets (m : MessageId) (status : MessageStatus) (c : Command) : Prop :=
  c.assigned = some m ∧ .status status ∈ c.fields

instance (m : MessageId) (status : MessageStatus) : DecidablePred (Command.Sets m status) :=
  fun _ => inferInstanceAs (Decidable (_ ∧ _))

/-- The command looks at the status or the attempts of the message. -/
def Command.Looks (m : MessageId) (c : Command) : Prop :=
  c = .hgetStatus m ∨ c = .hgetAttempts m ∨ c = .hgetall m

instance (m : MessageId) : DecidablePred (Command.Looks m) :=
  fun _ => inferInstanceAs (Decidable (_ ∨ _ ∨ _))

/-- The message whose lease expires. -/
def Command.expired : Command → Option MessageId
  | .leaseExpires id => some id
  | _ => none

/-- The message whose lease is deleted. -/
def Command.released : Command → Option MessageId
  | .delLease id => some id
  | _ => none

/-- The commands about a message: those on its lease, and the write of its hash. -/
theorem Command.about_cases (m : MessageId) (c : Command) :
    (c.lease ≠ some m ∧ c.assigned ≠ some m) ∨ (∃ owner, c = .setNx m owner) ∨ c = .delLease m ∨
      c = .leaseExpires m ∨ ∃ fields, c = .hset m fields := by
  cases c with
  | setNx id owner =>
    by_cases hid : id = m
    · exact .inr (.inl ⟨owner, by rw [hid]⟩)
    · exact .inl ⟨fun h => hid (Option.some.inj h), fun h => by cases h⟩
  | delLease id =>
    by_cases hid : id = m
    · exact .inr (.inr (.inl (by rw [hid])))
    · exact .inl ⟨fun h => hid (Option.some.inj h), fun h => by cases h⟩
  | leaseExpires id =>
    by_cases hid : id = m
    · exact .inr (.inr (.inr (.inl (by rw [hid]))))
    · exact .inl ⟨fun h => hid (Option.some.inj h), fun h => by cases h⟩
  | hset id fields =>
    by_cases hid : id = m
    · exact .inr (.inr (.inr (.inr ⟨fields, by rw [hid]⟩)))
    · exact .inl ⟨fun h => (by cases h), fun h => hid (Option.some.inj h)⟩
  | _ => exact .inl ⟨fun h => (by cases h), fun h => (by cases h)⟩

/-- The message that is added to the set of a queue, or removed from it. -/
def Command.listed : Command → Option MessageId
  | .sadd _ id | .srem _ id => some id
  | _ => none

/-- The message that a recovery sweep reports as moved. -/
def Command.announced : Command → Option MessageId
  | .emit (.requeued id _) => some id
  | .emit (.failed id none (some _)) => some id
  | _ => none

/-- A recovery sweep. -/
def Operation.IsSweep : Operation → Prop
  | .recoverOrphanedMessages _ => True
  | _ => False

instance : DecidablePred Operation.IsSweep := fun o =>
  match o with
  | .recoverOrphanedMessages _ => isTrue trivial
  | .persistMessage _ _ _ _ | .markProcessing _ | .renewProcessingLease _ | .acknowledgeMessage _
  | .markCompleted _ | .markFailed _ _ | .retryMessage _ | .cleanupCompletedMessages _ _
  | .leaseExpiry _ => isFalse id

/-- The operation ends the processing of the message: it writes the hash and deletes the lease. -/
def Operation.Ends (id : MessageId) : Operation → Prop
  | .acknowledgeMessage id' | .markCompleted id' | .markFailed id' _ | .retryMessage id' => id' = id
  | _ => False

instance (id : MessageId) : DecidablePred (Operation.Ends id) := fun o =>
  match o with
  | .acknowledgeMessage id' | .markCompleted id' | .markFailed id' _ | .retryMessage id' =>
    inferInstanceAs (Decidable (id' = id))
  | .persistMessage _ _ _ _ | .markProcessing _ | .renewProcessingLease _
  | .recoverOrphanedMessages _ | .cleanupCompletedMessages _ _ | .leaseExpiry _ => isFalse not_false

/-- The message that the operation persists. -/
def Operation.persisted : Operation → Option MessageId
  | .persistMessage id _ _ _ => some id
  | _ => none

/-- A cleanup of completed messages. -/
def Operation.IsCleanup : Operation → Prop
  | .cleanupCompletedMessages _ _ => True
  | _ => False

instance : DecidablePred Operation.IsCleanup := fun o =>
  match o with
  | .cleanupCompletedMessages _ _ => isTrue trivial
  | .persistMessage _ _ _ _ | .markProcessing _ | .renewProcessingLease _ | .acknowledgeMessage _
  | .markCompleted _ | .markFailed _ _ | .retryMessage _ | .recoverOrphanedMessages _
  | .leaseExpiry _ => isFalse id

variable {ι : Type}

/-- A sweep that has just moved a message reports it before it goes on. -/
def Quiet (o : Operation) (past : List (RedisEvent ι)) : Prop :=
  o.IsSweep → ∀ e ∈ past.head?, e.command.assigned = none

theorem quiet_nil (o : Operation) : Quiet o ([] : List (RedisEvent ι)) := fun _ e he => by cases he

theorem quiet_of_not_sweep {o : Operation} (h : ¬ o.IsSweep) (past : List (RedisEvent ι)) :
    Quiet o past := fun ho => absurd ho h

theorem quiet_cons {o : Operation} {e : RedisEvent ι} (h : e.command.assigned = none)
    (past : List (RedisEvent ι)) : Quiet o (e :: past) := by
  rintro - e' he'
  obtain rfl : e = e' := Option.some.inj he'
  exact h

/-! ## What a call does next -/

/-- **The command is what its call does after the commands `past`**, the newest first. -/
inductive Next (calls : ι → Call) : RedisEvent ι → List (RedisEvent ι) → Prop
  /-- A command that writes no hash, no lease and no set of ids. -/
  | reads {i s c r past} (hhash : c.hash = none) (hlease : c.lease = none) (hlisted : c.listed = none)
      (hannounced : c.announced = none) (hquiet : Quiet (calls i).operation past) :
      Next calls ⟨i, s, c, r⟩ past
  | persists {i s r past id queueName data maxAttempts nodes}
      (h : (calls i).operation = .persistMessage id queueName data maxAttempts) :
      Next calls ⟨i, s, .hset id (toHashFields id queueName data maxAttempts (calls i).now nodes), r⟩
        past
  | lists {i s r past id queueName data maxAttempts}
      (h : (calls i).operation = .persistMessage id queueName data maxAttempts) :
      Next calls ⟨i, s, .sadd queueName id, r⟩ past
  /-- `markProcessing` claims the lease. -/
  | takes {i s r id} (h : (calls i).operation = .markProcessing id) :
      Next calls ⟨i, s, .setNx id (.worker (calls i).this.instanceId), r⟩ []
  /-- `markProcessing` gives the lease back: the message is not pending. -/
  | gives {i s r s₁ s₂ id status} (h : (calls i).operation = .markProcessing id)
      (hstatus : status ≠ some .pending) :
      Next calls ⟨i, s, .delLease id, r⟩ [⟨i, s₂, .hgetStatus id, status⟩,
        ⟨i, s₁, .setNx id (.worker (calls i).this.instanceId), true⟩]
  | counts {i s r s₁ s₂ id} (h : (calls i).operation = .markProcessing id) :
      Next calls ⟨i, s, .hincrbyAttempts id, r⟩ [⟨i, s₂, .hgetStatus id, some .pending⟩,
        ⟨i, s₁, .setNx id (.worker (calls i).this.instanceId), true⟩]
  /-- `markProcessing` moves the message to `processing`. -/
  | claims {i s r s₁ s₂ s₃ s₄ id n m} (h : (calls i).operation = .markProcessing id) :
      Next calls ⟨i, s, .hset id [.status .processing, .updatedAt (calls i).now], r⟩
        [⟨i, s₄, .hgetMaxAttempts id, m⟩, ⟨i, s₃, .hincrbyAttempts id, n⟩,
          ⟨i, s₂, .hgetStatus id, some .pending⟩,
          ⟨i, s₁, .setNx id (.worker (calls i).this.instanceId), true⟩]
  | renews {i s r past id} (h : (calls i).operation = .renewProcessingLease id) :
      Next calls ⟨i, s, .hset id [.updatedAt (calls i).now], r⟩ past
  | acknowledges {i s r s₁ id status} (h : (calls i).operation = .acknowledgeMessage id) :
      Next calls ⟨i, s, .hset id [.acknowledgedAt (some (calls i).now), .updatedAt (calls i).now], r⟩
        [⟨i, s₁, .hgetStatus id, some status⟩]
  | completes {i s r s₁ id status} (h : (calls i).operation = .markCompleted id) :
      Next calls ⟨i, s, .hset id [.status .completed, .completedAt (some (calls i).now),
        .updatedAt (calls i).now], r⟩ [⟨i, s₁, .hgetStatus id, some status⟩]
  | fails {i s r s₁ id error status} (h : (calls i).operation = .markFailed id error) :
      Next calls ⟨i, s, .hset id [.status .failed, .error error, .failedAt (some (calls i).now),
        .updatedAt (calls i).now], r⟩ [⟨i, s₁, .hgetStatus id, some status⟩]
  | retries {i s r s₁ s₂ id} {attempts maxAttempts : Option ℕ}
      (h : (calls i).operation = .retryMessage id)
      (hbelow : attempts.getD 0 < maxAttempts.getD 0) :
      Next calls ⟨i, s, .hset id [.status .pending, .error "", .updatedAt (calls i).now], r⟩
        [⟨i, s₂, .hgetMaxAttempts id, maxAttempts⟩, ⟨i, s₁, .hgetAttempts id, attempts⟩]
  /-- The end of `acknowledgeMessage`, `markCompleted`, `markFailed` and `retryMessage`. -/
  | deletes {i s r past id} (h : (calls i).operation.Ends id) : Next calls ⟨i, s, .delLease id, r⟩ past
  /-- A sweep claims the lease of an orphan. -/
  | recovers {i s r past id} (h : (calls i).operation.IsSweep)
      (hquiet : Quiet (calls i).operation past) :
      Next calls ⟨i, s, .setNx id (.recovery (calls i).this.instanceId), r⟩ past
  /-- A sweep moves an orphan back to `pending`. -/
  | requeues {i s r s₁ s₂ past id fields message} (h : (calls i).operation.IsSweep)
      (hmessage : fields.message = some message) (horphan : message.Orphan)
      (hbelow : message.Below) :
      Next calls ⟨i, s, .hset id [.status .pending, .updatedAt (calls i).now], r⟩
        (⟨i, s₂, .hgetall id, fields⟩ ::
          ⟨i, s₁, .setNx id (.recovery (calls i).this.instanceId), true⟩ :: past)
  /-- A sweep moves an orphan to `failed`. -/
  | exhausts {i s r s₁ s₂ past id fields message} (h : (calls i).operation.IsSweep)
      (hmessage : fields.message = some message) (horphan : message.Orphan)
      (hbelow : ¬ message.Below) :
      Next calls ⟨i, s, .hset id [.status .failed, .error "Acknowledgment timeout",
        .failedAt (some (calls i).now), .updatedAt (calls i).now], r⟩
        (⟨i, s₂, .hgetall id, fields⟩ ::
          ⟨i, s₁, .setNx id (.recovery (calls i).this.instanceId), true⟩ :: past)
  | announces {i s r s₁ past id event fields} (h : (calls i).operation.IsSweep)
      (hevent : (Command.emit event).announced = some id) :
      Next calls ⟨i, s, .emit event, r⟩ (⟨i, s₁, .hset id fields, ()⟩ :: past)
  /-- A sweep deletes its claim, without having moved the message or after that. -/
  | drops {i s r s₁ past new id} (h : (calls i).operation.IsSweep)
      (hnew : ∀ e ∈ new, e.command.lease = none) (hquiet : Quiet (calls i).operation new)
      (hne : new ≠ []) :
      Next calls ⟨i, s, .delLease id, r⟩
        (new ++ ⟨i, s₁, .setNx id (.recovery (calls i).this.instanceId), true⟩ :: past)
  | cleans {i s r past id scanned maxAgeMs}
      (h : (calls i).operation = .cleanupCompletedMessages scanned maxAgeMs) :
      Next calls ⟨i, s, .delMessage id, r⟩ past
  | unlists {i s r past queueName id scanned maxAgeMs}
      (h : (calls i).operation = .cleanupCompletedMessages scanned maxAgeMs) :
      Next calls ⟨i, s, .srem queueName id, r⟩ past
  | expires {i s r id} (h : (calls i).operation = .leaseExpiry id) :
      Next calls ⟨i, s, .leaseExpires id, r⟩ []

/-! ## What a step leaves of a hash -/

/-- The fields that a message keeps for life: its id, its queue and its bound. -/
def MessageHash.origin (fields : MessageHash) : Option MessageId × Option String × Option ℕ :=
  (fields.messageId, fields.queueName, fields.maxAttempts)

/-- **A step keeps the origin of a message**, and its attempts unless it counts them. Only a call
that persists the message or cleans up does otherwise. -/
theorem Next.origin {calls : ι → Call} {e : RedisEvent ι} {past : List (RedisEvent ι)}
    (h : Next calls e past) (s : Store) (m : MessageId) :
    (((redis e.command s).2.messages m).origin = (s.messages m).origin ∧
        (e.command ≠ .hincrbyAttempts m →
          ((redis e.command s).2.messages m).attempts = (s.messages m).attempts)) ∨
      ((calls e.thread).operation.persisted = some m ∧
        ((redis e.command s).2.messages m).messageId ≠ none) ∨
      ((calls e.thread).operation.IsCleanup ∧ (redis e.command s).2.messages m = {}) := by
  by_cases hhash : e.command.hash = some m
  swap
  · rw [redis_messages hhash]
    exact .inl ⟨rfl, fun _ => rfl⟩
  cases h with
  | reads hreads => cases hhash.symm.trans hreads
  | persists hop =>
    obtain rfl := Option.some.inj hhash
    rw [redis_hset_messages]
    exact .inr (.inl ⟨congrArg Operation.persisted hop, Option.some_ne_none _⟩)
  | cleans hop =>
    obtain rfl := Option.some.inj hhash
    exact .inr (.inr ⟨by rw [hop]; trivial, Function.update_self ..⟩)
  | counts =>
    obtain rfl := Option.some.inj hhash
    rw [redis_hincrby_messages]
    exact .inl ⟨rfl, fun hcount => absurd rfl hcount⟩
  | claims | renews | acknowledges | completes | fails | retries | requeues | exhausts =>
    obtain rfl := Option.some.inj hhash
    rw [redis_hset_messages]
    exact .inl ⟨rfl, fun _ => rfl⟩
  | lists | takes | gives | deletes | recovers | announces | drops | unlists | expires => cases hhash

/-- The program does what `Next` says, and ends in `Q`. -/
abbrev Obeys {α : Type} (calls : ι → Call) (i : ι) (Q : α → List (RedisEvent ι) → Prop)
    (p : Client α) (past : List (RedisEvent ι)) : Prop :=
  p.Obeys redis (Next calls) i Q past

section Programs

variable {calls : ι → Call} {i : ι} {id : MessageId} {past : List (RedisEvent ι)} {α : Type}
  {Q : α → List (RedisEvent ι) → Prop}

theorem obeys_read {c : Command} {k : c.Reply → Client α} (hhash : c.hash = none)
    (hlease : c.lease = none) (hlisted : c.listed = none) (hannounced : c.announced = none)
    (hquiet : Quiet (calls i).operation past)
    (hk : ∀ s, Obeys calls i Q (k (redis c s).1) (⟨i, s, c, (redis c s).1⟩ :: past)) :
    Obeys calls i Q (client c >>= k) past :=
  Prog.obeys_perform fun s => ⟨.reads hhash hlease hlisted hannounced hquiet, hk s⟩

/-- An operation that ends the processing of a message is no sweep. -/
theorem Operation.Ends.not_isSweep {o : Operation} (h : o.Ends id) : ¬ o.IsSweep := by
  cases o <;> first | exact not_false | exact absurd h not_false

/-- The end of an operation that ends the processing of a message. -/
theorem obeys_end {event : MessageEvent} {a : α} (h : (calls i).operation.Ends id)
    (hannounced : (Command.emit event).announced = none)
    (hQ : ∀ s₁ s₂, Q a (⟨i, s₂, .emit event, ()⟩ :: ⟨i, s₁, .delLease id, ()⟩ :: past)) :
    Obeys calls i Q (do client (.delLease id); client (.emit event); return a) past := by
  refine Prog.obeys_perform fun s₁ => ⟨.deletes h, ?_⟩
  exact obeys_read rfl rfl rfl hannounced (quiet_of_not_sweep h.not_isSweep _) fun s₂ => hQ s₁ s₂

/-- The program has written the hash of the message. -/
def Assigned (id : MessageId) (past : List (RedisEvent ι)) : Prop :=
  ∃ e ∈ past, e.command.assigned = some id

theorem assigned_cons (e : RedisEvent ι) (h : Assigned id past) : Assigned id (e :: past) := by
  obtain ⟨e', he', ha⟩ := h
  exact ⟨e', List.mem_cons_of_mem _ he', ha⟩

theorem assigned_hset (s : Store) (fields : List HashField) :
    Assigned id (⟨i, s, .hset id fields, ()⟩ :: past) := ⟨_, List.mem_cons_self, rfl⟩

theorem obeys_persistMessage {queueName data : String} {maxAttempts : ℕ}
    (h : (calls i).operation = .persistMessage id queueName data maxAttempts) :
    Obeys calls i (fun _ _ => True)
      (persistMessage (calls i).this (calls i).now id queueName data maxAttempts) [] := by
  have hquiet : ∀ past : List (RedisEvent ι), Quiet (calls i).operation past :=
    quiet_of_not_sweep (by rw [h]; exact not_false)
  unfold persistMessage getReplicationTargets
  rw [bind_assoc]
  refine obeys_read rfl rfl rfl rfl (hquiet _) fun s₁ => ?_
  refine Prog.obeys_perform fun s₂ => ⟨.persists h, ?_⟩
  refine Prog.obeys_perform fun s₃ => ⟨.lists h, ?_⟩
  exact fun s₄ => ⟨.reads rfl rfl rfl rfl (hquiet _), trivial⟩

theorem obeys_markProcessing (h : (calls i).operation = .markProcessing id) :
    Obeys calls i (fun answer past => answer = true → Assigned id past)
      (markProcessing (calls i).this (calls i).now id) [] := by
  have hquiet : ∀ past : List (RedisEvent ι), Quiet (calls i).operation past :=
    quiet_of_not_sweep (by rw [h]; exact not_false)
  refine Prog.obeys_perform fun s₁ => ⟨.takes h, ?_⟩
  cases (redis (.setNx id (.worker (calls i).this.instanceId)) s₁).1 with
  | false => exact fun hfalse => by cases hfalse
  | true =>
    refine obeys_read rfl rfl rfl rfl (hquiet _) fun s₂ => ?_
    generalize (redis (.hgetStatus id) s₂).1 = status
    by_cases hstatus : status = some .pending
    · subst hstatus
      refine Prog.obeys_perform fun s₃ => ⟨.counts h, ?_⟩
      refine obeys_read rfl rfl rfl rfl (hquiet _) fun s₄ => ?_
      exact fun s₅ => ⟨.claims h, fun _ => assigned_hset _ _⟩
    · rw [if_pos hstatus]
      exact fun s₃ => ⟨.gives h hstatus, fun hfalse => by cases hfalse⟩

theorem obeys_renewProcessingLease (h : (calls i).operation = .renewProcessingLease id) :
    Obeys calls i (fun _ _ => True)
      (renewProcessingLease (calls i).this (calls i).now id) [] := by
  have hquiet : ∀ past : List (RedisEvent ι), Quiet (calls i).operation past :=
    quiet_of_not_sweep (by rw [h]; exact not_false)
  refine obeys_read rfl rfl rfl rfl (hquiet _) fun s₁ => ?_
  generalize (redis (.getLease id) s₁).1 = owner
  by_cases howner : owner = some (.worker (calls i).this.instanceId)
  · rw [if_neg (not_not.mpr howner)]
    refine obeys_read rfl rfl rfl rfl (hquiet _) fun s₂ => ?_
    cases (redis (.expire id) s₂).1 with
    | true => exact fun s₃ => ⟨.renews h, trivial⟩
    | false => trivial
  · rw [if_pos howner]
    trivial

theorem obeys_acknowledgeMessage (h : (calls i).operation = .acknowledgeMessage id) :
    Obeys calls i (fun _ _ => True) (acknowledgeMessage (calls i).now id) [] := by
  have hends : (calls i).operation.Ends id := by rw [h]; rfl
  refine obeys_read rfl rfl rfl rfl (quiet_nil _) fun s₁ => ?_
  cases (redis (.hgetStatus id) s₁).1 with
  | none => trivial
  | some status =>
    refine Prog.obeys_perform fun s₂ => ⟨.acknowledges h, ?_⟩
    exact obeys_end hends rfl fun _ _ => trivial

theorem obeys_markCompleted (h : (calls i).operation = .markCompleted id) :
    Obeys calls i (fun answer past => answer = true → Assigned id past)
      (markCompleted (calls i).now id) [] := by
  have hends : (calls i).operation.Ends id := by rw [h]; rfl
  refine obeys_read rfl rfl rfl rfl (quiet_nil _) fun s₁ => ?_
  cases (redis (.hgetStatus id) s₁).1 with
  | none => exact fun hfalse => by cases hfalse
  | some status =>
    refine Prog.obeys_perform fun s₂ => ⟨.completes h, ?_⟩
    exact obeys_end hends rfl fun _ _ _ => assigned_cons _ (assigned_cons _ (assigned_hset _ _))

theorem obeys_markFailed {error : String} (h : (calls i).operation = .markFailed id error) :
    Obeys calls i (fun _ _ => True) (markFailed (calls i).now id error) [] := by
  have hends : (calls i).operation.Ends id := by rw [h]; rfl
  refine obeys_read rfl rfl rfl rfl (quiet_nil _) fun s₁ => ?_
  cases (redis (.hgetStatus id) s₁).1 with
  | none => trivial
  | some status =>
    refine Prog.obeys_perform fun s₂ => ⟨.fails h, ?_⟩
    exact obeys_end hends rfl fun _ _ => trivial

theorem obeys_retryMessage (h : (calls i).operation = .retryMessage id) :
    Obeys calls i (fun _ _ => True) (retryMessage (calls i).now id) [] := by
  have hends : (calls i).operation.Ends id := by rw [h]; rfl
  refine obeys_read rfl rfl rfl rfl (quiet_nil _) fun s₁ => ?_
  refine obeys_read rfl rfl rfl rfl (quiet_of_not_sweep hends.not_isSweep _) fun s₂ => ?_
  generalize (redis (.hgetAttempts id) s₁).1 = attempts
  generalize (redis (.hgetMaxAttempts id) s₂).1 = maxAttempts
  split
  · trivial
  split
  · trivial
  next hbelow =>
    refine Prog.obeys_perform fun s₃ => ⟨.retries h (Nat.lt_of_not_le hbelow), ?_⟩
    exact obeys_end hends rfl fun _ _ => trivial

/-! ## Sweeps -/

/-- A sweep under its claim: the claim is the last lease command when the part ends, and the last
command is no write. -/
theorem obeys_recoverClaimed (h : (calls i).operation.IsSweep) (s : Store) :
    Obeys calls i (fun _ after => ∃ new, new ≠ [] ∧ (∀ e ∈ new, e.command.lease = none) ∧
        Quiet (calls i).operation new ∧
        after = new ++ ⟨i, s, .setNx id (.recovery (calls i).this.instanceId), true⟩ :: past)
      (recoverClaimed (calls i).now id)
      (⟨i, s, .setNx id (.recovery (calls i).this.instanceId), true⟩ :: past) := by
  unfold recoverClaimed getHashMessage
  rw [bind_assoc]
  refine obeys_read rfl rfl rfl rfl (quiet_cons rfl _) fun s₁ => ?_
  rw [pure_bind]
  generalize hfields : (redis (.hgetall id) s₁).1 = fields
  have hkept : ∀ e ∈ [(⟨i, s₁, .hgetall id, fields⟩ : RedisEvent ι)], e.command.lease = none :=
    List.forall_mem_singleton.mpr rfl
  cases hmessage : fields.message with
  | none => exact ⟨[⟨i, s₁, .hgetall id, fields⟩], by simp, hkept, quiet_cons rfl _, rfl⟩
  | some message =>
    dsimp only
    split
    · exact ⟨[⟨i, s₁, .hgetall id, fields⟩], by simp, hkept, quiet_cons rfl _, rfl⟩
    next horphan =>
    -- it is still an orphan after the claim: the double check has passed
    have horphan := not_not.mp horphan
    split
    · next hbelow =>
      refine Prog.obeys_perform fun s₂ => ⟨.requeues h hmessage horphan hbelow, ?_⟩
      refine Prog.obeys_perform fun s₃ => ⟨.announces h rfl, ?_⟩
      exact ⟨[⟨i, s₃, .emit _, ()⟩, ⟨i, s₂, .hset id _, ()⟩, ⟨i, s₁, .hgetall id, fields⟩], by simp,
        by simp [Command.lease], quiet_cons rfl _, rfl⟩
    · next hbelow =>
      refine Prog.obeys_perform fun s₂ => ⟨.exhausts h hmessage horphan hbelow, ?_⟩
      refine Prog.obeys_perform fun s₃ => ⟨.announces h rfl, ?_⟩
      exact ⟨[⟨i, s₃, .emit _, ()⟩, ⟨i, s₂, .hset id _, ()⟩, ⟨i, s₁, .hgetall id, fields⟩], by simp,
        by simp [Command.lease], quiet_cons rfl _, rfl⟩

theorem obeys_recoverOne (h : (calls i).operation.IsSweep) (hquiet : Quiet (calls i).operation past) :
    Obeys calls i (fun _ after => Quiet (calls i).operation after)
      (recoverOne (calls i).this (calls i).now id) past := by
  unfold recoverOne
  conv in getHashMessage id >>= _ => rw [getHashMessage, bind_assoc]
  refine obeys_read rfl rfl rfl rfl hquiet fun s₁ => ?_
  rw [pure_bind]
  generalize (redis (.hgetall id) s₁).1 = fields
  cases fields.message with
  | none => exact quiet_cons rfl _
  | some message =>
    dsimp only
    split
    · exact quiet_cons rfl _
    refine obeys_read rfl rfl rfl rfl (quiet_cons rfl _) fun s₂ => ?_
    split
    · exact quiet_cons rfl _
    refine Prog.obeys_perform fun s₃ => ⟨.recovers h (quiet_cons rfl _), ?_⟩
    cases (redis (.setNx id (.recovery (calls i).this.instanceId)) s₃).1 with
    | false => exact quiet_cons rfl _
    | true =>
      refine Prog.obeys_bind (Prog.obeys_mono ?_ (obeys_recoverClaimed h s₃))
      rintro recovered after ⟨new, hne, hkept, hlast, rfl⟩
      exact Prog.obeys_perform fun s₄ => ⟨.drops h hkept hlast hne, quiet_cons rfl _⟩

theorem obeys_recoverLoop (h : (calls i).operation.IsSweep) {scanned recovered : List MessageId}
    (hquiet : Quiet (calls i).operation past) :
    Obeys calls i (fun _ _ => True) (recoverLoop (calls i).this (calls i).now scanned recovered)
      past := by
  induction scanned generalizing recovered past with
  | nil => trivial
  | cons id ids ih =>
    refine Prog.obeys_bind (Prog.obeys_mono ?_ (obeys_recoverOne h hquiet))
    intro moved after hafter
    split
    · exact ih hafter
    · exact ih hafter

/-! ## The other loops -/

theorem obeys_cleanupLoop {scanned ids : List MessageId} {maxAgeMs cleanedCount : ℕ} {cutoffTime : ℤ}
    (h : (calls i).operation = .cleanupCompletedMessages scanned maxAgeMs) :
    Obeys calls i (fun _ _ => True) (cleanupLoop cutoffTime ids cleanedCount) past := by
  have hquiet : ∀ past : List (RedisEvent ι), Quiet (calls i).operation past :=
    quiet_of_not_sweep (by rw [h]; exact not_false)
  induction ids generalizing cleanedCount past with
  | nil => trivial
  | cons id ids ih =>
    unfold cleanupLoop getHashMessage
    rw [bind_assoc]
    refine obeys_read rfl rfl rfl rfl (hquiet _) fun s₁ => ?_
    rw [pure_bind]
    generalize (redis (.hgetall id) s₁).1 = fields
    cases fields.message with
    | none => exact ih
    | some message =>
      dsimp only
      split
      · refine Prog.obeys_perform fun s₂ => ⟨.cleans h, ?_⟩
        exact Prog.obeys_perform fun s₃ => ⟨.unlists h, ih⟩
      · exact ih

/-! ## Runs -/

/-- The message that `markProcessing` or `markCompleted` answers for. -/
def Operation.subject : Operation → Option MessageId
  | .markProcessing id | .markCompleted id => some id
  | _ => none

/-- What a call has done when it has answered `true`. -/
def Answered (o : Operation) (result : Result) (past : List (RedisEvent ι)) : Prop :=
  result = .answered true → ∀ id ∈ o.subject, Assigned id past

/-- **Every call does what `Next` says.** -/
theorem obeys_program (calls : ι → Call) (i : ι) :
    Obeys calls i (Answered (calls i).operation) (calls i).program [] := by
  unfold Call.program
  cases h : (calls i).operation with
  | persistMessage id queueName data maxAttempts =>
    refine Prog.obeys_bind (Prog.obeys_mono (fun _ past _ => ?_) (obeys_persistMessage h))
    rintro ⟨⟩
  | markProcessing id =>
    refine Prog.obeys_map (Prog.obeys_mono ?_ (obeys_markProcessing h))
    rintro answer past hanswer hresult id' ⟨⟩
    exact hanswer (Result.answered.inj hresult)
  | renewProcessingLease id =>
    refine Prog.obeys_map (Prog.obeys_mono (fun _ past _ => ?_) (obeys_renewProcessingLease h))
    rintro - id' ⟨⟩
  | acknowledgeMessage id =>
    refine Prog.obeys_map (Prog.obeys_mono (fun _ past _ => ?_) (obeys_acknowledgeMessage h))
    rintro - id' ⟨⟩
  | markCompleted id =>
    refine Prog.obeys_map (Prog.obeys_mono ?_ (obeys_markCompleted h))
    rintro answer past hanswer hresult id' ⟨⟩
    exact hanswer (Result.answered.inj hresult)
  | markFailed id error =>
    refine Prog.obeys_map (Prog.obeys_mono (fun _ past _ => ?_) (obeys_markFailed h))
    rintro - id' ⟨⟩
  | retryMessage id =>
    refine Prog.obeys_map (Prog.obeys_mono (fun _ past _ => ?_) (obeys_retryMessage h))
    rintro - id' ⟨⟩
  | recoverOrphanedMessages scanned =>
    refine Prog.obeys_map (Prog.obeys_bind (Prog.obeys_mono (fun recovered past _ => ?_)
      (obeys_recoverLoop (by rw [h]; trivial) (quiet_nil _))))
    rintro ⟨⟩
  | cleanupCompletedMessages scanned maxAgeMs =>
    refine Prog.obeys_map (Prog.obeys_mono (fun _ past _ => ?_) (obeys_cleanupLoop h))
    rintro ⟨⟩
  | leaseExpiry id =>
    refine Prog.obeys_perform fun s₁ => ⟨.expires h, ?_⟩
    rintro ⟨⟩

/-- **A run of any number of calls is a chronicle** of commands that follow `Next`. -/
theorem chronicle_serving [DecidableEq ι] {d₀ : Store} {is : List ι}
    {P : ι → Command → Served ι → Prop}
    {c : Config Command Command.Reply Empty Result ι (Served ι)}
    (hr : (serving calls d₀).run (redisMachine ι) is = some c)
    (ha : (serving calls d₀).Admitted (redisMachine ι) P is) :
    Chronicle redis (fun e es => Next calls e (own e.thread es) ∧ P e.thread e.command (e.before, es))
        d₀ c.shared.1 c.shared.2 ∧
      ∀ i, Obeys calls i (Answered (calls i).operation) (c.threads i) (own i c.shared.2) :=
  chronicle_of_run (obeys_program calls) hr ha

end Programs

end Messages
