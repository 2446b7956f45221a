import PeerX.Messages.Redis
import PeerX.Foundations.Observed
import PeerX.Foundations.Interleaving

/-!
# Messages: the zero-loss message service

Every method of the service is a program of Redis commands. A worker claims a message with a lease
and then moves it to `processing`; a recovery sweep claims the lease of an orphan and moves it back
to `pending`, or to `failed`. The other methods act on the hash and delete the lease. Any number of
calls of any number of instances run at the same time, one command after the other; a call that
stops for ever is a crash.
-/

namespace Messages

open Concurrency

/-- The programs of the service. -/
abbrev Client (α : Type) := Prog Command Command.Reply Empty α

/-- A command. -/
abbrev client (c : Command) : Client c.Reply := Prog.perform c

/-- An instance of the service, with its `zeroLoss.replicationFactor`. -/
structure Instance where
  instanceId : ℕ
  replicationFactor : ℕ := 3
deriving DecidableEq

/-- A message as it is read. `undefined` is `none`, and so is a number that is `NaN`. -/
structure PersistedMessage where
  messageId : MessageId
  queueName : Option String
  data : Option String
  status : Option MessageStatus
  attempts : Option ℕ
  maxAttempts : Option ℕ
  createdAt : Option ℕ
  updatedAt : Option ℕ
  acknowledgedAt : Option ℕ
  completedAt : Option ℕ
  failedAt : Option ℕ
  error : Option String
  replicationNodes : List String
deriving DecidableEq

/-- The message of a hash; a hash without an id is none. -/
def MessageHash.message (fields : MessageHash) : Option PersistedMessage :=
  fields.messageId.map fun messageId =>
    { messageId := messageId
      queueName := fields.queueName
      data := fields.data
      status := fields.status
      attempts := fields.attempts
      maxAttempts := fields.maxAttempts
      createdAt := fields.createdAt
      updatedAt := fields.updatedAt
      acknowledgedAt := fields.acknowledgedAt
      completedAt := fields.completedAt
      failedAt := fields.failedAt
      error := fields.error.filter (· ≠ "")
      replicationNodes := fields.replicationNodes.getD [] }

def getHashMessage (messageId : MessageId) : Client (Option PersistedMessage) := do
  let fields ← client (.hgetall messageId)
  return fields.message

/-- `toHashFields` of a message that was just created. -/
def toHashFields (messageId : MessageId) (queueName data : String) (maxAttempts now : ℕ)
    (replicationNodes : List String) : List HashField :=
  [.messageId messageId, .queueName queueName, .data data, .status .pending, .attempts 0,
    .maxAttempts maxAttempts, .createdAt now, .updatedAt now, .acknowledgedAt none,
    .completedAt none, .failedAt none, .error "", .replicationNodes replicationNodes]

/-- `current.attempts < current.maxAttempts`. A comparison with `NaN` is false. -/
def PersistedMessage.Below (message : PersistedMessage) : Prop :=
  ∃ a ∈ message.attempts, ∃ m ∈ message.maxAttempts, a < m

instance (message : PersistedMessage) : Decidable message.Below :=
  decidable_of_iff (message.attempts.any fun a => message.maxAttempts.any fun m => a < m)
    (by simp [PersistedMessage.Below, Option.any_eq_true])

/-- The message is in processing and was not acknowledged. -/
def PersistedMessage.Orphan (message : PersistedMessage) : Prop :=
  message.status = some .processing ∧ message.acknowledgedAt = none

instance (message : PersistedMessage) : Decidable message.Orphan :=
  inferInstanceAs (Decidable (_ ∧ _))

section Methods

variable (this : Instance) (now : ℕ) (messageId : MessageId)

def getReplicationTargets : Client (List String) := do
  let nodes ← client .smembersNodes
  return (nodes.mergeSort (· ≤ ·)).take this.replicationFactor

def persistMessage (queueName data : String) (maxAttempts : ℕ) : Client Unit := do
  let replicationNodes ← getReplicationTargets this
  client (.hset messageId (toHashFields messageId queueName data maxAttempts now replicationNodes))
  client (.sadd queueName messageId)
  client (.emit (.persisted messageId queueName))

def markProcessing : Client Bool := do
  let claimed ← client (.setNx messageId (.worker this.instanceId))
  if claimed = false then
    return false
  else
    let status ← client (.hgetStatus messageId)
    if status ≠ some .pending then
      client (.delLease messageId)
      return false
    else
      let _attempts ← client (.hincrbyAttempts messageId)
      let _maxAttempts ← client (.hgetMaxAttempts messageId)
      client (.hset messageId [.status .processing, .updatedAt now])
      return true

def renewProcessingLease : Client Bool := do
  let owner ← client (.getLease messageId)
  if owner ≠ some (.worker this.instanceId) then
    return false
  else
    let renewed ← client (.expire messageId)
    if renewed then
      client (.hset messageId [.updatedAt now])
      return true
    else
      return false

def acknowledgeMessage : Client Bool := do
  let status ← client (.hgetStatus messageId)
  if status = none then
    return false
  else
    client (.hset messageId [.acknowledgedAt (some now), .updatedAt now])
    client (.delLease messageId)
    client (.emit (.acknowledged messageId))
    return true

def markCompleted : Client Bool := do
  let status ← client (.hgetStatus messageId)
  if status = none then
    return false
  else
    client (.hset messageId [.status .completed, .completedAt (some now), .updatedAt now])
    client (.delLease messageId)
    client (.emit (.completed messageId))
    return true

def markFailed (error : String) : Client Bool := do
  let status ← client (.hgetStatus messageId)
  if status = none then
    return false
  else
    client (.hset messageId
      [.status .failed, .error error, .failedAt (some now), .updatedAt now])
    client (.delLease messageId)
    client (.emit (.failed messageId (some error) none))
    return true

/-- `retryMessage`. `Number(null)` is 0. -/
def retryMessage : Client Bool := do
  let attempts ← client (.hgetAttempts messageId)
  let maxAttempts ← client (.hgetMaxAttempts messageId)
  if attempts.getD 0 = 0 ∧ maxAttempts.getD 0 = 0 then
    return false
  else if maxAttempts.getD 0 ≤ attempts.getD 0 then
    return false
  else
    client (.hset messageId [.status .pending, .error "", .updatedAt now])
    client (.delLease messageId)
    client (.emit (.retried messageId))
    return true

/-- The part of `recoverOne` under the claim: the message is checked again and moved. -/
def recoverClaimed : Client Bool := do
  let current ← getHashMessage messageId
  match current with
  | none => return false
  | some current =>
    if ¬ current.Orphan then
      return false
    else if current.Below then
      client (.hset messageId [.status .pending, .updatedAt now])
      client (.emit (.requeued messageId "acknowledgment-timeout"))
      return true
    else
      client (.hset messageId
        [.status .failed, .error "Acknowledgment timeout", .failedAt (some now), .updatedAt now])
      client (.emit (.failed messageId none (some "max-attempts-exceeded")))
      return true

/-- `recoverOne`. The claim is deleted in every case. -/
def recoverOne : Client Bool := do
  let message ← getHashMessage messageId
  match message with
  | none => return false
  | some message =>
    if ¬ message.Orphan then
      return false
    else
      let leaseOwner ← client (.getLease messageId)
      if leaseOwner ≠ none then
        return false
      else
        let claimed ← client (.setNx messageId (.recovery this.instanceId))
        if claimed = false then
          return false
        else
          let recovered ← recoverClaimed now messageId
          client (.delLease messageId)
          return recovered

/-- The loop of `recoverOrphanedMessages` over the scanned messages. -/
def recoverLoop : List MessageId → List MessageId → Client (List MessageId)
  | [], recovered => return recovered
  | id :: ids, recovered => do
    if ← recoverOne this now id then
      recoverLoop ids (recovered ++ [id])
    else
      recoverLoop ids recovered

/-- `recoverOrphanedMessages`. `scanned` are the messages that `SCAN` has returned: each one that is
there all the time, in any order and any number of times, and any of the others. -/
def recoverOrphanedMessages (scanned : List MessageId) : Client ℕ := do
  let recovered ← recoverLoop this now scanned []
  return recovered.length

/-- The loop of `getQueueMessages`. -/
def readLoop : List MessageId → List PersistedMessage → Client (List PersistedMessage)
  | [], messages => return messages
  | id :: ids, messages => do
    match ← getHashMessage id with
    | some message => readLoop ids (messages ++ [message])
    | none => readLoop ids messages

def getQueueMessages (queueName : String) : Client (List PersistedMessage) := do
  let ids ← client (.smembers queueName)
  readLoop ids []

/-- The message was completed before the time. -/
def PersistedMessage.CompletedBefore (message : PersistedMessage) (cutoffTime : ℤ) : Prop :=
  message.status = some .completed ∧ ∃ t ∈ message.completedAt, (t : ℤ) < cutoffTime

instance (message : PersistedMessage) (cutoffTime : ℤ) :
    Decidable (message.CompletedBefore cutoffTime) :=
  decidable_of_iff (message.status = some .completed ∧
    message.completedAt.any fun t : ℕ => ((t : ℤ) < cutoffTime))
    (by simp [PersistedMessage.CompletedBefore, Option.any_eq_true])

/-- The loop of `cleanupCompletedMessages`. -/
def cleanupLoop (cutoffTime : ℤ) : List MessageId → ℕ → Client ℕ
  | [], cleanedCount => return cleanedCount
  | id :: ids, cleanedCount => do
    match ← getHashMessage id with
    | none => cleanupLoop cutoffTime ids cleanedCount
    | some message =>
      if message.CompletedBefore cutoffTime then
        client (.delMessage id)
        client (.srem (message.queueName.getD "undefined") id)
        cleanupLoop cutoffTime ids (cleanedCount + 1)
      else
        cleanupLoop cutoffTime ids cleanedCount

def cleanupCompletedMessages (scanned : List MessageId) (maxAgeMs : ℕ) : Client ℕ :=
  cleanupLoop (now - maxAgeMs) scanned 0

end Methods

/-- A method with its arguments, or the end of the time to live of a lease. -/
inductive Operation : Type
  | persistMessage (messageId : MessageId) (queueName data : String) (maxAttempts : ℕ)
  | markProcessing (messageId : MessageId)
  | renewProcessingLease (messageId : MessageId)
  | acknowledgeMessage (messageId : MessageId)
  | markCompleted (messageId : MessageId)
  | markFailed (messageId : MessageId) (error : String)
  | retryMessage (messageId : MessageId)
  | recoverOrphanedMessages (scanned : List MessageId)
  | cleanupCompletedMessages (scanned : List MessageId) (maxAgeMs : ℕ)
  | leaseExpiry (messageId : MessageId)
deriving DecidableEq

/-- A call of an instance at a time. -/
structure Call where
  this : Instance
  now : ℕ
  operation : Operation
deriving DecidableEq

/-- What a call returns. -/
inductive Result : Type
  | done
  | answered (answer : Bool)
  | counted (count : ℕ)
deriving DecidableEq

def Call.program (c : Call) : Client Result :=
  match c.operation with
  | .persistMessage id queueName data maxAttempts => do
    persistMessage c.this c.now id queueName data maxAttempts
    return .done
  | .markProcessing id => .answered <$> markProcessing c.this c.now id
  | .renewProcessingLease id => .answered <$> renewProcessingLease c.this c.now id
  | .acknowledgeMessage id => .answered <$> acknowledgeMessage c.now id
  | .markCompleted id => .answered <$> markCompleted c.now id
  | .markFailed id error => .answered <$> markFailed c.now id error
  | .retryMessage id => .answered <$> retryMessage c.now id
  | .recoverOrphanedMessages scanned => .counted <$> recoverOrphanedMessages c.this c.now scanned
  | .cleanupCompletedMessages scanned maxAgeMs =>
    .counted <$> cleanupCompletedMessages c.now scanned maxAgeMs
  | .leaseExpiry id => do
    client (.leaseExpires id)
    return .done

/-- A store with one message, as `persistMessage` leaves it. -/
def stored (id : MessageId) (queueName : String) (maxAttempts : ℕ) : Store :=
  { Store.empty with
    messages := Function.update (fun _ => {}) id
      (MessageHash.setAll {} (toHashFields id queueName "{}" maxAttempts 0 []))
    queues := Function.update (fun _ => []) queueName [id] }

/-- An executed command. -/
abbrev RedisEvent (ι : Type) := Executed Command Command.Reply ι Store

/-- The store, and the executed commands. -/
abbrev Served (ι : Type) := Store × List (RedisEvent ι)

/-- Redis, with the executed commands kept. -/
abbrev redisMachine (ι : Type) : Machine Command Command.Reply ι (Served ι) :=
  (Machine.ofHandler redis).observed

/-- Any number of calls at the same time, before their first command. -/
def serving {ι : Type} (calls : ι → Call) (d₀ : Store) :
    Config Command Command.Reply Empty Result ι (Served ι) :=
  ⟨(d₀, []), fun i => (calls i).program⟩

end Messages
