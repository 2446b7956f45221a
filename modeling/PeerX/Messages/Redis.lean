import PeerX.Foundations.Program
import Mathlib.Logic.Function.Basic

/-!
# Messages: the durable store

The Redis keys of the zero-loss message service: a hash for each message, a lease for each message,
a set of message ids for each queue, and the set of the replication nodes. A command is executed at
once. A lease disappears when its time to live has run out, which can be at any time.
-/

namespace Messages

open Concurrency

/-- The id of a message: a text that is not empty. -/
abbrev MessageId := ℕ

inductive MessageStatus : Type
  | pending
  | processing
  | completed
  | failed
deriving DecidableEq

/-- The fields of a message hash. A time that is empty is `none`, as one that is absent is. -/
structure MessageHash where
  messageId : Option MessageId := none
  queueName : Option String := none
  data : Option String := none
  status : Option MessageStatus := none
  attempts : Option ℕ := none
  maxAttempts : Option ℕ := none
  createdAt : Option ℕ := none
  updatedAt : Option ℕ := none
  acknowledgedAt : Option ℕ := none
  completedAt : Option ℕ := none
  failedAt : Option ℕ := none
  error : Option String := none
  replicationNodes : Option (List String) := none
deriving DecidableEq

/-- A field that `HSET` assigns. -/
inductive HashField : Type
  | messageId (value : MessageId)
  | queueName (value : String)
  | data (value : String)
  | status (value : MessageStatus)
  | attempts (value : ℕ)
  | maxAttempts (value : ℕ)
  | createdAt (value : ℕ)
  | updatedAt (value : ℕ)
  | acknowledgedAt (value : Option ℕ)
  | completedAt (value : Option ℕ)
  | failedAt (value : Option ℕ)
  | error (value : String)
  | replicationNodes (value : List String)
deriving DecidableEq

/-- The hash with one field assigned. -/
def MessageHash.set (h : MessageHash) : HashField → MessageHash
  | .messageId v => { h with messageId := some v }
  | .queueName v => { h with queueName := some v }
  | .data v => { h with data := some v }
  | .status v => { h with status := some v }
  | .attempts v => { h with attempts := some v }
  | .maxAttempts v => { h with maxAttempts := some v }
  | .createdAt v => { h with createdAt := some v }
  | .updatedAt v => { h with updatedAt := some v }
  | .acknowledgedAt v => { h with acknowledgedAt := v }
  | .completedAt v => { h with completedAt := v }
  | .failedAt v => { h with failedAt := v }
  | .error v => { h with error := some v }
  | .replicationNodes v => { h with replicationNodes := some v }

/-- The hash with the fields assigned in order. -/
def MessageHash.setAll (h : MessageHash) (fields : List HashField) : MessageHash :=
  fields.foldl MessageHash.set h

@[simp] theorem MessageHash.setAll_nil (h : MessageHash) : h.setAll [] = h := rfl

@[simp] theorem MessageHash.setAll_cons (h : MessageHash) (f : HashField) (fs : List HashField) :
    h.setAll (f :: fs) = (h.set f).setAll fs := rfl

/-- The value of a lease: the instance whose worker holds it, or whose recovery sweep does. -/
inductive LeaseOwner : Type
  | worker (instanceId : ℕ)
  | recovery (instanceId : ℕ)
deriving DecidableEq

/-- An event of the service. -/
inductive MessageEvent : Type
  | persisted (messageId : MessageId) (queueName : String)
  | acknowledged (messageId : MessageId)
  | completed (messageId : MessageId)
  | failed (messageId : MessageId) (error reason : Option String)
  | retried (messageId : MessageId)
  | requeued (messageId : MessageId) (reason : String)
deriving DecidableEq

/-- The store. A hash without fields is a key that does not exist. -/
structure Store where
  messages : MessageId → MessageHash
  leases : MessageId → Option LeaseOwner
  queues : String → List MessageId
  nodes : List String
  events : List MessageEvent

/-- The store without keys. -/
def Store.empty : Store := ⟨fun _ => {}, fun _ => none, fun _ => [], [], []⟩

/-- The commands of the service. `leaseExpires` is no command of a client: the time to live of a
lease has run out. -/
inductive Command : Type
  /-- `SET zls:lease:{id} owner EX ttl NX`. -/
  | setNx (messageId : MessageId) (owner : LeaseOwner)
  | getLease (messageId : MessageId)
  /-- `EXPIRE zls:lease:{id} ttl`. -/
  | expire (messageId : MessageId)
  | delLease (messageId : MessageId)
  | hgetStatus (messageId : MessageId)
  | hgetAttempts (messageId : MessageId)
  | hgetMaxAttempts (messageId : MessageId)
  /-- `HINCRBY zls:msg:{id} attempts 1`. -/
  | hincrbyAttempts (messageId : MessageId)
  | hset (messageId : MessageId) (fields : List HashField)
  | hgetall (messageId : MessageId)
  | delMessage (messageId : MessageId)
  | sadd (queueName : String) (messageId : MessageId)
  | srem (queueName : String) (messageId : MessageId)
  | smembers (queueName : String)
  | smembersNodes
  | emit (event : MessageEvent)
  | leaseExpires (messageId : MessageId)
deriving DecidableEq

abbrev Command.Reply : Command → Type
  | .setNx _ _ => Bool
  | .getLease _ => Option LeaseOwner
  | .expire _ => Bool
  | .delLease _ => Unit
  | .hgetStatus _ => Option MessageStatus
  | .hgetAttempts _ => Option ℕ
  | .hgetMaxAttempts _ => Option ℕ
  | .hincrbyAttempts _ => ℕ
  | .hset _ _ => Unit
  | .hgetall _ => MessageHash
  | .delMessage _ => Unit
  | .sadd _ _ => Unit
  | .srem _ _ => Unit
  | .smembers _ => List MessageId
  | .smembersNodes => List String
  | .emit _ => Unit
  | .leaseExpires _ => Unit

/-- The hash of the message after `HINCRBY`. -/
def MessageHash.incremented (h : MessageHash) : MessageHash :=
  { h with attempts := some (h.attempts.getD 0 + 1) }

/-- The set of ids with a member added. -/
def addMember (id : MessageId) (ids : List MessageId) : List MessageId :=
  if id ∈ ids then ids else ids ++ [id]

/-- The set of ids with a member removed. -/
def removeMember (id : MessageId) (ids : List MessageId) : List MessageId := ids.filter (· ≠ id)

/-- Redis: the reply to a command and the store after it. -/
def redis : (c : Command) → Store → c.Reply × Store
  | .setNx id owner, s =>
    if s.leases id = none then (true, { s with leases := Function.update s.leases id (some owner) })
    else (false, s)
  | .getLease id, s => (s.leases id, s)
  | .expire id, s => ((s.leases id).isSome, s)
  | .delLease id, s => ((), { s with leases := Function.update s.leases id none })
  | .hgetStatus id, s => ((s.messages id).status, s)
  | .hgetAttempts id, s => ((s.messages id).attempts, s)
  | .hgetMaxAttempts id, s => ((s.messages id).maxAttempts, s)
  | .hincrbyAttempts id, s =>
    ((s.messages id).attempts.getD 0 + 1,
      { s with messages := Function.update s.messages id (s.messages id).incremented })
  | .hset id fields, s =>
    ((), { s with messages := Function.update s.messages id ((s.messages id).setAll fields) })
  | .hgetall id, s => (s.messages id, s)
  | .delMessage id, s => ((), { s with messages := Function.update s.messages id {} })
  | .sadd queue id, s =>
    ((), { s with queues := Function.update s.queues queue (addMember id (s.queues queue)) })
  | .srem queue id, s =>
    ((), { s with queues := Function.update s.queues queue (removeMember id (s.queues queue)) })
  | .smembers queue, s => (s.queues queue, s)
  | .smembersNodes, s => (s.nodes, s)
  | .emit event, s => ((), { s with events := s.events ++ [event] })
  | .leaseExpires id, s => ((), { s with leases := Function.update s.leases id none })

/-- The message whose hash the command writes. -/
def Command.hash : Command → Option MessageId
  | .hincrbyAttempts id | .hset id _ | .delMessage id => some id
  | _ => none

/-- The message whose lease the command sets or removes. -/
def Command.lease : Command → Option MessageId
  | .setNx id _ | .delLease id | .leaseExpires id => some id
  | _ => none

variable {c : Command} {s : Store} {id : MessageId}

/-- The other hashes are unchanged. -/
theorem redis_messages (h : c.hash ≠ some id) : (redis c s).2.messages id = s.messages id := by
  cases c with
  | setNx id' owner =>
    simp only [redis]
    split <;> rfl
  | hincrbyAttempts id' => exact Function.update_of_ne (fun e => h (congrArg some e.symm)) _ _
  | hset id' fields => exact Function.update_of_ne (fun e => h (congrArg some e.symm)) _ _
  | delMessage id' => exact Function.update_of_ne (fun e => h (congrArg some e.symm)) _ _
  | _ => rfl

/-- The other leases are unchanged. -/
theorem redis_leases (h : c.lease ≠ some id) : (redis c s).2.leases id = s.leases id := by
  cases c with
  | setNx id' owner =>
    simp only [redis]
    split
    · exact Function.update_of_ne (fun e => h (congrArg some e.symm)) (some owner) s.leases
    · rfl
  | delLease id' => exact Function.update_of_ne (fun e => h (congrArg some e.symm)) _ _
  | leaseExpires id' => exact Function.update_of_ne (fun e => h (congrArg some e.symm)) _ _
  | _ => rfl

@[simp] theorem redis_hset_messages (fields : List HashField) :
    (redis (.hset id fields) s).2.messages id = (s.messages id).setAll fields :=
  Function.update_self ..

@[simp] theorem redis_hincrby_messages :
    (redis (.hincrbyAttempts id) s).2.messages id = (s.messages id).incremented :=
  Function.update_self ..

@[simp] theorem redis_delLease_leases : (redis (.delLease id) s).2.leases id = none :=
  Function.update_self ..

@[simp] theorem redis_leaseExpires_leases : (redis (.leaseExpires id) s).2.leases id = none :=
  Function.update_self ..

theorem redis_setNx {owner : LeaseOwner} (h : (redis (.setNx id owner) s).1 = true) :
    s.leases id = none ∧ (redis (.setNx id owner) s).2.leases id = some owner := by
  simp only [redis] at h ⊢
  split at h
  · next hnone =>
    rw [if_pos hnone]
    exact ⟨hnone, Function.update_self ..⟩
  · cases h

theorem redis_setNx_refused {owner : LeaseOwner} (h : (redis (.setNx id owner) s).1 = false) :
    (s.leases id).isSome ∧ (redis (.setNx id owner) s).2 = s := by
  simp only [redis] at h ⊢
  split at h
  · cases h
  · next hsome =>
    rw [if_neg hsome]
    exact ⟨Option.isSome_iff_ne_none.mpr hsome, rfl⟩

end Messages
