import PeerX.Foundations.Fallible
import Mathlib.Data.Rat.Defs
import Mathlib.Data.List.Basic
import Mathlib.Logic.Function.Basic

/-!
# Queue: the dead letter queue

A job that has failed for good is recorded in a Redis hash, one for each queue, under its id. A
recovery reads the record, adds a job to the queue, and deletes the record; records are also removed
by hand, cleared, and deleted by a sweep when they are old. Any command goes through, throws, or
throws although it was carried out. Any number of calls run at the same time, one command after the
other.
-/

namespace Queue

open Concurrency

inductive QueueName : Type
  | notifications
  | emails
  | reports
  | cleanup
  | swaps
  | alerts
deriving DecidableEq

/-- The queues, in the order of the enumeration. -/
def QueueName.all : List QueueName := [.notifications, .emails, .reports, .cleanup, .swaps, .alerts]

/-- `getQueueByName(queueName) !== null`. The service has no queue of alerts. -/
def QueueName.Known (queueName : QueueName) : Prop := queueName ≠ .alerts

instance (queueName : QueueName) : Decidable queueName.Known := inferInstanceAs (Decidable (_ ≠ _))

/-- A JSON value. A date is the text that `JSON.stringify` makes of it. -/
inductive Json : Type
  | null
  | bool (b : Bool)
  | num (n : ℚ)
  | str (s : String)
  | date (ms : ℕ)
  | arr (items : List Json)
  | obj (fields : List (String × Json))

structure JobOptions where
  attempts : Option ℚ := none
  priority : Option ℚ := none
  delay : Option ℚ := none
deriving DecidableEq

structure BullJob where
  id : String
  name : String
  data : Json
  opts : JobOptions
  attemptsMade : ℕ
  timestamp : ℕ
  processedOn : Option ℕ := none

inductive DLQReason : Type
  | maxRetriesExceeded
  | nonRetryableError
  | stalled
  | timeout
  | manual
deriving DecidableEq

/-- The text of a reason. -/
def DLQReason.text : DLQReason → String
  | .maxRetriesExceeded => "MAX_RETRIES_EXCEEDED"
  | .nonRetryableError => "NON_RETRYABLE_ERROR"
  | .stalled => "STALLED"
  | .timeout => "TIMEOUT"
  | .manual => "MANUAL"

def QueueName.text : QueueName → String
  | .notifications => "notifications"
  | .emails => "emails"
  | .reports => "reports"
  | .cleanup => "cleanup"
  | .swaps => "swaps"
  | .alerts => "alerts"

/-- The error of a job: a text, or an `Error` with its stack. -/
inductive JobError : Type
  | text (message : String)
  | error (message stack : String)
deriving DecidableEq

/-- `DLQItem.metadata`. -/
structure DLQMetadata where
  priority : Option ℚ
  createdAt : ℕ
  processedBy : Option ℕ
deriving DecidableEq

/-- A record of the dead letter queue, as it is written. -/
structure DLQItem where
  jobId : String
  queueName : QueueName
  jobData : Json
  error : String
  errorStack : Option String
  failedAt : ℕ
  lastAttempt : ℕ
  maxAttempts : ℚ
  reason : DLQReason
  metadata : DLQMetadata

/-- A field that is left out when it is undefined. -/
def optionalField {α : Type} (name : String) (f : α → Json) (value : Option α) : List (String × Json) :=
  (value.map fun a => (name, f a)).toList

/-- `JSON.stringify(dlqItem)`. -/
def DLQItem.stringify (item : DLQItem) : Json :=
  .obj ([("jobId", .str item.jobId), ("queueName", .str item.queueName.text),
      ("jobData", item.jobData), ("error", .str item.error)] ++
    optionalField "errorStack" .str item.errorStack ++
    [("failedAt", .date item.failedAt), ("lastAttempt", .num item.lastAttempt),
      ("maxAttempts", .num item.maxAttempts), ("reason", .str item.reason.text),
      ("metadata", .obj (optionalField "priority" .num item.metadata.priority ++
        [("createdAt", .num item.metadata.createdAt)] ++
        optionalField "processedBy" (fun n => .num n) item.metadata.processedBy))])

/-- A field of an object, or `undefined`. -/
def Json.get (key : String) : Json → Option Json
  | .obj fields => fields.lookup key
  | _ => none

/-- A number, or `undefined`. -/
def Json.asNum : Json → Option ℚ
  | .num n => some n
  | _ => none

/-- `new Date(value).getTime()`, or `none` when the date is invalid. -/
def Json.asDate : Json → Option ℕ
  | .date ms => some ms
  | _ => none

/-- A record, as it is read: the fields that are used, `undefined` where they are absent. -/
structure StoredItem where
  jobData : Option Json
  failedAt : Option ℕ
  maxAttempts : Option ℚ
  priority : Option ℚ

/-- `deserialize`. A text that is no JSON is `none`; a value that takes no property is corrupt
too. -/
def deserialize : Option Json → Option StoredItem
  | some (.obj fields) => some
      { jobData := fields.lookup "jobData"
        failedAt := (fields.lookup "failedAt").bind Json.asDate
        maxAttempts := (fields.lookup "maxAttempts").bind Json.asNum
        priority := ((fields.lookup "metadata").bind (Json.get "priority")).bind Json.asNum }
  | some (.arr _) => some ⟨none, none, none, none⟩
  | _ => none

/-- The record is expired: `failedAt.getTime() <= cutoffTime`. An invalid date is not. -/
def Expired (cutoffTime : ℤ) (raw : Option Json) : Prop :=
  ∃ item ∈ deserialize raw, ∃ failedAt ∈ item.failedAt, (failedAt : ℤ) ≤ cutoffTime

instance (cutoffTime : ℤ) (raw : Option Json) : Decidable (Expired cutoffTime raw) :=
  decidable_of_iff ((deserialize raw).any fun item => item.failedAt.any fun (ms : ℕ) =>
    decide ((ms : ℤ) ≤ cutoffTime)) (by simp [Expired, Option.any_eq_true])

/-- A Redis hash: the fields with their texts. -/
abbrev Hash := List (String × Option Json)

/-- The hash with a field set. -/
def Hash.set (hash : Hash) (field : String) (raw : Option Json) : Hash :=
  (field, raw) :: hash.filter (·.1 ≠ field)

/-- The hash without some fields. -/
def Hash.del (hash : Hash) (fields : List String) : Hash := hash.filter (·.1 ∉ fields)

/-- A job that a recovery has put on a queue. -/
structure RecoveredJob where
  queueName : QueueName
  data : Option Json
  opts : JobOptions

/-- The store: the hash of each queue, the jobs that were put on the queues, the newest first,
and how the next commands go. -/
structure DlqStore where
  hashes : QueueName → Hash
  recovered : List RecoveredJob
  fates : List (Fate String)

inductive DlqCommand : Type
  /-- `HSET dlq:{queue} jobId text`. -/
  | hset (queueName : QueueName) (jobId : String) (raw : Option Json)
  | hget (queueName : QueueName) (jobId : String)
  | hgetall (queueName : QueueName)
  | hdel (queueName : QueueName) (jobIds : List String)
  | del (queueName : QueueName)
  /-- `queue.add(data, opts)`. -/
  | add (job : RecoveredJob)

/-- The values of the commands. -/
abbrev DlqCommand.Value : DlqCommand → Type
  | .hset _ _ _ => Unit
  | .hget _ _ => Option (Option Json)
  | .hgetall _ => Hash
  | .hdel _ _ => ℕ
  | .del _ => Unit
  | .add _ => Unit

/-- The replies: values, or exceptions. -/
abbrev DlqCommand.Reply (c : DlqCommand) : Type := Except String c.Value

def DlqCommand.value : (c : DlqCommand) → DlqStore → c.Value
  | .hset _ _ _, _ => ()
  | .hget q j, s => (s.hashes q).lookup j
  | .hgetall q, s => s.hashes q
  | .hdel q js, s => ((s.hashes q).filter (·.1 ∈ js)).length
  | .del _, _ => ()
  | .add _, _ => ()

def DlqCommand.effect : DlqCommand → DlqStore → DlqStore
  | .hset q j raw, s => { s with hashes := Function.update s.hashes q ((s.hashes q).set j raw) }
  | .hdel q js, s => { s with hashes := Function.update s.hashes q ((s.hashes q).del js) }
  | .del q, s => { s with hashes := Function.update s.hashes q [] }
  | .add job, s => { s with recovered := job :: s.recovered }
  | .hget _ _, s => s
  | .hgetall _, s => s

/-- How the next command goes. -/
def DlqStore.fate (s : DlqStore) : Fate String := s.fates.headD .succeeds

/-- The reply to a command, and the store after it. -/
def dlqServe (c : DlqCommand) (s : DlqStore) : c.Reply × DlqStore :=
  (s.fate.reply (c.value s),
    { if s.fate.carriedOut then c.effect s else s with fates := s.fates.tail })

/-- The programs of the service. An exception is its message. -/
abbrev DlqTask (α : Type) := Prog DlqCommand DlqCommand.Reply String α

/-- A command. -/
abbrev dlq (c : DlqCommand) : DlqTask c.Value := issue c

/-- `error.message`, or a text. -/
def JobError.message : JobError → String
  | .text message => message
  | .error message _ => if message = "" then "Unknown error" else message

def JobError.stack : JobError → Option String
  | .text _ => none
  | .error _ stack => some stack

/-- `value || fallback`. -/
def orElse (value : Option ℚ) (fallback : ℚ) : ℚ := if value.getD 0 = 0 then fallback else value.getD 0

/-- The record of a job. -/
def BullJob.dlqItem (job : BullJob) (error : JobError) (reason : DLQReason) (queueName : QueueName)
    (now : ℕ) : DLQItem where
  jobId := job.id
  queueName := queueName
  jobData := job.data
  error := error.message
  errorStack := error.stack
  failedAt := now
  lastAttempt := job.attemptsMade
  maxAttempts := orElse job.opts.attempts 3
  reason := reason
  metadata := ⟨job.opts.priority, job.timestamp, job.processedOn⟩

/-- `getDLQItems`, without a limit; the order of the items is left open. -/
def getDLQItems (queueName : QueueName) : DlqTask (List StoredItem) := do
  let fields ← dlq (.hgetall queueName)
  return fields.filterMap fun field => deserialize field.2

def addToDLQ (job : BullJob) (error : JobError) (reason : DLQReason) (queueName : QueueName) (now : ℕ) :
    DlqTask DLQItem := do
  let item := job.dlqItem error reason queueName now
  dlq (.hset queueName item.jobId (some item.stringify))
  let _queueDLQ ← getDLQItems queueName
  return item

/-- The job that a recovery adds. -/
def StoredItem.recoveredJob (item : StoredItem) (queueName : QueueName) : RecoveredJob :=
  ⟨queueName, item.jobData, ⟨item.maxAttempts, item.priority, some 0⟩⟩

def recoverJob (queueName : QueueName) (jobId : String) : DlqTask Bool := do
  let raw ← dlq (.hget queueName jobId)
  match raw.bind deserialize with
  | none => return false
  | some item =>
    if queueName.Known then
      tryCatch
        (do
          dlq (.add (item.recoveredJob queueName))
          let _removed ← dlq (.hdel queueName [jobId])
          return true)
        fun _ => return false
    else
      return false

def removeDLQItem (queueName : QueueName) (jobId : String) : DlqTask Bool := do
  let removed ← dlq (.hdel queueName [jobId])
  return removed > 0

def clearDLQ (queueName : QueueName) : DlqTask ℕ := do
  let items ← getDLQItems queueName
  dlq (.del queueName)
  return items.length

/-- The ids of the records that are expired. -/
def staleIds (cutoffTime : ℤ) (fields : Hash) : List String :=
  (fields.filter fun field => Expired cutoffTime field.2).map (·.1)

/-- The loop of `cleanupExpiredItems`. -/
def cleanupQueues (cutoffTime : ℤ) : List QueueName → DlqTask Unit
  | [] => pure ()
  | queueName :: queueNames => do
    let fields ← dlq (.hgetall queueName)
    if staleIds cutoffTime fields ≠ [] then
      let _removed ← dlq (.hdel queueName (staleIds cutoffTime fields))
      cleanupQueues cutoffTime queueNames
    else
      cleanupQueues cutoffTime queueNames

def cleanupExpiredItems (now maxAge : ℕ) : DlqTask Unit :=
  cleanupQueues ((now : ℤ) - maxAge) QueueName.all

/-- A call of a method. -/
inductive DlqCall : Type
  | addToDLQ (job : BullJob) (error : JobError) (reason : DLQReason) (queueName : QueueName) (now : ℕ)
  | recoverJob (queueName : QueueName) (jobId : String)
  | removeDLQItem (queueName : QueueName) (jobId : String)
  | clearDLQ (queueName : QueueName)
  | cleanupExpiredItems (now maxAge : ℕ)

def DlqCall.program : DlqCall → DlqTask Unit
  | .addToDLQ job error reason queueName now =>
    (fun _ => ()) <$> Queue.addToDLQ job error reason queueName now
  | .recoverJob queueName jobId => (fun _ => ()) <$> Queue.recoverJob queueName jobId
  | .removeDLQItem queueName jobId => (fun _ => ()) <$> Queue.removeDLQItem queueName jobId
  | .clearDLQ queueName => (fun _ => ()) <$> Queue.clearDLQ queueName
  | .cleanupExpiredItems now maxAge => Queue.cleanupExpiredItems now maxAge

/-- An executed command. -/
abbrev DlqEvent (ι : Type) := Executed DlqCommand DlqCommand.Reply ι DlqStore

/-- The machine of the calls, with the executed commands kept. -/
def dlqMachine (ι : Type) : Machine DlqCommand DlqCommand.Reply ι (DlqStore × List (DlqEvent ι)) :=
  (Machine.ofHandler dlqServe).observed

/-- Any number of calls at the same time. -/
def recovering {ι : Type} (calls : ι → DlqCall) (d₀ : DlqStore) :
    Config DlqCommand DlqCommand.Reply String Unit ι (DlqStore × List (DlqEvent ι)) :=
  ⟨(d₀, []), fun i => (calls i).program⟩

end Queue
