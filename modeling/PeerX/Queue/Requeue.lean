import PeerX.Queue.Recoveries
import Mathlib.Data.List.Lex
import Mathlib.Data.List.Sort

/-!
# Queue: the job that a recovery puts back

A job has a name, by which its queue dispatches it to a handler. The record of the dead letter queue
keeps the data of the job, and not its name; a recovery adds the data without a name, so that Bull
calls the job `__default__`. The handler of the emails sorts the recipients in `job.data` in place,
so that the record of an email keeps them sorted. The job put back is the original one when the
original had no name, and an email that was handled had its recipients in order.
-/

namespace Queue

open Concurrency

/-- The name that Bull gives to a job that is added without one. -/
def defaultName : String := "__default__"

/-- `NotificationJobData.priority`. -/
inductive NotificationPriority : Type
  | high
  | normal
  | low
deriving DecidableEq

def getPriority : Option NotificationPriority → ℚ
  | some .high => 1
  | some .normal => 5
  | some .low => 10
  | none => 5

/-- A call of the queue service that adds a job, with its data. -/
inductive EnqueueCall : Type
  | addSingleSwapJob (data : Json) (options : JobOptions)
  | addMultiLegSwapJob (data : Json) (options : JobOptions)
  | addBatchSwapJob (data : Json) (options : JobOptions)
  | addNotificationJob (data : Json) (priority : Option NotificationPriority) (options : JobOptions)
  /-- One of the notifications of `addBulkNotifications`. -/
  | addBulkNotifications (data : Json) (priority : Option NotificationPriority)
  | addEmailJob (data : Json) (options : JobOptions)
  | addReportJob (data : Json) (options : JobOptions)
  | addCleanupJob (data : Json) (options : JobOptions)

/-- The options with a default for the attempts. -/
def JobOptions.withAttempts (options : JobOptions) (attempts : ℚ) : JobOptions :=
  { options with attempts := options.attempts.orElse fun _ => some attempts }

/-- The options with a priority. -/
def JobOptions.withPriority (options : JobOptions) (priority : ℚ) : JobOptions :=
  { options with priority := some priority }

/-- A job, as it is added to a queue. -/
structure Enqueued where
  queueName : QueueName
  name : String
  data : Json
  opts : JobOptions

/-- The job that a call adds. -/
def EnqueueCall.enqueued : EnqueueCall → Enqueued
  | .addSingleSwapJob data options => ⟨.swaps, "single", data, options.withAttempts 3⟩
  | .addMultiLegSwapJob data options => ⟨.swaps, "multi_leg", data, options.withAttempts 2⟩
  | .addBatchSwapJob data options => ⟨.swaps, "batch", data, options.withAttempts 3⟩
  | .addNotificationJob data priority options =>
    ⟨.notifications, defaultName, data, options.withPriority (getPriority priority)⟩
  | .addBulkNotifications data priority =>
    ⟨.notifications, "bulk-notification", data, { priority := some (getPriority priority) }⟩
  | .addEmailJob data options => ⟨.emails, defaultName, data, options⟩
  | .addReportJob data options => ⟨.reports, defaultName, data, options.withPriority 5⟩
  | .addCleanupJob data options => ⟨.cleanup, defaultName, data, options.withPriority 10⟩

/-- The calls that add a job without a name. -/
def EnqueueCall.Unnamed : EnqueueCall → Prop
  | .addNotificationJob _ _ _ | .addEmailJob _ _ | .addReportJob _ _ | .addCleanupJob _ _ => True
  | .addSingleSwapJob _ _ | .addMultiLegSwapJob _ _ | .addBatchSwapJob _ _ => False
  | .addBulkNotifications _ _ => False

/-- The handlers of the processors. -/
inductive Handler : Type
  | processSingle
  | processMultiLeg
  | processBatch
  | processNotification
  | processBulkNotification
  | processEmail
  | processReport
  | processCleanup
deriving DecidableEq

/-- The handler of a job, by the names in the `@Process` decorators of its queue. -/
def handler (queueName : QueueName) (name : String) : Option Handler :=
  match queueName with
  | .swaps =>
    if name = "single" then some .processSingle
    else if name = "multi_leg" then some .processMultiLeg
    else if name = "batch" then some .processBatch
    else none
  | .notifications =>
    if name = defaultName then some .processNotification
    else if name = "bulk-notification" then some .processBulkNotification
    else none
  | .emails => if name = defaultName then some .processEmail else none
  | .reports => if name = defaultName then some .processReport else none
  | .cleanup => if name = defaultName then some .processCleanup else none
  | .alerts => none

/-- The name of a job that a recovery adds: `queue.add` is called without one. -/
def RecoveredJob.name (_ : RecoveredJob) : String := defaultName

/-- The job of Bull, with what Bull keeps about it. -/
def Enqueued.job (e : Enqueued) (id : String) (attemptsMade timestamp : ℕ) (processedOn : Option ℕ) :
    BullJob :=
  ⟨id, e.name, e.data, e.opts, attemptsMade, timestamp, processedOn⟩

/-- `!!value`. -/
def Json.truthy : Json → Bool
  | .null => false
  | .bool b => b
  | .num n => n ≠ 0
  | .str s => s ≠ ""
  | .date _ | .arr _ | .obj _ => true

/-- `to`, `subject` and `template` are there. -/
def Json.Complete (data : Json) : Prop := ∀ key ∈ ["to", "subject", "template"], (data.get key).any truthy

instance (data : Json) : Decidable data.Complete := inferInstanceAs (Decidable (∀ _ ∈ _, _))

section Handling

-- The code units of `String(value)`, by which `sort` compares.
variable (text : Json → List ℕ)

/-- `data.to.sort()`, when it is an array. -/
def Json.sort : Json → Json
  | .arr items => .arr (items.insertionSort fun a b => text a ≤ text b)
  | value => value

/-- A field, after `generateEmailId`. -/
def sortField (field : String × Json) : String × Json :=
  if field.1 = "to" then (field.1, field.2.sort text) else field

/-- What `processEmail` leaves in `job.data`, once it has reported the progress. -/
def processedEmail : Json → Json
  | .obj fields => if (Json.obj fields).Complete then .obj (fields.map (sortField text)) else .obj fields
  | data => data

/-- The job, as its processor leaves it to `onFailed`. The last attempt has reported its first
progress, or not; the other handlers change no data. -/
def BullJob.attempted (queueName : QueueName) (progressed : Bool) (job : BullJob) : BullJob :=
  if progressed ∧ handler queueName job.name = some .processEmail then
    { job with data := processedEmail text job.data }
  else job

/-- The recipients of the email are in order, or it is not complete. -/
def Json.InOrder : Json → Prop
  | .obj fields => (Json.obj fields).Complete →
      ∀ items, ("to", Json.arr items) ∈ fields → items.Pairwise fun a b => text a ≤ text b
  | _ => True

/-- The email that the call adds, if its processing has gone so far, has its recipients in order. -/
def EnqueueCall.InOrder (progressed : Bool) : EnqueueCall → Prop
  | .addEmailJob data _ => progressed → data.InOrder text
  | _ => True

variable {text}

theorem sort_eq_self_iff {value : Json} :
    value.sort text = value ↔ ∀ items, value = .arr items → items.Pairwise fun a b => text a ≤ text b := by
  cases value <;> simp only [Json.sort, Json.arr.injEq, reduceCtorEq, false_imp_iff, implies_true, forall_eq']
  case arr items =>
    refine ⟨fun h => ?_, List.Pairwise.insertionSort_eq⟩
    rw [← h]
    exact List.pairwise_insertionSort _ items

/-- The handler leaves the data as it is exactly when the recipients are in order. -/
theorem processedEmail_eq_self_iff {data : Json} : processedEmail text data = data ↔ data.InOrder text := by
  cases data with
  | obj fields =>
    by_cases hcomplete : (Json.obj fields).Complete
    · have hfield : ∀ field, sortField text field = field ↔
          ∀ items, field = ("to", .arr items) → items.Pairwise fun a b => text a ≤ text b := by
        rintro ⟨key, value⟩
        by_cases hkey : key = "to" <;> simp [sortField, hkey, sort_eq_self_iff]
      have hmap : fields.map (sortField text) = fields ↔ ∀ field ∈ fields, sortField text field = field := by
        simpa using List.map_inj_left (l := fields) (f := sortField text) (g := id)
      rw [processedEmail, if_pos hcomplete, Json.obj.injEq, hmap]
      simp only [hfield, Json.InOrder, hcomplete, true_imp_iff]
      exact ⟨fun h items hitems => h _ hitems items rfl,
        fun h field hmem items heq => h items (heq ▸ hmem)⟩
    · simp [processedEmail, Json.InOrder, hcomplete]
  | _ => simp [processedEmail, Json.InOrder]

end Handling

/-- A job that has failed in its processor is recorded, and its record is recovered. -/
def moveAndRecover (text : Json → List ℕ) (progressed : Bool) (job : BullJob) (error : JobError)
    (reason : DLQReason) (queueName : QueueName) (now : ℕ) : DlqTask Bool := do
  let item ← addToDLQ (job.attempted text queueName progressed) error reason queueName now
  recoverJob queueName item.jobId

section Recovery

variable {d d' : DlqStore} {job : BullJob} {error : JobError} {reason : DLQReason} {q : QueueName}
  {now : ℕ} {j : String} {text : Json → List ℕ} {progressed : Bool}

/-- A sequence of commands that returns: the first one has replied its value. -/
theorem eval_dlq_bind {α : Type} {c : DlqCommand} {f : c.Value → DlqTask α} {a : α}
    (h : (dlq c >>= f).eval dlqServe d = (.ok a, d')) :
    (f (c.value d)).eval dlqServe { c.effect d with fates := d.fates.tail } = (.ok a, d') := by
  obtain ⟨v, hreply, h⟩ := eval_issue_bind_ok h
  obtain ⟨hfate, rfl⟩ := Fate.reply_eq_ok.mp hreply
  simpa [dlqServe, hfate, Fate.carriedOut] using h

/-- The record, as it is read: the data, the attempts and the priority of the job. -/
theorem deserialize_dlqItem : deserialize (some (job.dlqItem error reason q now).stringify) = some
    { jobData := some job.data
      failedAt := some now
      maxAttempts := some (orElse job.opts.attempts 3)
      priority := job.opts.priority } := by
  cases error <;> cases hpriority : job.opts.priority <;> cases hprocessed : job.processedOn <;>
    simp [BullJob.dlqItem, DLQItem.stringify, deserialize, optionalField, Json.get, Json.asNum,
      Json.asDate, JobError.stack, hpriority, hprocessed, List.lookup_cons]

/-- A job that is recorded: its record is in the hash of its queue. -/
theorem eval_addToDLQ {item : DLQItem}
    (h : (addToDLQ job error reason q now).eval dlqServe d = (.ok item, d')) :
    item = job.dlqItem error reason q now ∧
      (d'.hashes q).lookup job.id = some (some item.stringify) ∧ d'.recovered = d.recovered := by
  rw [addToDLQ] at h
  have hset := eval_dlq_bind h
  rw [getDLQItems, bind_assoc] at hset
  obtain ⟨hitem, rfl⟩ := Prod.mk.inj (eval_dlq_bind hset)
  obtain rfl := Except.ok.inj hitem
  exact ⟨rfl, by simp [DlqCommand.effect, BullJob.dlqItem, lookup_set_self], rfl⟩

/-- A recovery that succeeds: it has read a record, and the job of the record is put back. -/
theorem eval_recoverJob (h : (recoverJob q j).eval dlqServe d = (.ok true, d')) :
    ∃ raw item, (d.hashes q).lookup j = some raw ∧ deserialize raw = some item ∧ q.Known ∧
      d'.recovered = item.recoveredJob q :: d.recovered := by
  rw [recoverJob] at h
  have hget := eval_dlq_bind h
  cases hraw : (d.hashes q).lookup j with
  | none =>
    simp only [DlqCommand.value, hraw] at hget
    cases hget
  | some raw =>
    cases hitem : deserialize raw with
    | none =>
      simp only [DlqCommand.value, hraw, Option.bind_some, hitem] at hget
      cases hget
    | some item =>
      simp only [DlqCommand.value, hraw, Option.bind_some, hitem] at hget
      by_cases hknown : q.Known
      · rw [if_pos hknown, Prog.eval_tryCatch] at hget
        split at hget
        · rename_i b s' hadd
          obtain ⟨hb, rfl⟩ := Prod.mk.inj hget
          obtain rfl := Except.ok.inj hb
          obtain ⟨-, rfl⟩ := Prod.mk.inj (eval_dlq_bind (eval_dlq_bind hadd))
          exact ⟨raw, item, rfl, hitem, hknown, rfl⟩
        · cases hget
      · rw [if_neg hknown] at hget
        cases hget

@[simp] theorem attempted_opts : (job.attempted text q progressed).opts = job.opts := by
  unfold BullJob.attempted
  split <;> rfl

/-- The job that is put back: the queue and the priority are those of the original, the data is
what the processor has left. -/
theorem eval_moveAndRecover
    (h : (moveAndRecover text progressed job error reason q now).eval dlqServe d = (.ok true, d')) :
    d'.recovered = ⟨q, some (job.attempted text q progressed).data,
      ⟨some (orElse job.opts.attempts 3), job.opts.priority, some 0⟩⟩ :: d.recovered := by
  obtain ⟨item, d₁, hadd, hrecover⟩ := Prog.eval_bind_ok _ h
  obtain ⟨rfl, hlookup, hrecovered⟩ := eval_addToDLQ hadd
  obtain ⟨raw, item, hraw, hitem, -, hjob⟩ := eval_recoverJob hrecover
  -- The recovery reads the record that was just stored.
  obtain rfl : raw = _ := Option.some.inj (hraw.symm.trans hlookup)
  obtain rfl : item = _ := Option.some.inj (hitem.symm.trans deserialize_dlqItem)
  rw [hjob, hrecovered]
  simp [StoredItem.recoveredJob]

/-- The processor leaves the data of a job that was added without a name exactly when an email is in
order. -/
theorem attempted_data_iff {call : EnqueueCall} {id : String} {attemptsMade timestamp : ℕ}
    {processedOn : Option ℕ} :
    ((call.enqueued.job id attemptsMade timestamp processedOn).attempted text call.enqueued.queueName
      progressed).data = call.enqueued.data ↔ call.InOrder text progressed := by
  cases call <;> cases progressed <;>
    simp [EnqueueCall.enqueued, Enqueued.job, BullJob.attempted, handler, EnqueueCall.InOrder, defaultName,
      processedEmail_eq_self_iff]

/-- A call adds a job without a name exactly when its name is the default one. -/
theorem unnamed_iff {call : EnqueueCall} : call.Unnamed ↔ call.enqueued.name = defaultName := by
  cases call <;> simp [EnqueueCall.Unnamed, EnqueueCall.enqueued, defaultName]

end Recovery

/-- **The job that a recovery puts back is the original one exactly when that was added without a
name, and its handler has sorted nothing**, in its name and its data, and in its handler. -/
theorem recovered_same_iff (text : Json → List ℕ) (progressed : Bool) (call : EnqueueCall) (id : String)
    (attemptsMade timestamp : ℕ) (processedOn : Option ℕ) (error : JobError) (reason : DLQReason) (now : ℕ)
    (d d' : DlqStore)
    (hdone : (moveAndRecover text progressed (call.enqueued.job id attemptsMade timestamp processedOn) error
      reason call.enqueued.queueName now).eval dlqServe d = (.ok true, d')) :
    (∃ job : RecoveredJob, d'.recovered = job :: d.recovered ∧ job.queueName = call.enqueued.queueName ∧
        job.name = call.enqueued.name ∧ job.data = some call.enqueued.data ∧
        handler job.queueName job.name = handler call.enqueued.queueName call.enqueued.name) ↔
      call.Unnamed ∧ call.InOrder text progressed := by
  rw [unnamed_iff, ← attempted_data_iff, eval_moveAndRecover hdone]
  constructor
  · rintro ⟨job, hjob, -, hname, hdata, -⟩
    obtain rfl := (List.cons.inj hjob).1
    exact ⟨hname.symm, Option.some.inj hdata⟩
  · rintro ⟨hname, hdata⟩
    refine ⟨_, rfl, rfl, hname.symm, congrArg some hdata, ?_⟩
    rw [hname]
    rfl

/-- An empty store, where every command goes through. -/
def emptyDlq : DlqStore := ⟨fun _ => [], [], []⟩

/-- The code units of an address. -/
def addressUnits : Json → List ℕ
  | .str address => address.toList.map Char.toNat
  | _ => []

/-- An email to some addresses. -/
def emailTo (addresses : List String) : Json :=
  .obj [("to", .arr (addresses.map .str)), ("subject", .str "s"), ("template", .str "test")]

/-- An email that has failed, to addresses in order, is recovered as it was. -/
theorem recovered_same_email : ∃ job : RecoveredJob,
    job.name = defaultName ∧ job.data = some (emailTo ["amy", "zoe"]) ∧
      handler job.queueName job.name = some .processEmail :=
  have ⟨job, _, _, hname, hdata, hhandler⟩ :=
    (recovered_same_iff addressUnits true (.addEmailJob (emailTo ["amy", "zoe"]) {}) "1" 3 0 (some 1)
      (.error "SMTP down" "at send") .maxRetriesExceeded 5 emptyDlq _ rfl).mpr
      ⟨trivial, fun _ _ items hitems => by
        obtain rfl : items = [.str "amy", .str "zoe"] := by simpa [emailTo] using hitems
        simpa [addressUnits] using (by decide : [97, 109, 121] ≤ [122, 111, 101])⟩
  ⟨job, hname, hdata, hhandler⟩

/-- **A swap that has failed is put back under another name**, and its queue has no handler for it.
An email to two addresses out of order is put back with the addresses sorted. -/
theorem recovered_otherwise :
    (∃ d', (moveAndRecover addressUnits false
        ((EnqueueCall.addSingleSwapJob (.obj [("swapId", .str "s")]) {}).enqueued.job "1" 3 0 (some 1))
        (.error "timeout" "at swap") .maxRetriesExceeded .swaps 5).eval dlqServe emptyDlq = (.ok true, d') ∧
      d'.recovered.map (fun job => (job.name, handler job.queueName job.name)) = [("__default__", none)] ∧
      handler .swaps "single" = some .processSingle) ∧
    ∃ d', (moveAndRecover addressUnits true
        ((EnqueueCall.addEmailJob (emailTo ["zoe", "amy"]) {}).enqueued.job "1" 3 0 (some 1))
        (.error "SMTP down" "at send") .maxRetriesExceeded .emails 5).eval dlqServe emptyDlq = (.ok true, d') ∧
      d'.recovered.map RecoveredJob.data = [some (emailTo ["amy", "zoe"])] :=
  ⟨⟨_, rfl, rfl, rfl⟩, ⟨_, rfl, rfl⟩⟩

end Queue
