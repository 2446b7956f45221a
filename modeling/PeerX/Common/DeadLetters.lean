import PeerX.Foundations.JsMap
import PeerX.Foundations.JsNumber
import PeerX.Foundations.Runs
import Mathlib.Data.List.Nodup
import Mathlib.Logic.Function.Basic

/-!
# Common: dead letter queues

The messages of a queue stand in an array. A retry looks for the position of its message, waits for
the retry function, and then removes what stands at this position of the array that it read.
Meanwhile another retry may have moved the messages of the array, and a cleanup replaces the array
by a new one. So the message may stay in the queue, and another one may leave it instead.

## Main results

* `Sound.step`: the invariant of the arrays and of the suspended retries
* `orderly_iff`, `run_orderly_iff`: the steps and the runs that are orderly
-/

namespace DeadLetters

open Arithmetic Concurrency Relational

variable {D : Type}

/-! ## The service -/

structure DLQConfig where
  maxRetries : ℕ
  retentionDays : JsNumber
deriving DecidableEq

structure JobError where
  code : Option String
  message : String
deriving DecidableEq

structure MessageError where
  code : String
  message : String
deriving DecidableEq

/-- `DeadLetterMessage`. Its object is told apart from all others; its id is a random text. -/
structure DeadLetterMessage (D : Type) where
  object : ℕ
  id : String
  originalJobId : Option String
  queueName : String
  functionName : String
  data : D
  error : MessageError
  attempts : ℕ
  maxRetries : ℕ
  failedAt : ℤ
deriving DecidableEq

/-- A suspended retry: what it has read before it waits. -/
structure Retry (D : Type) where
  queueName : String
  messages : ℕ
  messageIndex : ℕ
  message : DeadLetterMessage D
deriving DecidableEq

/-- The service. The arrays of messages are known by their references. The messages whose retry
succeeded are recorded with their queue. -/
structure Service (D : Type) where
  dlqConfigs : JsMap String DLQConfig
  dlqMessages : JsMap String ℕ
  arrays : ℕ → List (DeadLetterMessage D)
  allocated : ℕ
  objects : ℕ
  retries : List (Retry D)
  succeeded : List (String × DeadLetterMessage D)

def Service.new : Service D where
  dlqConfigs := JsMap.new
  dlqMessages := JsMap.new
  arrays := fun _ => []
  allocated := 0
  objects := 0
  retries := []
  succeeded := []

/-- `dlqMessages.get(queueName) || []`. -/
def Service.messages (s : Service D) (queueName : String) : List (DeadLetterMessage D) :=
  (s.dlqMessages.get queueName).elim [] s.arrays

/-- `dlqMessages.set(queueName, messages)`, for a new array. -/
def Service.replace (s : Service D) (queueName : String)
    (messages : List (DeadLetterMessage D)) : Service D :=
  { s with
    dlqMessages := s.dlqMessages.set queueName s.allocated
    arrays := Function.update s.arrays s.allocated messages
    allocated := s.allocated + 1 }

/-- The content of an array changes. -/
def Service.mutate (s : Service D) (array : ℕ)
    (messages : List (DeadLetterMessage D)) : Service D :=
  { s with arrays := Function.update s.arrays array messages }

def registerDLQ (s : Service D) (queueName : String) (config : DLQConfig) : Service D :=
  { s.replace queueName [] with dlqConfigs := s.dlqConfigs.set queueName config }

/-- `sendToDLQ`. The id and the time are those that it generates. -/
def sendToDLQ (s : Service D) (queueName : String) (jobId : Option String) (functionName : String)
    (data : D)
    (error : JobError) (attempts : ℕ) (id : String) (failedAt : ℤ) : Service D :=
  match s.dlqConfigs.get queueName with
  | none => s
  | some config =>
    let dlqMessage : DeadLetterMessage D :=
      { object := s.objects
        id := id
        originalJobId := jobId
        queueName := queueName
        functionName := functionName
        data := data
        error :=
          { code := (error.code.filter (· ≠ "")).getD "UNKNOWN_ERROR", message := error.message }
        attempts := attempts
        maxRetries := config.maxRetries
        failedAt := failedAt }
    let s := { s with objects := s.objects + 1 }
    match s.dlqMessages.get queueName with
    -- `push` changes the array in place, so suspended retries see it
    | some array => s.mutate array (s.arrays array ++ [dlqMessage])
    | none => s.replace queueName [dlqMessage]

/-- `retryDLQMessage`, up to the retry function: the retry is suspended, or `false` is
returned. -/
def retryDLQMessage (s : Service D) (queueName messageId : String) : Option Bool × Service D :=
  match s.dlqMessages.get queueName with
  | none => (some false, s)
  | some array =>
    match (s.arrays array).findFinIdx? fun m => m.id = messageId with
    | none => (some false, s)
    | some messageIndex =>
      let message := (s.arrays array).get messageIndex
      (none, { s with retries := s.retries ++ [⟨queueName, array, messageIndex, message⟩] })

/-- `retryDLQMessage`, from the end of the retry function on. -/
def retryFnDone (s : Service D) (call : ℕ) (success : Bool) : Bool × Service D :=
  match s.retries[call]? with
  | none => (false, s)
  | some retry =>
    let s := { s with retries := s.retries.eraseIdx call }
    if success then
      -- `splice` on the array that was read, which may not be the queue's any more
      let s := s.mutate retry.messages ((s.arrays retry.messages).eraseIdx retry.messageIndex)
      (true, { s with succeeded := (retry.queueName, retry.message) :: s.succeeded })
    else (false, s)

/-- `m.failedAt.getTime() > cutoffTime`. -/
def isRetained (config : DLQConfig) (now : ℤ) (message : DeadLetterMessage D) : Bool :=
  let retentionMs := config.retentionDays * .num 24 * .num 60 * .num 60 * .num 1000
  match JsNumber.num now + .num (-1) * retentionMs with
  | .num cutoffTime => cutoffTime < message.failedAt
  | .inf negative => negative
  | .nan => false

/-- The cleanup of a queue, with the number of the messages removed so far. -/
def cleanupQueue (now : ℤ) (acc : ℕ × Service D) (queue : String) : ℕ × Service D :=
  match acc.2.dlqConfigs.get queue with
  | none => acc
  | some config =>
    let messages := acc.2.messages queue
    let filtered := messages.filter (isRetained config now)
    (acc.1 + (messages.length - filtered.length), acc.2.replace queue filtered)

/-- The queues that a cleanup goes through. -/
def cleanedQueues (s : Service D) (queueName : Option String) : List String :=
  (queueName.filter (· ≠ "")).elim s.dlqMessages.keys fun queueName => [queueName]

def cleanupOldMessages (s : Service D) (queueName : Option String) (now : ℤ) : ℕ × Service D :=
  (cleanedQueues s queueName).foldl (cleanupQueue now) (0, s)

def clearDLQ (s : Service D) (queueName : String) : ℕ × Service D :=
  ((s.messages queueName).length, s.replace queueName [])

/-! ## Steps -/

/-- The steps of the calls. A retry has two of them. -/
inductive DLQStep (D : Type) : Type
  | sendToDLQ (queueName : String) (jobId : Option String) (functionName : String) (data : D)
  (error : JobError)
      (attempts : ℕ) (id : String) (failedAt : ℤ)
  | retryDLQMessage (queueName messageId : String)
  | retryFnDone (call : ℕ) (success : Bool)
  | cleanupOldMessages (queueName : Option String) (now : ℤ)
  | clearDLQ (queueName : String)

/-- The service after a step. -/
def DLQStep.after (s : Service D) : DLQStep D → Service D
  | .sendToDLQ queueName jobId functionName data error attempts id failedAt =>
    DeadLetters.sendToDLQ s queueName jobId functionName data error attempts id failedAt
  | .retryDLQMessage queueName messageId => (DeadLetters.retryDLQMessage s queueName messageId).2
  | .retryFnDone call success => (DeadLetters.retryFnDone s call success).2
  | .cleanupOldMessages queueName now => (DeadLetters.cleanupOldMessages s queueName now).2
  | .clearDLQ queueName => (DeadLetters.clearDLQ s queueName).2

/-- The service with registered queues. -/
def registered (queues : List (String × DLQConfig)) : Service D :=
  queues.foldl (fun s queue => registerDLQ s queue.1 queue.2) .new

/-- A message may leave the queue in a step: its retry succeeds, it is expired, or the queue is
cleared. -/
def MayLeave (s : Service D) (queueName : String) (message : DeadLetterMessage D) : DLQStep D → Prop
  | .retryFnDone call success => success = true ∧
      ∃ retry, s.retries[call]? = some retry ∧ retry.queueName = queueName ∧ retry.message = message
  | .cleanupOldMessages queue now => queueName ∈ cleanedQueues s queue ∧
      ∃ config, s.dlqConfigs.get queueName = some config ∧ isRetained config now message = false
  | .clearDLQ queue => queue = queueName
  | _ => False

/-- The messages whose retry succeeded are gone. -/
def Gone (s : Service D) : Prop :=
  ∀ queueName message, (queueName, message) ∈ s.succeeded → message ∉ s.messages queueName

/-- An orderly step. -/
structure Orderly (s : Service D) (step : DLQStep D) : Prop where
  leaves : ∀ queueName, ∀ message ∈ s.messages queueName,
    message ∉ (step.after s).messages queueName →
    MayLeave s queueName message step
  gone : Gone (step.after s)

/-- The position of a suspended retry is still good: when the queue still has the array that the
retry read, its message stands at the position, or has left the queue, and the position is behind
the last message; otherwise the message has left the queue. -/
def InPlace (s : Service D) (retry : Retry D) : Prop :=
  if s.dlqMessages.get retry.queueName = some retry.messages then
    (s.arrays retry.messages)[retry.messageIndex]? = some retry.message ∨
      (retry.message ∉ s.arrays retry.messages ∧
        (s.arrays retry.messages).length ≤ retry.messageIndex)
  else retry.message ∉ s.messages retry.queueName

/-- No retry is disturbed: when a retry function succeeds, the position is still good. -/
def Undisturbed (s : Service D) : DLQStep D → Prop
  | .retryFnDone call success => success = true → ∀ retry, s.retries[call]? = some retry →
  InPlace s retry
  | _ => True

variable {s : Service D}

/-! ## The arrays -/

/-- The arrays are sound: each queue has its own one, which a suspended retry of another queue
has not read; the messages of an array differ, and every message was created. -/
structure Sound (s : Service D) : Prop where
  allocated : ∀ queueName array, s.dlqMessages.get queueName = some array → array < s.allocated
  separate : ∀ queueName other array, s.dlqMessages.get queueName = some array →
    s.dlqMessages.get other = some array → queueName = other
  read : ∀ retry ∈ s.retries, retry.messages < s.allocated ∧ retry.message.object < s.objects ∧
    ∀ queueName, s.dlqMessages.get queueName = some retry.messages → queueName = retry.queueName
  nodup : ∀ array, (s.arrays array).Nodup
  created : ∀ array, ∀ message ∈ s.arrays array, message.object < s.objects
  succeeded : ∀ queueName message, (queueName, message) ∈ s.succeeded → message.object < s.objects

theorem messages_eq {queueName : String} {array : ℕ}
    (h : s.dlqMessages.get queueName = some array) :
    s.messages queueName = s.arrays array := by
  rw [Service.messages, h, Option.elim_some]

theorem messages_eq_nil {queueName : String} (h : s.dlqMessages.get queueName = none) :
    s.messages queueName = [] := by
  rw [Service.messages, h, Option.elim_none]

theorem Sound.nodup_messages (h : Sound s) (queueName : String) : (s.messages queueName).Nodup := by
  cases harray : s.dlqMessages.get queueName with
  | none =>
    rw [messages_eq_nil harray]
    exact List.nodup_nil
  | some array =>
    rw [messages_eq harray]
    exact h.nodup array

theorem Sound.created_messages (h : Sound s) {queueName : String} {message : DeadLetterMessage D}
    (hmem : message ∈ s.messages queueName) : message.object < s.objects := by
  cases harray : s.dlqMessages.get queueName with
  | none =>
    rw [messages_eq_nil harray] at hmem
    cases hmem
  | some array =>
    rw [messages_eq harray] at hmem
    exact h.created array message hmem

/-! ### A new array -/

theorem get_replace (queueName other : String) (messages : List (DeadLetterMessage D)) :
    (s.replace queueName messages).dlqMessages.get other =
      if other = queueName then some s.allocated else s.dlqMessages.get other :=
  JsMap.get_set _ _ _ _

theorem arrays_replace (queueName : String) (messages : List (DeadLetterMessage D)) (array : ℕ) :
    (s.replace queueName messages).arrays array = if array = s.allocated then messages
      else s.arrays array :=
  Function.update_apply _ _ _ _

theorem messages_replace (h : Sound s) (queueName other : String)
    (messages : List (DeadLetterMessage D)) :
    (s.replace queueName messages).messages other = if other = queueName then messages
      else s.messages other := by
  rw [Service.messages, get_replace]
  split
  · rw [Option.elim_some, arrays_replace, if_pos rfl]
  · cases harray : s.dlqMessages.get other with
    | none => rw [messages_eq_nil harray, Option.elim_none]
    | some array =>
      have hne : array ≠ s.allocated := Nat.ne_of_lt (h.allocated other array harray)
      rw [messages_eq harray, Option.elim_some, arrays_replace, if_neg hne]

theorem Sound.replace (h : Sound s) (queueName : String) {messages : List (DeadLetterMessage D)}
    (hnodup : messages.Nodup) (hcreated : ∀ message ∈ messages, message.object < s.objects) :
    Sound (s.replace queueName messages) := by
  -- the reference of the new array is not in use
  have hget : ∀ other array, (s.replace queueName messages).dlqMessages.get other = some array →
      (other = queueName ∧ array = s.allocated) ∨
        (other ≠ queueName ∧ s.dlqMessages.get other = some array ∧ array < s.allocated) := by
    intro other array hother
    rw [get_replace] at hother
    split at hother
    · next heq => exact .inl ⟨heq, (Option.some.inj hother).symm⟩
    · next hne => exact .inr ⟨hne, hother, h.allocated other array hother⟩
  constructor
  · intro other array hother
    rcases hget other array hother with ⟨-, rfl⟩ | ⟨-, -, hlt⟩
    · exact Nat.lt_succ_self _
    · exact Nat.lt_succ_of_lt hlt
  · intro one other array hone hother
    rcases hget one array hone with ⟨hone, heq⟩ | ⟨-, hone, hlt⟩ <;>
      rcases hget other array hother with ⟨hother, heq'⟩ | ⟨-, hother, hlt'⟩
    · exact hone.trans hother.symm
    · omega
    · omega
    · exact h.separate one other array hone hother
  · intro retry hretry
    obtain ⟨hlt, hobject, hqueue⟩ := h.read retry hretry
    refine ⟨Nat.lt_succ_of_lt hlt, hobject, fun other hother => ?_⟩
    rcases hget other _ hother with ⟨-, heq⟩ | ⟨-, hother, -⟩
    · omega
    · exact hqueue other hother
  · intro array
    rw [arrays_replace]
    split
    · exact hnodup
    · exact h.nodup array
  · intro array message hmem
    rw [arrays_replace] at hmem
    split at hmem
    · exact hcreated message hmem
    · exact h.created array message hmem
  · exact h.succeeded

/-! ### A changed array -/

theorem arrays_mutate (array other : ℕ) (messages : List (DeadLetterMessage D)) :
    (s.mutate array messages).arrays other = if other = array then messages else s.arrays other :=
  Function.update_apply _ _ _ _

theorem messages_mutate (queueName : String) (array : ℕ) (messages : List (DeadLetterMessage D)) :
    (s.mutate array messages).messages queueName =
      if s.dlqMessages.get queueName = some array then messages else s.messages queueName := by
  have hget : (s.mutate array messages).dlqMessages.get queueName = s.dlqMessages.get queueName :=
    rfl
  rw [Service.messages, Service.messages, hget]
  cases s.dlqMessages.get queueName with
  | none => rfl
  | some own =>
    rw [Option.elim_some, arrays_mutate]
    by_cases heq : own = array
    · rw [if_pos heq, if_pos (congrArg some heq)]
    · rw [if_neg heq, if_neg fun hsome => heq (Option.some.inj hsome), Option.elim_some]

theorem Sound.mutate (h : Sound s) (array : ℕ) {messages : List (DeadLetterMessage D)}
    (hnodup : messages.Nodup) (hcreated : ∀ message ∈ messages, message.object < s.objects) :
    Sound (s.mutate array messages) := by
  refine ⟨h.allocated, h.separate, h.read, fun other => ?_,
    fun other message hmem => ?_, h.succeeded⟩
  · rw [arrays_mutate]
    split
    · exact hnodup
    · exact h.nodup other
  · rw [arrays_mutate] at hmem
    split at hmem
    · exact hcreated message hmem
    · exact h.created other message hmem

/-! ### The other fields -/

theorem Sound.create (h : Sound s) : Sound { s with objects := s.objects + 1 } where
  allocated := h.allocated
  separate := h.separate
  read := fun retry hretry =>
    let ⟨hlt, hobject, hqueue⟩ := h.read retry hretry
    ⟨hlt, Nat.lt_succ_of_lt hobject, hqueue⟩
  nodup := h.nodup
  created := fun array message hmem => Nat.lt_succ_of_lt (h.created array message hmem)
  succeeded := fun queueName message hmem => Nat.lt_succ_of_lt (h.succeeded queueName message hmem)

theorem Sound.dismiss (h : Sound s) {retries : List (Retry D)}
    (hsublist : retries.Sublist s.retries) :
    Sound { s with retries := retries } :=
  ⟨h.allocated, h.separate, fun retry hretry => h.read retry (hsublist.subset hretry), h.nodup,
    h.created, h.succeeded⟩

theorem Sound.new : Sound (Service.new : Service D) where
  allocated := fun _ _ h => absurd h (Option.some_ne_none _).symm
  separate := fun _ _ _ h => absurd h (Option.some_ne_none _).symm
  read := fun _ h => absurd h List.not_mem_nil
  nodup := fun _ => List.nodup_nil
  created := fun _ _ h => absurd h List.not_mem_nil
  succeeded := fun _ _ h => absurd h List.not_mem_nil

theorem Sound.registerDLQ (h : Sound s) (queueName : String) (config : DLQConfig) :
    Sound (DeadLetters.registerDLQ s queueName config) := by
  have hreplace :=
    h.replace queueName List.nodup_nil fun message hmem => absurd hmem List.not_mem_nil
  exact ⟨hreplace.allocated, hreplace.separate, hreplace.read, hreplace.nodup, hreplace.created,
    hreplace.succeeded⟩

theorem registered_spec (queues : List (String × DLQConfig)) :
    Sound (registered queues : Service D) ∧ (registered queues : Service D).succeeded = [] := by
  have hstep : ∀ (s : Service D) (queue : String × DLQConfig), Sound s ∧ s.succeeded = [] →
      Sound (DeadLetters.registerDLQ s queue.1 queue.2) ∧
        (DeadLetters.registerDLQ s queue.1 queue.2).succeeded = [] :=
    fun s queue h => ⟨h.1.registerDLQ queue.1 queue.2, h.2⟩
  exact run_invariant' hstep ⟨.new, rfl⟩ queues

/-! ## The operations -/

section Send

variable (queueName : String) (jobId : Option String) (functionName : String) (data : D)
    (error : JobError)
  (attempts : ℕ) (id : String) (failedAt : ℤ)

theorem messages_sendToDLQ (h : Sound s) (other : String) :
    ∃ added, (∀ message ∈ added, message.object = s.objects) ∧
      (sendToDLQ s queueName jobId functionName data error attempts id failedAt).messages other =
        s.messages other ++ added := by
  rw [sendToDLQ]
  cases s.dlqConfigs.get queueName with
  | none => exact ⟨[], fun _ hmem => absurd hmem List.not_mem_nil, (List.append_nil _).symm⟩
  | some config =>
    dsimp only
    split
    · next array hget =>
      rw [messages_mutate]
      split
      · next hother =>
        refine ⟨_, ?_, congrArg (· ++ _) (messages_eq hother).symm⟩
        intro message hmem
        rw [List.mem_singleton.mp hmem]
      · exact ⟨[], fun _ hmem => absurd hmem List.not_mem_nil, (List.append_nil _).symm⟩
    · next hget =>
      rw [messages_replace h.create]
      split
      · next heq =>
        have hnil : s.messages other = [] := messages_eq_nil (heq ▸ hget)
        refine ⟨_, ?_, by rw [hnil, List.nil_append]⟩
        intro message hmem
        rw [List.mem_singleton.mp hmem]
      · exact ⟨[], fun _ hmem => absurd hmem List.not_mem_nil, (List.append_nil _).symm⟩

theorem succeeded_sendToDLQ :
    (sendToDLQ s queueName jobId functionName data error attempts id failedAt).succeeded =
      s.succeeded := by
  rw [sendToDLQ]
  cases s.dlqConfigs.get queueName with
  | none => rfl
  | some config =>
    dsimp only
    split <;> rfl

theorem Sound.sendToDLQ (h : Sound s) :
    Sound (DeadLetters.sendToDLQ s queueName jobId functionName data error attempts id
      failedAt) := by
  rw [DeadLetters.sendToDLQ]
  cases s.dlqConfigs.get queueName with
  | none => exact h
  | some config =>
    dsimp only
    split
    · next array hget =>
      refine h.create.mutate array ?_ ?_
      · refine List.nodup_append.mpr ⟨h.nodup array, List.nodup_singleton _,
          fun message hmem other hother => ?_⟩
        -- the new message is the only one with its object
        rintro rfl
        have hobject := h.created array message hmem
        rw [List.mem_singleton.mp hother] at hobject
        exact Nat.lt_irrefl _ hobject
      · intro message hmem
        rcases List.mem_append.mp hmem with hmem | hmem
        · exact h.create.created array message hmem
        · rw [List.mem_singleton.mp hmem]
          exact Nat.lt_succ_self _
    · refine h.create.replace queueName (List.nodup_singleton _) fun message hmem => ?_
      rw [List.mem_singleton.mp hmem]
      exact Nat.lt_succ_self _

end Send

theorem messages_retryDLQMessage (queueName messageId other : String) :
    (retryDLQMessage s queueName messageId).2.messages other = s.messages other := by
  rw [retryDLQMessage]
  split
  · rfl
  · split <;> rfl

theorem succeeded_retryDLQMessage (queueName messageId : String) :
    (retryDLQMessage s queueName messageId).2.succeeded = s.succeeded := by
  rw [retryDLQMessage]
  split
  · rfl
  · split <;> rfl

theorem Sound.retryDLQMessage (h : Sound s) (queueName messageId : String) :
    Sound (DeadLetters.retryDLQMessage s queueName messageId).2 := by
  rw [DeadLetters.retryDLQMessage]
  split
  · exact h
  · next array hget =>
    split
    · exact h
    · next messageIndex hindex =>
      refine ⟨h.allocated, h.separate, fun retry hretry => ?_, h.nodup, h.created, h.succeeded⟩
      rcases List.mem_append.mp hretry with hretry | hretry
      · exact h.read retry hretry
      · rw [List.mem_singleton.mp hretry]
        refine ⟨h.allocated queueName array hget, h.created array _ (List.get_mem _ _),
          fun other hother => ?_⟩
        exact h.separate other queueName array hother hget

theorem mem_eraseIdx_of_nodup {α : Type} {l : List α} (h : l.Nodup) {a : α} {i : ℕ} :
    a ∈ l.eraseIdx i ↔ a ∈ l ∧ l[i]? ≠ some a := by
  rw [List.mem_eraseIdx_iff_getElem?]
  constructor
  · rintro ⟨j, hne, hj⟩
    refine ⟨List.mem_of_getElem? hj, fun hi => hne ?_⟩
    obtain ⟨hlt, -⟩ := List.getElem?_eq_some_iff.mp hj
    exact (List.getElem?_inj hlt h).mp (hj.trans hi.symm)
  · rintro ⟨hmem, hne⟩
    obtain ⟨j, hj⟩ := List.mem_iff_getElem?.mp hmem
    refine ⟨j, ?_, hj⟩
    rintro rfl
    exact hne hj

/-- When a removal by position removes one item, and no other one. -/
theorem eraseIdx_removes_iff {α : Type} {l : List α} (h : l.Nodup) {a : α} {i : ℕ} :
    (a ∉ l.eraseIdx i ∧ ∀ b ∈ l, b ∉ l.eraseIdx i → b = a) ↔
      l[i]? = some a ∨ (a ∉ l ∧ l.length ≤ i) := by
  constructor
  · rintro ⟨hnot, hothers⟩
    by_cases hlt : i < l.length
    · -- the item at the position leaves, so it is the one
      have hat := List.getElem?_eq_getElem hlt
      have hout : l[i] ∉ l.eraseIdx i := by
        rw [mem_eraseIdx_of_nodup h]
        exact fun hboth => hboth.2 hat
      exact .inl (hat.trans (congrArg some (hothers l[i] (List.getElem_mem hlt) hout)))
    · have hle := Nat.le_of_not_lt hlt
      rw [List.eraseIdx_of_length_le hle] at hnot
      exact .inr ⟨hnot, hle⟩
  · rintro (hat | ⟨hnot, hle⟩)
    · constructor
      · rw [mem_eraseIdx_of_nodup h]
        exact fun hboth => hboth.2 hat
      · intro b hb hout
        rw [mem_eraseIdx_of_nodup h, not_and_not_right] at hout
        exact Option.some.inj ((hout hb).symm.trans hat)
    · rw [List.eraseIdx_of_length_le hle]
      exact ⟨hnot, fun b hb hout => absurd hb hout⟩

/-- A retry that ends well removes what stands at its position. -/
theorem messages_retryFnDone {call : ℕ} {retry : Retry D} (hretry : s.retries[call]? = some retry)
    (queueName : String) :
    (retryFnDone s call true).2.messages queueName =
      if s.dlqMessages.get queueName = some retry.messages then
        (s.arrays retry.messages).eraseIdx retry.messageIndex
      else s.messages queueName := by
  rw [retryFnDone, hretry]
  exact messages_mutate (s := { s with retries := s.retries.eraseIdx call }) queueName _ _

theorem succeeded_retryFnDone {call : ℕ} {retry : Retry D}
    (hretry : s.retries[call]? = some retry) :
    (retryFnDone s call true).2.succeeded = (retry.queueName, retry.message) :: s.succeeded := by
  rw [retryFnDone, hretry]
  rfl

theorem messages_retryFnDone_false (call : ℕ) (queueName : String) :
    (retryFnDone s call false).2.messages queueName = s.messages queueName := by
  rw [retryFnDone]
  split <;> rfl

theorem succeeded_retryFnDone_false (call : ℕ) :
    (retryFnDone s call false).2.succeeded = s.succeeded := by
  rw [retryFnDone]
  split <;> rfl

theorem Sound.retryFnDone (h : Sound s) (call : ℕ) (success : Bool) :
    Sound (DeadLetters.retryFnDone s call success).2 := by
  rw [DeadLetters.retryFnDone]
  split
  · exact h
  · next retry hretry =>
    have hdismiss := h.dismiss (List.eraseIdx_sublist s.retries call)
    cases success with
    | false => exact hdismiss
    | true =>
      have hnodup := (h.nodup retry.messages).eraseIdx retry.messageIndex
      have hmutate := hdismiss.mutate retry.messages hnodup fun message hmem =>
        h.created retry.messages message (List.mem_of_mem_eraseIdx hmem)
      refine ⟨hmutate.allocated, hmutate.separate, hmutate.read, hmutate.nodup, hmutate.created, ?_⟩
      intro queueName message hmem
      rcases List.mem_cons.mp hmem with heq | hmem
      · obtain ⟨-, rfl⟩ := Prod.mk.inj heq
        exact (h.read retry (List.mem_of_getElem? hretry)).2.1
      · exact h.succeeded queueName message hmem

theorem cleanupQueue_spec (now : ℤ) (acc : ℕ × Service D) (h : Sound acc.2) (queue : String) :
    Sound (cleanupQueue now acc queue).2 ∧ (cleanupQueue now acc queue).2.dlqConfigs =
      acc.2.dlqConfigs ∧
      (cleanupQueue now acc queue).2.succeeded = acc.2.succeeded ∧
      ∀ queueName message, message ∈ (cleanupQueue now acc queue).2.messages queueName ↔
        message ∈ acc.2.messages queueName ∧ (queueName = queue → ∀ config,
          acc.2.dlqConfigs.get queueName = some config → isRetained config now message = true) := by
  rw [cleanupQueue]
  split
  · next hconfig =>
    refine ⟨h, rfl, rfl, fun queueName message => (and_iff_left ?_).symm⟩
    rintro rfl config hsome
    exact absurd (hconfig.symm.trans hsome) (Option.some_ne_none _).symm
  · next config hconfig =>
    have hsublist : ((acc.2.messages queue).filter (isRetained config now)).Sublist
        (acc.2.messages queue) :=
      List.filter_sublist
    refine ⟨h.replace queue ((h.nodup_messages queue).sublist hsublist)
      fun message hmem => h.created_messages (hsublist.subset hmem), rfl, rfl,
        fun queueName message => ?_⟩
    rw [messages_replace h]
    split
    · next heq =>
      subst heq
      rw [List.mem_filter]
      refine and_congr_right fun _ => ⟨fun hretained _ other hother => ?_,
        fun hretained => hretained rfl config hconfig⟩
      rwa [← Option.some.inj (hconfig.symm.trans hother)]
    · next hne => exact (and_iff_left fun heq => absurd heq hne).symm

theorem foldl_cleanupQueue (now : ℤ) (queues : List String) (acc : ℕ × Service D)
    (h : Sound acc.2) :
    Sound (queues.foldl (cleanupQueue now) acc).2 ∧
      (queues.foldl (cleanupQueue now) acc).2.succeeded = acc.2.succeeded ∧
      ∀ queueName message, message ∈ (queues.foldl (cleanupQueue now) acc).2.messages queueName ↔
        message ∈ acc.2.messages queueName ∧ (queueName ∈ queues → ∀ config,
          acc.2.dlqConfigs.get queueName = some config → isRetained config now message = true) := by
  induction queues generalizing acc with
  | nil =>
    refine ⟨h, rfl, fun queueName message => (and_iff_left ?_).symm⟩
    exact fun hmem => absurd hmem List.not_mem_nil
  | cons queue queues ih =>
    obtain ⟨hsound, hconfigs, hsucceeded, hmem⟩ := cleanupQueue_spec now acc h queue
    obtain ⟨hsound', hsucceeded', hmem'⟩ := ih _ hsound
    refine ⟨hsound', hsucceeded'.trans hsucceeded, fun queueName message => ?_⟩
    rw [List.foldl_cons, hmem', hmem, hconfigs, List.mem_cons, and_assoc]
    refine and_congr_right fun _ => ⟨?_, fun hretained => ?_⟩
    · rintro ⟨hfirst, hrest⟩ (heq | hin)
      · exact hfirst heq
      · exact hrest hin
    · exact ⟨fun heq => hretained (.inl heq), fun hin => hretained (.inr hin)⟩

/-! ## Orderly steps -/

theorem Sound.step (h : Sound s) (step : DLQStep D) : Sound (step.after s) := by
  cases step with
  | sendToDLQ queueName jobId functionName data error attempts id failedAt =>
    exact h.sendToDLQ queueName jobId functionName data error attempts id failedAt
  | retryDLQMessage queueName messageId => exact h.retryDLQMessage queueName messageId
  | retryFnDone call success => exact h.retryFnDone call success
  | cleanupOldMessages queueName now => exact (foldl_cleanupQueue now _ (0, s) h).1
  | clearDLQ queueName =>
    exact h.replace queueName List.nodup_nil fun _ hmem => absurd hmem List.not_mem_nil

/-- Messages that are gone stay so, when the messages that come are new. -/
theorem Gone.of_new {s' : Service D} (hgone : Gone s) (h : Sound s)
    (hsucceeded : s'.succeeded = s.succeeded)
    (hmessages : ∀ queueName, ∀ message ∈ s'.messages queueName,
      message ∈ s.messages queueName ∨ message.object = s.objects) : Gone s' := by
  intro queueName message hmem hin
  rw [hsucceeded] at hmem
  rcases hmessages queueName message hin with hin | hnew
  · exact hgone queueName message hmem hin
  · exact Nat.ne_of_lt (h.succeeded queueName message hmem) hnew

/-- The end of a retry is orderly when it removes its message, and no other one. -/
theorem orderly_retryFnDone (h : Sound s) (hgone : Gone s) {call : ℕ} {retry : Retry D}
    (hretry : s.retries[call]? = some retry) :
    Orderly s (.retryFnDone call true) ↔
      retry.message ∉ (retryFnDone s call true).2.messages retry.queueName ∧
        ∀ message ∈ s.messages retry.queueName,
          message ∉ (retryFnDone s call true).2.messages retry.queueName →
          message = retry.message := by
  have hafter := messages_retryFnDone hretry
  have hsucceeded := succeeded_retryFnDone hretry
  have hqueue := (h.read retry (List.mem_of_getElem? hretry)).2.2
  -- the array that the retry read belongs to its own queue, or to none any more
  have hsame : ∀ queueName, queueName ≠ retry.queueName →
      (retryFnDone s call true).2.messages queueName = s.messages queueName := by
    intro queueName hne
    rw [hafter, if_neg fun hget => hne (hqueue queueName hget)]
  have hle : ∀ queueName, ∀ message ∈ (retryFnDone s call true).2.messages queueName,
      message ∈ s.messages queueName := by
    intro queueName message hin
    rw [hafter] at hin
    split at hin
    · next hget =>
      rw [messages_eq hget]
      exact List.mem_of_mem_eraseIdx hin
    · exact hin
  constructor
  · intro horderly
    refine ⟨horderly.gone retry.queueName retry.message ?_, fun message hin hout => ?_⟩
    · rw [DLQStep.after, hsucceeded]
      exact List.mem_cons_self
    · obtain ⟨-, retry', hretry', -, hmessage⟩ := horderly.leaves _ _ hin hout
      rw [Option.some.inj (hretry.symm.trans hretry')]
      exact hmessage.symm
  · rintro ⟨hnot, hothers⟩
    constructor
    · intro queueName message hin hout
      by_cases hne : queueName = retry.queueName
      · subst hne
        exact ⟨rfl, retry, hretry, rfl, (hothers message hin hout).symm⟩
      · rw [DLQStep.after, hsame queueName hne] at hout
        exact absurd hin hout
    · intro queueName message hmem
      rw [DLQStep.after, hsucceeded] at hmem
      rcases List.mem_cons.mp hmem with heq | hmem
      · obtain ⟨rfl, rfl⟩ := Prod.mk.inj heq
        exact hnot
      · exact fun hin => hgone queueName message hmem (hle queueName message hin)

/-- The end of a retry is orderly when the position is still good. -/
theorem orderly_retryFnDone_iff (h : Sound s) (hgone : Gone s) {call : ℕ} {retry : Retry D}
    (hretry : s.retries[call]? = some retry) : Orderly s (.retryFnDone call true) ↔
      InPlace s retry := by
  rw [orderly_retryFnDone h hgone hretry, messages_retryFnDone hretry, InPlace]
  split
  · next hcurrent =>
    rw [messages_eq hcurrent]
    exact eraseIdx_removes_iff (h.nodup retry.messages)
  · exact and_iff_left fun message hin hout => absurd hin hout

theorem orderly_of_messages_eq {step : DLQStep D} (h : Sound s) (hgone : Gone s)
    (hmessages : ∀ queueName, (step.after s).messages queueName = s.messages queueName)
    (hsucceeded : (step.after s).succeeded = s.succeeded) : Orderly s step where
  leaves := fun queueName _ hin hout => absurd hin (hmessages queueName ▸ hout)
  gone := hgone.of_new h hsucceeded fun queueName _ hin => .inl (hmessages queueName ▸ hin)

section Send

variable (queueName : String) (jobId : Option String) (functionName : String) (data : D)
    (error : JobError)
  (attempts : ℕ) (id : String) (failedAt : ℤ)

theorem orderly_sendToDLQ (h : Sound s) (hgone : Gone s) :
    Orderly s (.sendToDLQ queueName jobId functionName data error attempts id failedAt) := by
  have hmessages :=
    messages_sendToDLQ queueName jobId functionName data error attempts id failedAt h
  constructor
  · intro other message hin hout
    obtain ⟨added, -, hadded⟩ := hmessages other
    rw [DLQStep.after, hadded] at hout
    exact absurd (List.mem_append_left added hin) hout
  · refine hgone.of_new h
      (succeeded_sendToDLQ queueName jobId functionName data error attempts id failedAt) ?_
    intro other message hin
    obtain ⟨added, hnew, hadded⟩ := hmessages other
    rw [DLQStep.after, hadded] at hin
    exact (List.mem_append.mp hin).imp_right (hnew message)

end Send

theorem orderly_cleanupOldMessages (h : Sound s) (hgone : Gone s) (queueName : Option String)
    (now : ℤ) :
    Orderly s (.cleanupOldMessages queueName now) := by
  obtain ⟨-, hsucceeded, hmem⟩ := foldl_cleanupQueue now (cleanedQueues s queueName) (0, s) h
  constructor
  · -- a message that is retained, or whose queue is not cleaned, stays
    intro other message hin hout
    rw [DLQStep.after, cleanupOldMessages, hmem] at hout
    by_contra hnot
    refine hout ⟨hin, fun hcleaned config hconfig => ?_⟩
    by_contra hretained
    exact hnot ⟨hcleaned, config, hconfig, Bool.eq_false_iff.mpr hretained⟩
  · exact hgone.of_new h hsucceeded fun other message hin => .inl ((hmem other message).mp hin).1

theorem orderly_clearDLQ (h : Sound s) (hgone : Gone s) (queueName : String) :
    Orderly s (.clearDLQ queueName) := by
  have hafter : ∀ other, (DLQStep.after s (.clearDLQ queueName)).messages other =
      if other = queueName then [] else s.messages other :=
    fun other => messages_replace h queueName other []
  constructor
  · intro other message hin hout
    rw [hafter] at hout
    split at hout
    · next heq => exact heq.symm
    · exact absurd hin hout
  · refine hgone.of_new h rfl fun other message hin => ?_
    rw [hafter] at hin
    split at hin
    · cases hin
    · exact .inl hin

/-- **The steps that are orderly**: those that disturb no retry. -/
theorem orderly_iff (h : Sound s) (hgone : Gone s) (step : DLQStep D) : Orderly s step ↔
    Undisturbed s step := by
  cases step with
  | sendToDLQ queueName jobId functionName data error attempts id failedAt =>
    exact iff_of_true
      (orderly_sendToDLQ queueName jobId functionName data error attempts id failedAt h
        hgone) trivial
  | retryDLQMessage queueName messageId =>
    exact iff_of_true (orderly_of_messages_eq h hgone (messages_retryDLQMessage queueName messageId)
      (succeeded_retryDLQMessage queueName messageId)) trivial
  | retryFnDone call success =>
    cases success with
    | false =>
      refine iff_of_true ?_ fun hsuccess => absurd hsuccess Bool.false_ne_true
      exact orderly_of_messages_eq h hgone (messages_retryFnDone_false call)
        (succeeded_retryFnDone_false call)
    | true =>
      cases hretry : s.retries[call]? with
      | none =>
        have hafter : DLQStep.after s (.retryFnDone call true) = s := by
          rw [DLQStep.after, retryFnDone, hretry]
        refine iff_of_true (orderly_of_messages_eq h hgone ?_ ?_) fun _ retry hsome => ?_
        · exact fun queueName => congrArg (fun s : Service D => s.messages queueName) hafter
        · exact congrArg Service.succeeded hafter
        · exact absurd (hretry.symm.trans hsome) (Option.some_ne_none _).symm
      | some retry =>
        rw [orderly_retryFnDone_iff h hgone hretry]
        constructor
        · intro hplace _ retry' hretry'
          rwa [← Option.some.inj (hretry.symm.trans hretry')]
        · exact fun hundisturbed => hundisturbed rfl retry hretry
  | cleanupOldMessages queueName now =>
    exact iff_of_true (orderly_cleanupOldMessages h hgone queueName now) trivial
  | clearDLQ queueName => exact iff_of_true (orderly_clearDLQ h hgone queueName) trivial

/-- **The runs that are orderly**: those in which no retry is disturbed. -/
theorem run_orderly_iff (queues : List (String × DLQConfig)) (steps : List (DLQStep D)) :
    Along DLQStep.after Orderly (registered queues) steps ↔
      Along DLQStep.after Undisturbed (registered queues) steps := by
  obtain ⟨hsound, hsucceeded⟩ := registered_spec (D := D) queues
  have hgone : Gone (registered queues : Service D) := by
    intro queueName message hmem
    rw [hsucceeded] at hmem
    cases hmem
  refine along_iff_along (I := fun s => Sound s ∧ Gone s)
    (fun s step h => orderly_iff h.1 h.2 step) ?_ ⟨hsound, hgone⟩
  rintro s step ⟨h, hgone⟩ hundisturbed
  exact ⟨h.step step, ((orderly_iff h hgone step).mpr hundisturbed).gone⟩

/-- **Two retries at once**: the second one removes a third message, which was never retried. -/
theorem third_message_lost :
    ¬ Along DLQStep.after Orderly (registered [("orders", ⟨3, .num 30⟩)] : Service ℕ)
      [.sendToDLQ "orders" none "place" 1 ⟨none, "timeout"⟩ 3 "a" 0,
        .sendToDLQ "orders" none "place" 2 ⟨none, "timeout"⟩ 3 "b" 0,
        .sendToDLQ "orders" none "place" 3 ⟨none, "timeout"⟩ 3 "c" 0,
        .retryDLQMessage "orders" "a", .retryDLQMessage "orders" "b", .retryFnDone 0 true,
          .retryFnDone 0 true] := by
  rintro ⟨-, -, -, -, -, -, hlast, -⟩
  have hleaves :=
    hlast.leaves "orders" ⟨2, "c", none, "orders", "place", 3,
      ⟨"UNKNOWN_ERROR", "timeout"⟩, 3, 3, 0⟩
    (by decide) (by decide)
  obtain ⟨-, retry, hretry, -, hmessage⟩ := hleaves
  obtain rfl := Option.some.inj hretry
  exact absurd hmessage (by decide)

end DeadLetters
