import PeerX.Foundations.Runs
import PeerX.Foundations.StableQueue
import Mathlib.Data.Int.Notation
import Mathlib.Data.List.InsertIdx
import Mathlib.Data.Nat.Basic

/-!
# WebSocket: the queue of messages

Messages wait in the order of their priority, are emitted in batches, and are put back a while after
an emit that fails. When the queue is full, its messages of low priority are dropped for a new one;
when there are none, or when a message is put back, the queue grows past its bound.

Each message carries what the code does not store: its number among the messages ever queued, how
many messages were inserted before it, and how many times it was emitted.

## Main results

* `kept_step`: what each call keeps
* `sound_step_iff`: the bound is kept by the calls that find room
* `sound_throughout_iff`: the runs in which it is kept
-/

namespace WebSocketQueue

open Concurrency StableQueue

/-! ## The service -/

inductive Priority where
  | high
  | medium
  | low
  deriving DecidableEq

def priorityOrder : Priority → ℕ
  | .high => 0
  | .medium => 1
  | .low => 2

structure QueuedMessage (δ : Type) where
  id : String
  room : String
  event : String
  data : δ
  priority : Priority
  timestamp : ℤ
  retryCount : ℕ
  maxRetries : ℕ

/-- A message with its history. -/
structure Entry (δ : Type) where
  message : QueuedMessage δ
  number : ℕ
  inserted : ℕ
  attempts : ℕ

/-- `QueueStats`, without the average time. -/
structure QueueStats where
  totalMessages : ℕ
  processedMessages : ℕ
  failedMessages : ℕ
  queueSize : ℕ
  messagesByPriority : Priority → ℕ

/-- How a message has left the service. -/
inductive Ending where
  | processed
  | failed
  | dropped
  | removed (room : String)

/-- `MessageQueueService`, the messages whose timer runs, how many messages were queued, and how the
others have left. -/
structure MessageQueueService (δ : Type) where
  messageQueue : List (Entry δ)
  stats : QueueStats
  waiting : List (Entry δ)
  queued : ℕ
  gone : List (Ending × Entry δ)

def maxQueueSize : ℕ := 10000

def batchSize : ℕ := 100

variable {δ : Type}

namespace MessageQueueService

/-- A new service. -/
def new : MessageQueueService δ := ⟨[], ⟨0, 0, 0, 0, fun _ => 0⟩, [], 0, []⟩

def updateStats (s : MessageQueueService δ) : MessageQueueService δ :=
  { s with stats := { s.stats with
      queueSize := s.messageQueue.length
      messagesByPriority := fun priority => s.messageQueue.countP fun entry =>
        entry.message.priority = priority } }

def insertMessageByPriority (s : MessageQueueService δ) (entry : Entry δ) : MessageQueueService δ :=
  { s with
    messageQueue := enqueue (fun entry => priorityOrder entry.message.priority)
      { entry with inserted := s.stats.totalMessages } s.messageQueue
    stats := { s.stats with totalMessages := s.stats.totalMessages + 1 } }

/-- Messages leave the queue. -/
def expel (s : MessageQueueService δ) (leaves : Entry δ → Bool) (ending : Ending) :
    MessageQueueService δ :=
  { s with
    messageQueue := s.messageQueue.filter fun entry => !leaves entry
    gone := s.gone ++ (s.messageQueue.filter leaves).map fun entry => (ending, entry) }

def dropLowPriorityMessages (s : MessageQueueService δ) : MessageQueueService δ :=
  let dropped := s.expel (fun entry => entry.message.priority = .low) .dropped
  { dropped with stats := { s.stats with
      failedMessages :=
        s.stats.failedMessages + (s.messageQueue.filter fun entry => entry.message.priority =
          .low).length } }

/-- `queueMessage`. The id is a new one. -/
def queueMessage (s : MessageQueueService δ) (id room event : String) (data : δ)
    (priority : Priority) (timestamp : ℤ) :
    String × MessageQueueService δ :=
  let free := if maxQueueSize ≤ s.messageQueue.length then s.dropLowPriorityMessages else s
  let message := ⟨id, room, event, data, priority, timestamp, 0, if priority = .high then 3 else 2⟩
  (id, (insertMessageByPriority { free with queued := s.queued + 1 }
    ⟨message, s.queued, 0, 0⟩).updateStats)

/-- `processMessage`. The emit succeeds or throws. -/
def processMessage (s : MessageQueueService δ) (entry : Entry δ) (succeeds : Bool) :
    MessageQueueService δ :=
  let tried := { entry with attempts := entry.attempts + 1 }
  if succeeds then
    { s with
      stats := { s.stats with processedMessages := s.stats.processedMessages + 1 }
      gone := s.gone ++ [(.processed, tried)] }
  else
    let again := { tried with
      message := { entry.message with retryCount := entry.message.retryCount + 1 } }
    if again.message.retryCount < again.message.maxRetries
      then { s with waiting := s.waiting ++ [again] }
    else
      { s with
        stats := { s.stats with failedMessages := s.stats.failedMessages + 1 }
        gone := s.gone ++ [(.failed, again)] }

/-- `processBatch`. The messages are emitted one after the other, so that none of them is in
`processing` before. -/
def processBatch (s : MessageQueueService δ) (succeeds : Entry δ → Bool) : MessageQueueService δ :=
  (s.messageQueue.take batchSize).foldl (fun s entry => s.processMessage entry (succeeds entry))
    { s with messageQueue := s.messageQueue.drop batchSize }

/-- The timer of a message that waits has run out. -/
def retry (s : MessageQueueService δ) (i : ℕ) : MessageQueueService δ :=
  match s.waiting[i]? with
  | none => s
  | some entry => insertMessageByPriority { s with waiting := s.waiting.eraseIdx i } entry

def removeMessagesForRoom (s : MessageQueueService δ) (room : String) : ℕ × MessageQueueService δ :=
  let removed := s.expel (fun entry => entry.message.room = room) (.removed room)
  (s.messageQueue.length - removed.messageQueue.length, removed)

end MessageQueueService

/-- A call, or a timer that runs out. -/
inductive QueueCall (δ : Type) where
  | queueMessage (id room event : String) (data : δ) (priority : Priority) (timestamp : ℤ)
  | processBatch (succeeds : Entry δ → Bool)
  | retry (i : ℕ)
  | removeMessagesForRoom (room : String)

/-- One call. -/
def step (s : MessageQueueService δ) : QueueCall δ → MessageQueueService δ
  | .queueMessage id room event data priority timestamp =>
  (s.queueMessage id room event data priority timestamp).2
  | .processBatch succeeds => s.processBatch succeeds
  | .retry i => s.retry i
  | .removeMessagesForRoom room => (s.removeMessagesForRoom room).2

/-! ## What the queue promises -/

/-- The queue is in the order of the priorities, and of the insertions. -/
def InOrder (s : MessageQueueService δ) : Prop :=
  Ordered (fun entry : Entry δ => priorityOrder entry.message.priority) Entry.inserted
    s.messageQueue

def isProcessed : Ending → Bool
  | .processed => true
  | _ => false

/-- The message counts as failed. -/
def isFailed : Ending → Bool
  | .failed => true
  | .dropped => true
  | _ => false

def isRemoved : Ending → Bool
  | .removed _ => true
  | _ => false

/-- How many messages are gone with a room. -/
def removedByRoom (s : MessageQueueService δ) : ℕ := s.gone.countP fun left => isRemoved left.1

/-- Order, bound, attempts and accounting. -/
structure Sound (s : MessageQueueService δ) : Prop where
  inOrder : InOrder s
  bounded : s.messageQueue.length ≤ maxQueueSize
  attempted : ∀ left ∈ s.gone, isFailed left.1 → left.2.message.priority ≠ .low →
    left.2.message.maxRetries ≤ left.2.attempts
  accounted : s.stats.processedMessages + s.stats.failedMessages + s.messageQueue.length +
    s.waiting.length +
    removedByRoom s = s.queued

/-- A call that finds room: the queue is not full, or has a message to drop for a new one. -/
def Fits (s : MessageQueueService δ) : QueueCall δ → Prop
  | .queueMessage .. => s.messageQueue.length < maxQueueSize ∨ ∃ entry ∈ s.messageQueue,
    entry.message.priority = .low
  | .retry i => i < s.waiting.length → s.messageQueue.length < maxQueueSize
  | _ => True

/-! ## What every call keeps -/

/-- The message had a reason to leave. -/
def Justified : Ending → Entry δ → Prop
  | .processed, _ => True
  | .failed, entry => entry.attempts = entry.message.maxRetries
  | .dropped, entry => entry.message.priority = .low
  | .removed room, entry => entry.message.room = room

/-- What every call keeps, while the messages of `inFlight` are neither queued nor waiting nor
gone. -/
structure Kept (s : MessageQueueService δ) (inFlight : List (Entry δ)) : Prop where
  inOrder : InOrder s
  stamped : ∀ entry ∈ s.messageQueue, entry.inserted < s.stats.totalMessages
  tried : ∀ entry, entry ∈ s.messageQueue ∨ entry ∈ s.waiting ∨ entry ∈ inFlight →
    entry.attempts = entry.message.retryCount ∧ entry.message.retryCount < entry.message.maxRetries
  justified : ∀ left ∈ s.gone, Justified left.1 left.2
  conserved : ∀ p : ℕ → Bool, s.messageQueue.countP (fun entry => p entry.number) +
    s.waiting.countP (fun entry => p entry.number) + inFlight.countP (fun entry => p entry.number) +
      s.gone.countP (fun left => p left.2.number) = (List.range s.queued).countP p
  processed : s.stats.processedMessages = s.gone.countP fun left => isProcessed left.1
  failed : s.stats.failedMessages = s.gone.countP fun left => isFailed left.1

variable {s : MessageQueueService δ} {entry : Entry δ} {inFlight : List (Entry δ)}
    {leaves : Entry δ → Bool}
  {ending : Ending} {stats : QueueStats}

theorem countP_gone (p : Ending → Bool) (gone : List (Ending × Entry δ)) (left : List (Entry δ)) :
    (gone ++ left.map fun entry => (ending, entry)).countP (fun left => p left.1) =
      gone.countP (fun left => p left.1) + if p ending then left.length else 0 := by
  rw [List.countP_append, List.countP_map]
  congr 1
  cases hp : p ending <;> simp [Function.comp_def, hp]

theorem mem_insertMessageByPriority {other : Entry δ} :
    other ∈ (s.insertMessageByPriority entry).messageQueue ↔
    other = { entry with inserted := s.stats.totalMessages } ∨ other ∈ s.messageQueue := by
  simp only [MessageQueueService.insertMessageByPriority, mem_enqueue]

/-- A message in flight is inserted. -/
theorem Kept.insertMessageByPriority (h : Kept s (entry :: inFlight)) :
    Kept (s.insertMessageByPriority entry) inFlight where
  inOrder := h.inOrder.enqueue h.stamped
  stamped other hother := by
    rcases mem_insertMessageByPriority.mp hother with rfl | hother
    · exact Nat.lt_succ_self _
    · exact (h.stamped other hother).trans (Nat.lt_succ_self _)
  tried other hother := by
    rcases hother with hqueued | hothers
    · rcases mem_insertMessageByPriority.mp hqueued with rfl | hqueued
      · exact h.tried entry (.inr (.inr List.mem_cons_self))
      · exact h.tried other (.inl hqueued)
    · exact h.tried other (.inr (hothers.imp_right (List.mem_cons_of_mem entry)))
  justified := h.justified
  conserved p := by
    -- the message moves from what is in flight to the queue
    have hbefore := h.conserved p
    rw [List.countP_cons] at hbefore
    rw [MessageQueueService.insertMessageByPriority, perm_enqueue.countP_eq, List.countP_cons]
    dsimp only
    omega
  processed := h.processed
  failed := h.failed

/-- Messages leave the queue for one reason. -/
theorem Kept.expel (h : Kept s inFlight) (hleaves : ∀ entry, leaves entry → Justified ending entry)
    (htotal : stats.totalMessages = s.stats.totalMessages)
    (hprocessed : stats.processedMessages = s.stats.processedMessages +
      if isProcessed ending then (s.messageQueue.filter leaves).length else 0)
    (hfailed : stats.failedMessages = s.stats.failedMessages +
      if isFailed ending then (s.messageQueue.filter leaves).length else 0) :
    Kept { s.expel leaves ending with stats := stats } inFlight where
  inOrder := h.inOrder.sublist List.filter_sublist
  stamped other hother := htotal ▸ h.stamped other (List.mem_of_mem_filter hother)
  tried other hother := h.tried other (hother.imp_left List.mem_of_mem_filter)
  justified left hleft := by
    rcases List.mem_append.mp hleft with hbefore | hnew
    · exact h.justified left hbefore
    · obtain ⟨other, hother, rfl⟩ := List.mem_map.mp hnew
      exact hleaves other (List.of_mem_filter hother)
  conserved p := by
    -- the queue splits into those that leave and those that stay
    have hbefore := h.conserved p
    rw [List.countP_eq_countP_filter_add s.messageQueue _ leaves] at hbefore
    rw [MessageQueueService.expel, List.countP_append, List.countP_map]
    dsimp only [Function.comp_def]
    omega
  processed := by
    rw [hprocessed, h.processed]
    exact (countP_gone isProcessed s.gone _).symm
  failed := by
    rw [hfailed, h.failed]
    exact (countP_gone isFailed s.gone _).symm

/-- A message in flight is emitted. -/
theorem Kept.processMessage (h : Kept s (entry :: inFlight)) (succeeds : Bool) :
    Kept (s.processMessage entry succeeds) inFlight := by
  obtain ⟨hattempts, hretries⟩ := h.tried entry (.inr (.inr List.mem_cons_self))
  have htried : ∀ other, other ∈ s.messageQueue ∨ other ∈ s.waiting ∨ other ∈ inFlight →
      other.attempts = other.message.retryCount ∧
        other.message.retryCount < other.message.maxRetries :=
    fun other hother =>
      h.tried other (hother.imp_right fun hothers => hothers.imp_right (List.mem_cons_of_mem entry))
  rw [MessageQueueService.processMessage]
  cases succeeds with
  | true =>
    -- the message is gone, and counts as processed
    refine ⟨h.inOrder, h.stamped, htried, ?_, fun p => ?_, ?_, ?_⟩
    · intro left hleft
      rcases List.mem_append.mp hleft with hbefore | hnew
      · exact h.justified left hbefore
      · obtain rfl := List.mem_singleton.mp hnew
        trivial
    · have hbefore := h.conserved p
      rw [List.countP_cons] at hbefore
      simp only [if_true, List.countP_append, List.countP_singleton]
      omega
    · simp [h.processed, isProcessed]
    · simp [h.failed, isFailed]
  | false =>
    rw [if_neg Bool.false_ne_true]
    dsimp only
    split
    next hagain =>
      -- it waits for its timer, with one emit more behind it
      refine ⟨h.inOrder, h.stamped, fun other hother => ?_, h.justified, fun p => ?_,
        h.processed, h.failed⟩
      · rcases hother with hqueued | hwaiting | hflight
        · exact htried other (.inl hqueued)
        · rcases List.mem_append.mp hwaiting with hwaiting | hnew
          · exact htried other (.inr (.inl hwaiting))
          · obtain rfl := List.mem_singleton.mp hnew
            exact ⟨congrArg (· + 1) hattempts, hagain⟩
        · exact htried other (.inr (.inr hflight))
      · have hbefore := h.conserved p
        rw [List.countP_cons] at hbefore
        simp only [List.countP_append, List.countP_singleton]
        omega
    next hlast =>
      -- it is gone, and counts as failed
      refine ⟨h.inOrder, h.stamped, htried, ?_, fun p => ?_, ?_, ?_⟩
      · intro left hleft
        rcases List.mem_append.mp hleft with hbefore | hnew
        · exact h.justified left hbefore
        · -- the message was to be retried before this emit, and is not any more
          obtain rfl := List.mem_singleton.mp hnew
          simp only [Justified]
          omega
      · have hbefore := h.conserved p
        rw [List.countP_cons] at hbefore
        simp only [List.countP_append, List.countP_singleton]
        omega
      · simp [h.processed, isProcessed]
      · simp [h.failed, isFailed]

/-- The messages of a batch are emitted, one after the other. -/
theorem Kept.processBatch (h : Kept s []) (succeeds : Entry δ → Bool) :
    Kept (s.processBatch succeeds) [] := by
  -- the batch leaves the queue at once, and is in flight until its last message was emitted
  have hstart : Kept { s with messageQueue := s.messageQueue.drop batchSize }
      (s.messageQueue.take batchSize) := by
    refine ⟨h.inOrder.sublist (List.drop_sublist _ _),
      fun other hother => h.stamped other (List.mem_of_mem_drop hother),
      fun other hother => h.tried other ?_, h.justified, fun p => ?_, h.processed, h.failed⟩
    · rcases hother with hqueued | hwaiting | hflight
      · exact .inl (List.mem_of_mem_drop hqueued)
      · exact .inr (.inl hwaiting)
      · exact .inl (List.mem_of_mem_take hflight)
    · have hbefore := h.conserved p
      rw [← List.take_append_drop batchSize s.messageQueue, List.countP_append,
        List.countP_nil] at hbefore
      dsimp only
      omega
  have hfold : ∀ (batch : List (Entry δ)) (s : MessageQueueService δ), Kept s batch →
      Kept (batch.foldl (fun s entry => s.processMessage entry (succeeds entry)) s) [] := by
    intro batch
    induction batch with
    | nil => exact fun s hs => hs
    | cons entry batch ih => exact fun s hs => ih _ (hs.processMessage (succeeds entry))
  exact hfold _ _ hstart

theorem countP_eraseIdx {α : Type} {l : List α} {i : ℕ} {a : α} {p : α → Bool}
    (hi : l[i]? = some a) :
    l.countP p = (l.eraseIdx i).countP p + if p a then 1 else 0 := by
  obtain ⟨hlt, rfl⟩ := List.getElem?_eq_some_iff.mp hi
  have hle : i ≤ (l.eraseIdx i).length := by
    rw [List.length_eraseIdx_of_lt hlt]
    omega
  rw [← List.countP_cons, ← (List.perm_insertIdx l[i] _ hle).countP_eq,
    List.insertIdx_eraseIdx_getElem hlt]

/-- A message that waits is put back. -/
theorem Kept.retry (h : Kept s []) (i : ℕ) : Kept (s.retry i) [] := by
  rw [MessageQueueService.retry]
  split
  · exact h
  next entry hi =>
    refine Kept.insertMessageByPriority ⟨h.inOrder, h.stamped,
      fun other hother => h.tried other ?_, h.justified,
      fun p => ?_, h.processed, h.failed⟩
    · rcases hother with hqueued | hwaiting | hflight
      · exact .inl hqueued
      · exact .inr (.inl (List.mem_of_mem_eraseIdx hwaiting))
      · obtain rfl := List.mem_singleton.mp hflight
        exact .inr (.inl (List.mem_of_getElem? hi))
    · have hbefore := h.conserved p
      rw [countP_eraseIdx hi, List.countP_nil] at hbefore
      rw [List.countP_singleton]
      dsimp only
      omega

theorem Kept.dropLowPriorityMessages (h : Kept s []) : Kept s.dropLowPriorityMessages [] :=
  h.expel (fun _ hlow => by simpa [Justified] using hlow) rfl rfl rfl

/-- A message is queued. -/
theorem Kept.queueMessage (h : Kept s []) (id room event : String) (data : δ) (priority : Priority)
    (timestamp : ℤ) :
    Kept (s.queueMessage id room event data priority timestamp).2 [] := by
  -- a full queue drops its messages of low priority first
  have hfree : Kept (if maxQueueSize ≤ s.messageQueue.length
    then s.dropLowPriorityMessages else s) [] ∧
      (if maxQueueSize ≤ s.messageQueue.length then s.dropLowPriorityMessages else s).queued =
        s.queued := by
    split
    · exact ⟨h.dropLowPriorityMessages, rfl⟩
    · exact ⟨h, rfl⟩
  rw [MessageQueueService.queueMessage]
  generalize (if maxQueueSize ≤ s.messageQueue.length then s.dropLowPriorityMessages
    else s) = free at hfree
  obtain ⟨hkept, hqueued⟩ := hfree
  have hinserted : Kept (MessageQueueService.insertMessageByPriority
    { free with queued := s.queued + 1 }
      ⟨⟨id, room, event, data, priority, timestamp, 0, if priority = .high then 3 else 2⟩, s.queued,
        0, 0⟩) [] := by
    refine Kept.insertMessageByPriority ⟨hkept.inOrder, hkept.stamped, fun other hother => ?_,
      hkept.justified,
      fun p => ?_, hkept.processed, hkept.failed⟩
    · rcases hother with hqueued | hwaiting | hflight
      · exact hkept.tried other (.inl hqueued)
      · exact hkept.tried other (.inr (.inl hwaiting))
      · obtain rfl := List.mem_singleton.mp hflight
        refine ⟨rfl, ?_⟩
        dsimp only
        split <;> omega
    · -- the new message has the next number
      have hbefore := hkept.conserved p
      rw [hqueued, List.countP_nil] at hbefore
      rw [List.range_succ, List.countP_append, List.countP_singleton, List.countP_singleton]
      dsimp only
      omega
  exact ⟨hinserted.inOrder, hinserted.stamped, hinserted.tried, hinserted.justified,
    hinserted.conserved,
    hinserted.processed, hinserted.failed⟩

/-- **What every call keeps.** -/
theorem kept_step (s : MessageQueueService δ) (call : QueueCall δ) (h : Kept s []) :
    Kept (step s call) [] := by
  cases call with
  | queueMessage id room event data priority timestamp =>
    exact h.queueMessage id room event data priority timestamp
  | processBatch succeeds => exact h.processBatch succeeds
  | retry i => exact h.retry i
  | removeMessagesForRoom room =>
    exact h.expel (fun _ hroom => by simpa [Justified] using hroom) rfl rfl rfl

theorem Kept.new : Kept (MessageQueueService.new (δ := δ)) [] where
  inOrder := List.Pairwise.nil
  stamped entry hentry := by cases hentry
  tried entry hentry := by rcases hentry with h | h | h <;> cases h
  justified left hleft := by cases hleft
  conserved p := rfl
  processed := rfl
  failed := rfl

/-! ## Order, bound, attempts and accounting -/

theorem length_gone (gone : List (Ending × Entry δ)) :
    gone.length = gone.countP (fun left => isProcessed left.1) +
    gone.countP (fun left => isFailed left.1) + gone.countP fun left => isRemoved left.1 := by
  induction gone with
  | nil => rfl
  | cons left gone ih =>
    obtain ⟨ending, entry⟩ := left
    rw [List.length_cons, List.countP_cons, List.countP_cons, List.countP_cons, ih]
    cases ending <;> simp [isProcessed, isFailed, isRemoved] <;> omega

/-- All but the bound holds after every call. -/
theorem Kept.sound_iff (h : Kept s []) : Sound s ↔ s.messageQueue.length ≤ maxQueueSize := by
  refine ⟨Sound.bounded, fun hbounded => ⟨h.inOrder, hbounded,
    fun left hleft hfailed hpriority => ?_, ?_⟩⟩
  · obtain ⟨ending, entry⟩ := left
    have hjustified := h.justified _ hleft
    cases ending with
    | failed => exact hjustified.ge
    | dropped => exact absurd hjustified hpriority
    | processed => cases hfailed
    | removed room => cases hfailed
  · -- every number that was ever given is one of a message that is queued, waits, or is gone
    have hall := h.conserved fun _ => true
    simp only [List.countP_true, List.countP_nil, List.length_range] at hall
    have hgone := length_gone s.gone
    rw [← h.processed, ← h.failed] at hgone
    rw [removedByRoom]
    omega

@[simp] theorem messageQueue_processMessage (succeeds : Bool) :
    (s.processMessage entry succeeds).messageQueue = s.messageQueue := by
  rw [MessageQueueService.processMessage]
  cases succeeds with
  | true => rfl
  | false =>
    rw [if_neg Bool.false_ne_true]
    dsimp only
    split <;> rfl

theorem messageQueue_processBatch (s : MessageQueueService δ) (succeeds : Entry δ → Bool) :
    (s.processBatch succeeds).messageQueue = s.messageQueue.drop batchSize := by
  have hfold : ∀ (batch : List (Entry δ)) (s : MessageQueueService δ),
      (batch.foldl (fun s entry => s.processMessage entry (succeeds entry)) s).messageQueue =
        s.messageQueue := by
    intro batch
    induction batch with
    | nil => exact fun s => rfl
    | cons entry batch ih => exact fun s => (ih _).trans (messageQueue_processMessage _)
  exact hfold _ _

@[simp] theorem length_insertMessageByPriority :
    (s.insertMessageByPriority entry).messageQueue.length = s.messageQueue.length + 1 := by
  simp only [MessageQueueService.insertMessageByPriority, length_enqueue]

/-- A message that is queued finds room when the queue is not full, or has one to drop. -/
theorem bounded_queueMessage_iff (hbounded : s.messageQueue.length ≤ maxQueueSize)
    (id room event : String) (data : δ) (priority : Priority) (timestamp : ℤ) :
    (s.queueMessage id room event data priority timestamp).2.messageQueue.length ≤ maxQueueSize ↔
      s.messageQueue.length < maxQueueSize ∨ ∃ entry ∈ s.messageQueue,
        entry.message.priority = .low := by
  have hlength : (s.queueMessage id room event data priority timestamp).2.messageQueue.length =
      (if maxQueueSize ≤ s.messageQueue.length then s.dropLowPriorityMessages
        else s).messageQueue.length + 1 :=
    length_insertMessageByPriority
  rw [hlength, Nat.add_one_le_iff]
  split
  next hfull =>
    -- at the bound, what is left is shorter exactly when something was dropped
    have hkept := List.length_filter_lt_length_iff_exists (l := s.messageQueue)
      (p := fun entry => !decide (entry.message.priority = .low))
    rw [or_iff_right (not_lt.mpr hfull), ← hbounded.antisymm hfull]
    exact hkept.trans (by simp)
  next hfree => exact iff_of_true (not_le.mp hfree) (.inl (not_le.mp hfree))

/-- **The bound is kept by the calls that find room.** -/
theorem sound_step_iff (h : Kept s []) (hs : Sound s) (call : QueueCall δ) : Sound (step s call) ↔
    Fits s call := by
  rw [(kept_step s call h).sound_iff]
  cases call with
  | queueMessage id room event data priority timestamp =>
    exact bounded_queueMessage_iff hs.bounded ..
  | processBatch succeeds =>
    refine iff_of_true ?_ trivial
    rw [step, messageQueue_processBatch]
    exact (List.drop_sublist _ _).length_le.trans hs.bounded
  | retry i =>
    rw [step, MessageQueueService.retry, Fits]
    cases hi : s.waiting[i]? with
    | none =>
      exact iff_of_true hs.bounded fun hlt => absurd hlt
        (not_lt.mpr (List.getElem?_eq_none_iff.mp hi))
    | some entry =>
      obtain ⟨hlt, -⟩ := List.getElem?_eq_some_iff.mp hi
      rw [forall_prop_of_true hlt]
      dsimp only
      rw [length_insertMessageByPriority, Nat.add_one_le_iff]
  | removeMessagesForRoom room =>
    exact iff_of_true ((List.length_filter_le _ _).trans hs.bounded) trivial

/-- **The queue is sound throughout a run** exactly when each of its calls finds room. -/
theorem sound_throughout_iff (calls : List (QueueCall δ)) :
    Throughout step Sound .new calls ↔ Along step Fits .new calls :=
  throughout_iff_along (I := fun s => Kept s []) kept_step
    (fun _ call h hs => sound_step_iff h hs call) Kept.new
    (Kept.new.sound_iff.mpr (Nat.zero_le _))

/-! ### A full queue -/

/-- Only messages of high priority are queued. -/
def AllHigh (s : MessageQueueService δ) : Prop :=
  ∀ entry ∈ s.messageQueue, entry.message.priority = .high

/-- A message of high priority joins the others, however many they are. -/
theorem AllHigh.queueMessage (h : AllHigh s) (id room event : String) (data : δ) (timestamp : ℤ) :
    AllHigh (s.queueMessage id room event data .high timestamp).2 ∧
      (s.queueMessage id room event data .high timestamp).2.messageQueue.length =
        s.messageQueue.length + 1 := by
  have hfree : (if maxQueueSize ≤ s.messageQueue.length then s.dropLowPriorityMessages
    else s).messageQueue =
      s.messageQueue := by
    split
    · refine List.filter_eq_self.mpr fun entry hentry => ?_
      simp [h entry hentry]
    · rfl
  constructor
  · intro entry hentry
    rcases mem_insertMessageByPriority.mp hentry with rfl | hbefore
    · rfl
    · exact h entry (hfree ▸ hbefore)
  · exact length_insertMessageByPriority.trans (congrArg (fun queue => queue.length + 1) hfree)

/-- The call that queues a message of high priority. -/
def high : QueueCall Unit := .queueMessage "msg" "room" "event" () .high 0

/-- The queue grows with every message of high priority. -/
theorem length_run_high {s : MessageQueueService Unit} (h : AllHigh s) (n : ℕ) :
    (run step s (List.replicate n high)).messageQueue.length = s.messageQueue.length + n := by
  induction n generalizing s with
  | zero => rfl
  | succ n ih =>
    obtain ⟨hhigh, hlength⟩ := h.queueMessage "msg" "room" "event" () 0
    rw [List.replicate_succ, run_cons]
    refine (ih hhigh).trans ?_
    rw [hlength]
    omega

/-- **The queue grows past its bound**: one message more than it holds, all of high priority. -/
theorem high_messages_overflow : ¬ Throughout step Sound .new (List.replicate 10001 high) := by
  intro h
  have hbounded := h.last.bounded
  rw [length_run_high (fun entry hentry => by cases hentry) 10001, maxQueueSize] at hbounded
  exact absurd hbounded (by decide)

end WebSocketQueue
