import PeerX.Foundations.JsMap
import PeerX.Foundations.Runs

/-!
# Queue: message ordering

The ordering service keeps a partition for each pair of a queue name and a partition key: the
messages in the order of their sequence numbers, and a flag for a partition that is being processed.
The next sequence number of a partition is in a second map. Both maps are under the partition id,
the two names with a colon between them.
-/

namespace Queue

open Concurrency Relational

variable {α : Type}

/-! ## The state -/

/-- A queue name and a partition key. -/
structure PartitionName where
  queueName : String
  partitionKey : String
deriving DecidableEq

def PartitionName.getPartitionId (name : PartitionName) : String := s!"{name.queueName}:{name.partitionKey}"

/-- A message of a partition. The time at which it was added is not read. -/
structure OrderedMessage (α : Type) where
  messageId : String
  data : α
  sequenceNumber : ℕ
deriving DecidableEq

structure MessageOrderingPartition (α : Type) where
  partitionKey : String
  queueName : String
  messages : List (OrderedMessage α)
  isProcessing : Bool
deriving DecidableEq

structure MessageOrderingService (α : Type) where
  /-- `config.ordering.enabled`. -/
  orderingEnabled : Bool
  partitions : JsMap String (MessageOrderingPartition α)
  sequenceNumbers : JsMap String ℕ

namespace MessageOrderingService

/-- The service with `DEFAULT_HORIZONTAL_SCALING_CONFIG`. -/
def initial : MessageOrderingService α where
  orderingEnabled := true
  partitions := JsMap.new
  sequenceNumbers := JsMap.new

/-- The number that was given last, as `incrementSequence` reads it. -/
def counter (service : MessageOrderingService α) (partitionId : String) : ℕ :=
  (service.sequenceNumbers.get partitionId).getD 0

/-! ## The operations -/

def incrementSequence (service : MessageOrderingService α) (partitionId : String) : ℕ × MessageOrderingService α :=
  let next := service.counter partitionId + 1
  (next, { service with sequenceNumbers := service.sequenceNumbers.set partitionId next })

/-- The partition is created when it does not exist, and its counter starts. -/
def createPartition (service : MessageOrderingService α) (name : PartitionName) : MessageOrderingService α :=
  if service.partitions.has name.getPartitionId then service
  else
    { service with
      partitions := service.partitions.set name.getPartitionId
        { partitionKey := name.partitionKey, queueName := name.queueName, messages := [], isProcessing := false }
      sequenceNumbers := service.sequenceNumbers.set name.getPartitionId 0 }

/-- The messages, sorted by their sequence number. -/
def sortBySequence (messages : List (OrderedMessage α)) : List (OrderedMessage α) :=
  messages.mergeSort fun a b => a.sequenceNumber ≤ b.sequenceNumber

/-- A change of the partition under an id, which is an object of the map. -/
def modifyPartition (service : MessageOrderingService α) (partitionId : String)
    (change : MessageOrderingPartition α → MessageOrderingPartition α) : MessageOrderingService α :=
  match service.partitions.get partitionId with
  | none => service
  | some partition => { service with partitions := service.partitions.set partitionId (change partition) }

/-- `addMessage`: the sequence number that it returns, and the service after it. -/
def addMessage (service : MessageOrderingService α) (name : PartitionName) (messageId : String) (data : α) :
    ℕ × MessageOrderingService α :=
  if ¬ service.orderingEnabled then (0, service)
  else
    let created := service.createPartition name
    let (sequenceNumber, numbered) := created.incrementSequence name.getPartitionId
    (sequenceNumber, numbered.modifyPartition name.getPartitionId fun partition =>
      { partition with messages := sortBySequence (partition.messages ++ [⟨messageId, data, sequenceNumber⟩]) })

def getNextMessage (service : MessageOrderingService α) (name : PartitionName) : Option (OrderedMessage α) :=
  if ¬ service.orderingEnabled then none
  else
    match service.partitions.get name.getPartitionId with
    | none => none
    | some partition => if partition.isProcessing then none else partition.messages.head?

def isPartitionProcessing (service : MessageOrderingService α) (name : PartitionName) : Bool :=
  match service.partitions.get name.getPartitionId with
  | none => false
  | some partition => partition.isProcessing

def markPartitionProcessing (service : MessageOrderingService α) (name : PartitionName) (isProcessing : Bool) :
    MessageOrderingService α :=
  service.modifyPartition name.getPartitionId fun partition => { partition with isProcessing }

/-- `removeMessage`: the first message with the id. -/
def removeMessage (service : MessageOrderingService α) (name : PartitionName) (messageId : String) :
    MessageOrderingService α :=
  service.modifyPartition name.getPartitionId fun partition =>
    { partition with messages := partition.messages.eraseP fun m => m.messageId = messageId }

/-- `clearPartition`: the messages go, and the counter starts again. -/
def clearPartition (service : MessageOrderingService α) (name : PartitionName) : MessageOrderingService α :=
  if service.partitions.has name.getPartitionId then
    let cleared := service.modifyPartition name.getPartitionId fun partition => { partition with messages := [] }
    { cleared with sequenceNumbers := cleared.sequenceNumbers.set name.getPartitionId 0 }
  else service

/-- The partitions that a cleanup removes. -/
def emptyPartitions (service : MessageOrderingService α) : List String :=
  (service.partitions.entries.filter fun entry => entry.2.messages.isEmpty && !entry.2.isProcessing).map Prod.fst

def cleanupEmptyPartitions (service : MessageOrderingService α) : MessageOrderingService α :=
  { service with
    partitions := service.partitions.deleteAll service.emptyPartitions
    sequenceNumbers := service.sequenceNumbers.deleteAll service.emptyPartitions }

/-- `updateConfig`, of which the service reads `ordering.enabled`; without `ordering` it keeps the
one it has. -/
def updateConfig (service : MessageOrderingService α) (enabled : Option Bool) : MessageOrderingService α :=
  { service with orderingEnabled := enabled.getD service.orderingEnabled }

end MessageOrderingService

open MessageOrderingService

/-! ## Calls -/

/-- The calls that change the service. -/
inductive OrderingCall (α : Type) : Type
  | addMessage (name : PartitionName) (messageId : String) (data : α)
  | removeMessage (name : PartitionName) (messageId : String)
  | markPartitionProcessing (name : PartitionName) (isProcessing : Bool)
  | clearPartition (name : PartitionName)
  | cleanupEmptyPartitions
  | updateConfig (enabled : Option Bool)

/-- The service after a call. -/
def OrderingCall.apply (service : MessageOrderingService α) : OrderingCall α → MessageOrderingService α
  | .addMessage name messageId data => (service.addMessage name messageId data).2
  | .removeMessage name messageId => service.removeMessage name messageId
  | .markPartitionProcessing name isProcessing => service.markPartitionProcessing name isProcessing
  | .clearPartition name => service.clearPartition name
  | .cleanupEmptyPartitions => service.cleanupEmptyPartitions
  | .updateConfig enabled => service.updateConfig enabled

/-- The pair that the call is for. -/
def OrderingCall.name? : OrderingCall α → Option PartitionName
  | .addMessage name _ _ => some name
  | .removeMessage name _ => some name
  | .markPartitionProcessing name _ => some name
  | .clearPartition name => some name
  | .cleanupEmptyPartitions => none
  | .updateConfig _ => none

/-- The service after a run from its start. -/
def orderingRun (calls : List (OrderingCall α)) : MessageOrderingService α :=
  run OrderingCall.apply initial calls

/-! ## Partitions -/

section Partitions

variable {service : MessageOrderingService α} {name : PartitionName} {partitionId messageId : String} {data : α}
  {change : MessageOrderingPartition α → MessageOrderingPartition α}

@[simp] theorem modifyPartition_sequenceNumbers :
    (service.modifyPartition partitionId change).sequenceNumbers = service.sequenceNumbers := by
  unfold modifyPartition
  split <;> rfl

@[simp] theorem modifyPartition_orderingEnabled :
    (service.modifyPartition partitionId change).orderingEnabled = service.orderingEnabled := by
  unfold modifyPartition
  split <;> rfl

theorem modifyPartition_partition (other : String) :
    (service.modifyPartition partitionId change).partitions.get other =
      if other = partitionId then (service.partitions.get other).map change else service.partitions.get other := by
  unfold modifyPartition
  by_cases h : other = partitionId
  · subst h
    cases hpartition : service.partitions.get other with
    | none => simp [hpartition]
    | some partition => simp
  · rw [if_neg h]
    cases service.partitions.get partitionId with
    | none => rfl
    | some partition => exact JsMap.get_set_of_ne _ h _

/-- The partition that a message is added to. -/
def partitionFor (service : MessageOrderingService α) (name : PartitionName) : MessageOrderingPartition α :=
  (service.partitions.get name.getPartitionId).getD
    { partitionKey := name.partitionKey, queueName := name.queueName, messages := [], isProcessing := false }

theorem createPartition_partition (other : String) :
    (service.createPartition name).partitions.get other =
      if other = name.getPartitionId then some (partitionFor service name) else service.partitions.get other := by
  unfold createPartition partitionFor JsMap.has
  by_cases h : other = name.getPartitionId
  · subst h
    cases hpartition : service.partitions.get name.getPartitionId <;> simp [hpartition]
  · cases hpartition : service.partitions.get name.getPartitionId <;> simp [h, JsMap.get_set_of_ne]

theorem createPartition_counter (service : MessageOrderingService α) (name : PartitionName) (other : String) :
    (service.createPartition name).counter other =
      if other = name.getPartitionId ∧ service.partitions.has name.getPartitionId = false then 0
      else service.counter other := by
  unfold createPartition counter
  by_cases hhas : service.partitions.has name.getPartitionId = true
  · simp [hhas]
  · by_cases h : other = name.getPartitionId <;> simp [hhas, h, JsMap.get_set]

/-- The number of an added message: the next one of its partition, which starts with 1. -/
theorem addMessage_number (henabled : service.orderingEnabled = true) :
    (service.addMessage name messageId data).1 =
      (if service.partitions.has name.getPartitionId then service.counter name.getPartitionId else 0) + 1 := by
  have hcreated := createPartition_counter service name name.getPartitionId
  simp only [addMessage, henabled, not_true_eq_false, if_false, incrementSequence, hcreated, true_and]
  cases service.partitions.has name.getPartitionId <;> rfl

/-- **The partitions after a message is added.** -/
theorem addMessage_partition (henabled : service.orderingEnabled = true) (other : String) :
    (service.addMessage name messageId data).2.partitions.get other =
      if other = name.getPartitionId then
        some { partitionFor service name with
          messages := sortBySequence ((partitionFor service name).messages ++
            [⟨messageId, data, (service.addMessage name messageId data).1⟩]) }
      else service.partitions.get other := by
  simp only [addMessage, henabled, not_true_eq_false, if_false, incrementSequence]
  rw [modifyPartition_partition]
  simp only [createPartition_partition]
  by_cases h : other = name.getPartitionId <;> simp [h]

theorem addMessage_counter (henabled : service.orderingEnabled = true) (other : String) :
    (service.addMessage name messageId data).2.counter other =
      if other = name.getPartitionId then (service.addMessage name messageId data).1 else service.counter other := by
  have hcreated := createPartition_counter service name other
  simp only [addMessage, henabled, not_true_eq_false, if_false, incrementSequence, counter,
    modifyPartition_sequenceNumbers, JsMap.get_set] at hcreated ⊢
  by_cases h : other = name.getPartitionId
  · simp [h]
  · simpa [h] using hcreated

theorem clearPartition_partition (other : String) :
    (service.clearPartition name).partitions.get other =
      if other = name.getPartitionId then
        (service.partitions.get other).map fun partition => { partition with messages := [] }
      else service.partitions.get other := by
  unfold clearPartition
  split
  · exact modifyPartition_partition other
  · next hhas =>
    have hnone : service.partitions.get name.getPartitionId = none := by simpa [JsMap.has] using hhas
    by_cases h : other = name.getPartitionId <;> simp [h, hnone]

theorem clearPartition_counter (other : String) :
    (service.clearPartition name).counter other =
      if other = name.getPartitionId ∧ service.partitions.has name.getPartitionId = true then 0
      else service.counter other := by
  unfold clearPartition counter
  by_cases hhas : service.partitions.has name.getPartitionId = true
  · by_cases h : other = name.getPartitionId <;> simp [hhas, h, JsMap.get_set]
  · simp [hhas]

theorem mem_emptyPartitions : partitionId ∈ service.emptyPartitions ↔
    ∃ partition, service.partitions.get partitionId = some partition ∧ partition.messages = [] ∧
      partition.isProcessing = false := by
  constructor
  · intro h
    obtain ⟨⟨key, partition⟩, hentry, rfl⟩ := List.mem_map.mp h
    obtain ⟨hmem, hempty⟩ := List.mem_filter.mp hentry
    exact ⟨partition, JsMap.mem_entries.mp hmem, by simpa using hempty⟩
  · rintro ⟨partition, hget, hmessages, hprocessing⟩
    refine List.mem_map.mpr ⟨(partitionId, partition), List.mem_filter.mpr ⟨JsMap.mem_entries.mpr hget, ?_⟩, rfl⟩
    simp [hmessages, hprocessing]

theorem cleanup_partition (other : String) :
    service.cleanupEmptyPartitions.partitions.get other =
      if other ∈ service.emptyPartitions then none else service.partitions.get other :=
  JsMap.get_deleteAll _ _ _

theorem cleanup_counter (other : String) :
    service.cleanupEmptyPartitions.counter other =
      if other ∈ service.emptyPartitions then 0 else service.counter other := by
  unfold counter cleanupEmptyPartitions
  rw [JsMap.get_deleteAll]
  split <;> rfl

end Partitions

/-! ## The order of the messages -/

/-- **The messages of every partition are in the order of their numbers**, and the counter has
passed them. -/
def Ordered (service : MessageOrderingService α) : Prop :=
  ∀ partitionId partition, service.partitions.get partitionId = some partition →
    partition.messages.Pairwise (fun a b => a.sequenceNumber < b.sequenceNumber) ∧
      ∀ m ∈ partition.messages, m.sequenceNumber ≤ service.counter partitionId

variable {service : MessageOrderingService α}

theorem ordered_initial : Ordered (initial : MessageOrderingService α) := by
  intro partitionId partition h
  simp [initial] at h

theorem ordered_partitionFor (h : Ordered service) (name : PartitionName) :
    (partitionFor service name).messages.Pairwise (fun a b => a.sequenceNumber < b.sequenceNumber) ∧
      ∀ m ∈ (partitionFor service name).messages, m.sequenceNumber ≤
        if service.partitions.has name.getPartitionId then service.counter name.getPartitionId else 0 := by
  unfold partitionFor JsMap.has
  cases hpartition : service.partitions.get name.getPartitionId with
  | none => simp
  | some partition => simpa using h _ _ hpartition

/-- A new message has the largest number, so that it comes last. -/
theorem ordered_append {messages : List (OrderedMessage α)} {new : OrderedMessage α}
    (hmessages : messages.Pairwise fun a b => a.sequenceNumber < b.sequenceNumber)
    (hnew : ∀ m ∈ messages, m.sequenceNumber < new.sequenceNumber) :
    (messages ++ [new]).Pairwise fun a b => a.sequenceNumber < b.sequenceNumber := by
  refine List.pairwise_append.mpr ⟨hmessages, List.pairwise_singleton _ _, fun m hm other hother => ?_⟩
  obtain rfl := List.mem_singleton.mp hother
  exact hnew m hm

theorem sortBySequence_of_ordered {messages : List (OrderedMessage α)}
    (h : messages.Pairwise fun a b => a.sequenceNumber < b.sequenceNumber) : sortBySequence messages = messages := by
  refine List.mergeSort_of_pairwise (h.imp fun hlt => ?_)
  exact decide_eq_true hlt.le

/-- Sorting changes nothing: a message is added at the end. -/
theorem addMessage_messages (h : Ordered service) (henabled : service.orderingEnabled = true) {name : PartitionName}
    {messageId : String} {data : α} :
    sortBySequence ((partitionFor service name).messages ++
        [⟨messageId, data, (service.addMessage name messageId data).1⟩]) =
      (partitionFor service name).messages ++ [⟨messageId, data, (service.addMessage name messageId data).1⟩] := by
  obtain ⟨hordered, hcounter⟩ := ordered_partitionFor h name
  refine sortBySequence_of_ordered (ordered_append hordered fun m hm => ?_)
  have hle := hcounter m hm
  rw [addMessage_number henabled]
  exact Nat.lt_succ_of_le hle

theorem ordered_addMessage (h : Ordered service) (name : PartitionName) (messageId : String) (data : α) :
    Ordered (service.addMessage name messageId data).2 := by
  by_cases henabled : service.orderingEnabled = true
  · intro partitionId partition hget
    rw [addMessage_partition henabled] at hget
    rw [addMessage_counter henabled]
    by_cases hid : partitionId = name.getPartitionId
    · rw [if_pos hid] at hget ⊢
      obtain rfl := Option.some.inj hget
      obtain ⟨hordered, hcounter⟩ := ordered_partitionFor h name
      rw [addMessage_messages h henabled]
      -- the new number is above the counter, and the counter has passed all others: the sort changes nothing
      have hold : ∀ m ∈ (partitionFor service name).messages,
          m.sequenceNumber < (service.addMessage name messageId data).1 := by
        intro m hm
        rw [addMessage_number henabled]
        exact Nat.lt_succ_of_le (hcounter m hm)
      refine ⟨ordered_append hordered hold, fun m hm => ?_⟩
      rcases List.mem_append.mp hm with hm | hm
      · exact (hold m hm).le
      · obtain rfl := List.mem_singleton.mp hm
        exact le_rfl
    · rw [if_neg hid] at hget ⊢
      exact h partitionId partition hget
  · simpa [addMessage, henabled] using h

theorem ordered_modifyPartition (h : Ordered service) (partitionId : String)
    {change : MessageOrderingPartition α → MessageOrderingPartition α}
    (hchange : ∀ partition, List.Sublist (change partition).messages partition.messages) :
    Ordered (service.modifyPartition partitionId change) := by
  intro other partition hget
  rw [modifyPartition_partition] at hget
  unfold counter
  rw [modifyPartition_sequenceNumbers]
  by_cases hid : other = partitionId
  · rw [if_pos hid] at hget
    obtain ⟨old, hold, rfl⟩ := Option.map_eq_some_iff.mp hget
    obtain ⟨hordered, hcounter⟩ := h other old hold
    exact ⟨hordered.sublist (hchange old), fun m hm => hcounter m ((hchange old).subset hm)⟩
  · rw [if_neg hid] at hget
    exact h other partition hget

theorem ordered_clearPartition (h : Ordered service) (name : PartitionName) : Ordered (service.clearPartition name) := by
  intro other partition hget
  rw [clearPartition_partition] at hget
  rw [clearPartition_counter]
  by_cases hid : other = name.getPartitionId
  · rw [if_pos hid] at hget
    obtain ⟨old, -, rfl⟩ := Option.map_eq_some_iff.mp hget
    simp
  · rw [if_neg hid] at hget
    rw [if_neg fun hboth => hid hboth.1]
    exact h other partition hget

theorem ordered_cleanup (h : Ordered service) : Ordered service.cleanupEmptyPartitions := by
  intro other partition hget
  rw [cleanup_partition] at hget
  by_cases hempty : other ∈ service.emptyPartitions
  · simp [hempty] at hget
  · rw [if_neg hempty] at hget
    rw [cleanup_counter, if_neg hempty]
    exact h other partition hget

theorem ordered_apply (h : Ordered service) (call : OrderingCall α) : Ordered (call.apply service) := by
  cases call with
  | addMessage name messageId data => exact ordered_addMessage h name messageId data
  | removeMessage name messageId => exact ordered_modifyPartition h _ fun partition => List.eraseP_sublist
  | markPartitionProcessing name isProcessing => exact ordered_modifyPartition h _ fun partition => List.Sublist.refl _
  | clearPartition name => exact ordered_clearPartition h name
  | cleanupEmptyPartitions => exact ordered_cleanup h
  | updateConfig enabled => exact h

/-- **The order holds after every run.** -/
theorem ordered_run (calls : List (OrderingCall α)) : Ordered (orderingRun calls) :=
  run_invariant' (I := Ordered) (fun _ call h => ordered_apply h call) ordered_initial calls

end Queue
