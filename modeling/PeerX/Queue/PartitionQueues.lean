import PeerX.Queue.MessageOrdering
import Mathlib.Data.List.Induction

/-!
# Queue: partitions as queues

A partition is a queue: messages are added at its end, and the next one is its first. But two pairs
of a queue name and a partition key with the same partition id have one partition. The numbers of a
partition grow from one message to the next, and start again when it is cleared, or removed by a
cleanup.

## Main results

* `contents_apply`: what one call does to a partition with one pair
* `ownQueue_iff`: the sets of pairs that all behave as their own queues
* `number_lt_of_not_reset`: the numbers of a pair grow between two resets
-/

namespace Queue

open Concurrency Relational MessageOrderingService

variable {α : Type}

/-! ## The queue of a pair -/

/-- What the caller put into a message. -/
def OrderedMessage.content (m : OrderedMessage α) : String × α := (m.messageId, m.data)

/-- A call on the queue of a pair: calls for other pairs do nothing to it. -/
def ownStep (name : PartitionName) (queue : List (String × α)) : OrderingCall α → List (String × α)
  | .addMessage other messageId data => if other = name then queue ++ [(messageId, data)] else queue
  | .removeMessage other messageId => if other = name then queue.eraseP fun m => m.1 = messageId else queue
  | .clearPartition other => if other = name then [] else queue
  | .markPartitionProcessing _ _ => queue
  | .cleanupEmptyPartitions => queue
  | .updateConfig _ => queue

/-- The queue of a pair after some calls: the messages added under it and not yet removed or
cleared. -/
def ownQueue (name : PartitionName) (calls : List (OrderingCall α)) : List (String × α) :=
  calls.foldl (ownStep name) []

/-- The call is for one of the pairs, or a cleanup; the setting of the ordering stays as it is. -/
def OrderingCall.Within (pairs : PartitionName → Prop) : OrderingCall α → Prop
  | .addMessage name _ _ => pairs name
  | .removeMessage name _ => pairs name
  | .markPartitionProcessing name _ => pairs name
  | .clearPartition name => pairs name
  | .cleanupEmptyPartitions => True
  | .updateConfig _ => False

/-- The pair behaves as its own queue after a run. -/
structure OwnQueue (pairs : PartitionName → Prop) (calls : List (OrderingCall α)) (name : PartitionName) : Prop where
  /-- The next message is the oldest one of the pair. -/
  oldest : (orderingRun calls).isPartitionProcessing name = false →
    ((orderingRun calls).getNextMessage name).map OrderedMessage.content = (ownQueue name calls).head?
  /-- A call for another pair does not change the answer. -/
  isolated : ∀ (call : OrderingCall α) (other : PartitionName), call.name? = some other → pairs other → other ≠ name →
    (call.apply (orderingRun calls)).getNextMessage name = (orderingRun calls).getNextMessage name

/-! ## One call -/

variable {service : MessageOrderingService α} {name : PartitionName} {pairs : PartitionName → Prop}
  {call : OrderingCall α}

/-- What the callers put into the messages of a partition. -/
def contents (service : MessageOrderingService α) (partitionId : String) : List (String × α) :=
  (((service.partitions.get partitionId).map MessageOrderingPartition.messages).getD []).map OrderedMessage.content

theorem contents_congr {service' : MessageOrderingService α} {partitionId : String}
    (h : service'.partitions.get partitionId = service.partitions.get partitionId) :
    contents service' partitionId = contents service partitionId := by
  rw [contents, contents, h]

/-- Only `updateConfig` changes the setting. -/
theorem enabled_apply (hcall : ∀ enabled, call ≠ .updateConfig enabled) :
    (call.apply service).orderingEnabled = service.orderingEnabled := by
  cases call with
  | addMessage other messageId data =>
    simp only [OrderingCall.apply, MessageOrderingService.addMessage]
    split
    · rfl
    · simp only [incrementSequence, modifyPartition_orderingEnabled]
      unfold createPartition
      split <;> rfl
  | removeMessage other messageId => exact modifyPartition_orderingEnabled
  | markPartitionProcessing other isProcessing => exact modifyPartition_orderingEnabled
  | clearPartition other =>
    simp only [OrderingCall.apply, MessageOrderingService.clearPartition]
    split
    · exact modifyPartition_orderingEnabled
    · rfl
  | cleanupEmptyPartitions => rfl
  | updateConfig enabled => exact absurd rfl (hcall enabled)

theorem ne_updateConfig_of_within (hwithin : call.Within pairs) (enabled : Option Bool) :
    call ≠ .updateConfig enabled := by
  rintro rfl
  exact hwithin

theorem ne_updateConfig_of_name {other : PartitionName} (hname : call.name? = some other) (enabled : Option Bool) :
    call ≠ .updateConfig enabled := by
  rintro rfl
  cases hname

/-- A call for a pair with another partition does not touch the partition. -/
theorem apply_of_other {other : PartitionName} (hname : call.name? = some other)
    (hne : name.getPartitionId ≠ other.getPartitionId) :
    (call.apply service).partitions.get name.getPartitionId = service.partitions.get name.getPartitionId := by
  cases call with
  | addMessage other' messageId data =>
    obtain rfl := Option.some.inj hname
    by_cases henabled : service.orderingEnabled = true
    · exact (addMessage_partition henabled _).trans (if_neg hne)
    · simp [OrderingCall.apply, MessageOrderingService.addMessage, henabled]
  | removeMessage other' messageId =>
    obtain rfl := Option.some.inj hname
    exact (modifyPartition_partition _).trans (if_neg hne)
  | markPartitionProcessing other' isProcessing =>
    obtain rfl := Option.some.inj hname
    exact (modifyPartition_partition _).trans (if_neg hne)
  | clearPartition other' =>
    obtain rfl := Option.some.inj hname
    exact (clearPartition_partition _).trans (if_neg hne)
  | cleanupEmptyPartitions => cases hname
  | updateConfig enabled => cases hname

theorem contents_cleanup (partitionId : String) :
    contents service.cleanupEmptyPartitions partitionId = contents service partitionId := by
  unfold contents
  rw [cleanup_partition]
  split
  · next hempty =>
    obtain ⟨partition, hget, hmessages, -⟩ := mem_emptyPartitions.mp hempty
    simp [hget, hmessages]
  · rfl

theorem contents_apply_self (hordered : Ordered service) (henabled : service.orderingEnabled = true)
    (hname : call.name? = some name) :
    contents (call.apply service) name.getPartitionId = ownStep name (contents service name.getPartitionId) call := by
  cases call with
  | addMessage other messageId data =>
    obtain rfl := Option.some.inj hname
    simp only [contents, OrderingCall.apply, addMessage_partition henabled, if_true, Option.map_some, Option.getD_some,
      addMessage_messages hordered henabled, ownStep]
    rw [List.map_append, partitionFor]
    cases service.partitions.get other.getPartitionId <;> rfl
  | removeMessage other messageId =>
    obtain rfl := Option.some.inj hname
    simp only [contents, OrderingCall.apply, MessageOrderingService.removeMessage, modifyPartition_partition, if_true,
      ownStep, List.eraseP_map]
    cases service.partitions.get other.getPartitionId <;> rfl
  | markPartitionProcessing other isProcessing =>
    obtain rfl := Option.some.inj hname
    simp only [contents, OrderingCall.apply, MessageOrderingService.markPartitionProcessing, modifyPartition_partition,
      if_true, ownStep]
    cases service.partitions.get other.getPartitionId <;> rfl
  | clearPartition other =>
    obtain rfl := Option.some.inj hname
    simp only [contents, OrderingCall.apply, clearPartition_partition, if_true, ownStep]
    cases service.partitions.get other.getPartitionId <;> rfl
  | cleanupEmptyPartitions => cases hname
  | updateConfig enabled => cases hname

/-- A call for another pair does nothing to the queue of the pair. -/
theorem ownStep_of_other {other : PartitionName} {queue : List (String × α)} (hname : call.name? = some other)
    (hne : other ≠ name) : ownStep name queue call = queue := by
  cases call with
  | addMessage other' messageId data =>
    obtain rfl := Option.some.inj hname
    exact if_neg hne
  | removeMessage other' messageId =>
    obtain rfl := Option.some.inj hname
    exact if_neg hne
  | markPartitionProcessing other' isProcessing => rfl
  | clearPartition other' =>
    obtain rfl := Option.some.inj hname
    exact if_neg hne
  | cleanupEmptyPartitions => rfl
  | updateConfig enabled => rfl

theorem pairs_of_within {other : PartitionName} (hwithin : call.Within pairs) (hname : call.name? = some other) :
    pairs other := by
  cases call <;> first | exact Option.some.inj hname ▸ hwithin | cases hname

/-- **The partition of a pair follows its queue**, when no other pair of the run has its
partition. -/
theorem contents_apply (hpairs : ∀ other, pairs other → other.getPartitionId = name.getPartitionId → other = name)
    (hordered : Ordered service) (henabled : service.orderingEnabled = true) (hwithin : call.Within pairs) :
    contents (call.apply service) name.getPartitionId = ownStep name (contents service name.getPartitionId) call := by
  cases hname : call.name? with
  | none =>
    cases call with
    | cleanupEmptyPartitions => exact contents_cleanup _
    | updateConfig enabled => exact hwithin.elim
    | _ => cases hname
  | some other =>
    by_cases hother : other = name
    · exact contents_apply_self hordered henabled (hother ▸ hname)
    · have hne : name.getPartitionId ≠ other.getPartitionId := fun heq =>
        hother (hpairs other (pairs_of_within hwithin hname) heq.symm)
      rw [ownStep_of_other hname hother]
      exact contents_congr (apply_of_other hname hne)

/-! ## Runs -/

/-- The first message of the partition is the answer, when it is not being processed. -/
theorem getNextMessage_content (henabled : service.orderingEnabled = true)
    (hprocessing : service.isPartitionProcessing name = false) :
    (service.getNextMessage name).map OrderedMessage.content = (contents service name.getPartitionId).head? := by
  unfold getNextMessage contents
  unfold isPartitionProcessing at hprocessing
  cases hpartition : service.partitions.get name.getPartitionId with
  | none => simp [henabled]
  | some partition =>
    simp only [hpartition] at hprocessing
    simp [henabled, hprocessing]

theorem getNextMessage_congr {service' : MessageOrderingService α}
    (henabled : service'.orderingEnabled = service.orderingEnabled)
    (h : service'.partitions.get name.getPartitionId = service.partitions.get name.getPartitionId) :
    service'.getNextMessage name = service.getNextMessage name := by
  unfold getNextMessage
  rw [henabled, h]

theorem contents_run (hpairs : ∀ other, pairs other → other.getPartitionId = name.getPartitionId → other = name)
    {calls : List (OrderingCall α)} (hcalls : ∀ call ∈ calls, call.Within pairs) :
    (orderingRun calls).orderingEnabled = true ∧
      contents (orderingRun calls) name.getPartitionId = ownQueue name calls := by
  -- backwards over the run, whose last call changes the partition and the queue alike
  induction calls using List.reverseRecOn with
  | nil => exact ⟨rfl, rfl⟩
  | append_singleton calls call ih =>
    have hlast : call.Within pairs := hcalls call (List.mem_append_right _ (List.mem_singleton_self call))
    obtain ⟨henabled, hcontents⟩ := ih fun call hcall => hcalls call (List.mem_append_left _ hcall)
    have hrun : orderingRun (calls ++ [call]) = call.apply (orderingRun calls) := run_append _ _ _
    rw [hrun, ownQueue, List.foldl_append, List.foldl_cons, List.foldl_nil, ← ownQueue, ← hcontents]
    refine ⟨?_, contents_apply hpairs (ordered_run calls) henabled hlast⟩
    rw [enabled_apply (ne_updateConfig_of_within hlast), henabled]

/-- Pairs with one partition: a message of the one is the next message of the other. -/
theorem not_ownQueue_of_shared {other : PartitionName} (hne : other ≠ name)
    (hsame : other.getPartitionId = name.getPartitionId) (messageId : String) (data : α) :
    ¬ OwnQueue pairs [.addMessage other messageId data] name := by
  intro h
  have hname : (OrderingCall.addMessage other messageId data).name? = some other := rfl
  have hcontents : contents (orderingRun [.addMessage other messageId data]) name.getPartitionId =
      [(messageId, data)] := by
    rw [← hsame]
    exact (contents_apply_self ordered_initial rfl hname).trans (if_pos rfl)
  have henabled : (orderingRun [.addMessage other messageId data]).orderingEnabled = true :=
    (enabled_apply (ne_updateConfig_of_name hname)).trans rfl
  have hprocessing : (orderingRun [.addMessage other messageId data]).isPartitionProcessing name = false := by
    have hget : (orderingRun [.addMessage other messageId data]).partitions.get name.getPartitionId = some _ :=
      (addMessage_partition rfl _).trans (if_pos hsame.symm)
    rw [isPartitionProcessing, hget]
    rfl
  have hnext := h.oldest hprocessing
  rw [getNextMessage_content henabled hprocessing, hcontents] at hnext
  simp [ownQueue, ownStep, hne] at hnext

/-- **When all pairs behave as their own queues**, over all runs for some pairs: no two of the pairs
have the same partition id. -/
theorem ownQueue_iff [Inhabited α] (pairs : PartitionName → Prop) :
    (∀ calls : List (OrderingCall α), (∀ call ∈ calls, call.Within pairs) → ∀ name, pairs name →
        OwnQueue pairs calls name) ↔
      ∀ name other, pairs name → pairs other → name.getPartitionId = other.getPartitionId → name = other := by
  constructor
  · -- two pairs with one id: a message for the one is in the queue of the other
    intro h name other hname hother hsame
    by_contra hne
    refine not_ownQueue_of_shared hne hsame "" default (h _ (fun call hcall => ?_) other hother)
    obtain rfl := List.mem_singleton.mp hcall
    exact hname
  · intro hpairs calls hcalls name hname
    have hown : ∀ other, pairs other → other.getPartitionId = name.getPartitionId → other = name :=
      fun other hother => hpairs other name hother hname
    obtain ⟨henabled, hcontents⟩ := contents_run hown hcalls
    refine ⟨fun hprocessing => ?_, fun call other hcall hother hne => ?_⟩
    · rw [getNextMessage_content henabled hprocessing, hcontents]
    · have hids : name.getPartitionId ≠ other.getPartitionId := fun heq => hne (hown other hother heq.symm)
      refine getNextMessage_congr ?_ (apply_of_other hcall hids)
      exact enabled_apply (ne_updateConfig_of_name hcall)

/-- **A message of another pair is the next one of a pair** that has no messages. -/
theorem next_message_of_other :
    ¬ OwnQueue (fun _ => True) [.addMessage ⟨"orders:eu", "user"⟩ "m1" 7] ⟨"orders", "eu:user"⟩ :=
  not_ownQueue_of_shared (by decide) (by decide) "m1" 7

/-! ## Numbers -/

/-- The call makes the numbers of a partition start again: it clears the partition, or removes
it. -/
def Resets (partitionId : String) (service : MessageOrderingService α) : OrderingCall α → Prop
  | .clearPartition other => other.getPartitionId = partitionId ∧ service.partitions.has partitionId
  | .cleanupEmptyPartitions => partitionId ∈ service.emptyPartitions
  | _ => False

/-- The partition exists, and its counter has reached a number. -/
def Reached (partitionId : String) (number : ℕ) (service : MessageOrderingService α) : Prop :=
  service.partitions.has partitionId ∧ number ≤ service.counter partitionId

variable {partitionId : String} {number : ℕ}

theorem reached_modifyPartition {other : String}
    {change : MessageOrderingPartition α → MessageOrderingPartition α} (h : Reached partitionId number service) :
    Reached partitionId number (service.modifyPartition other change) := by
  obtain ⟨hhas, hle⟩ := h
  refine ⟨?_, ?_⟩
  · unfold JsMap.has at hhas ⊢
    rw [modifyPartition_partition]
    split
    · rwa [Option.isSome_map]
    · exact hhas
  · unfold counter
    rwa [modifyPartition_sequenceNumbers]

theorem reached_addMessage {name : PartitionName} {messageId : String} {data : α}
    (h : Reached partitionId number service) :
    Reached partitionId number (service.addMessage name messageId data).2 := by
  obtain ⟨hhas, hle⟩ := h
  by_cases henabled : service.orderingEnabled = true
  · refine ⟨?_, ?_⟩
    · unfold JsMap.has at hhas ⊢
      rw [addMessage_partition henabled]
      split
      · rfl
      · exact hhas
    · rw [addMessage_counter henabled, addMessage_number henabled]
      split
      · next hid =>
        rw [← hid, if_pos hhas]
        omega
      · exact hle
  · rw [MessageOrderingService.addMessage, if_pos henabled]
    exact ⟨hhas, hle⟩

/-- A call that is not a reset keeps what the counter has reached. -/
theorem reached_apply (h : Reached partitionId number service) (hcall : ¬ Resets partitionId service call) :
    Reached partitionId number (call.apply service) := by
  cases call with
  | addMessage name messageId data => exact reached_addMessage h
  | removeMessage name messageId => exact reached_modifyPartition h
  | markPartitionProcessing name isProcessing => exact reached_modifyPartition h
  | clearPartition other =>
    -- only the counter of a partition that is there is reset, and this is another one
    obtain ⟨hhas, hle⟩ := h
    have hid : ¬ partitionId = other.getPartitionId := fun hid => hcall ⟨hid.symm, hhas⟩
    refine ⟨?_, ?_⟩
    · unfold JsMap.has at hhas ⊢
      rw [OrderingCall.apply, clearPartition_partition, if_neg hid]
      exact hhas
    · rw [OrderingCall.apply, clearPartition_counter, if_neg fun hboth => hid hboth.1]
      exact hle
  | cleanupEmptyPartitions =>
    -- the cleanup deletes the counters of the empty partitions alone
    obtain ⟨hhas, hle⟩ := h
    have hkept : partitionId ∉ service.emptyPartitions := hcall
    refine ⟨?_, ?_⟩
    · unfold JsMap.has at hhas ⊢
      rw [OrderingCall.apply, cleanup_partition, if_neg hkept]
      exact hhas
    · rw [OrderingCall.apply, cleanup_counter, if_neg hkept]
      exact hle
  | updateConfig enabled => exact h

/-- **The numbers of a pair grow** from one message to a later one, added while the ordering is
enabled, as long as its partition is not reset in between; and the messages that are in a partition
at the same time have different numbers. -/
theorem number_lt_of_not_reset (name : PartitionName) (before between : List (OrderingCall α))
    (first second : String × α) (hbefore : (orderingRun before).orderingEnabled = true)
    (hreset : Along OrderingCall.apply (fun service call => ¬ Resets name.getPartitionId service call)
      (orderingRun (before ++ [.addMessage name first.1 first.2])) between)
    (hbetween : (orderingRun (before ++ .addMessage name first.1 first.2 :: between)).orderingEnabled = true) :
    ((orderingRun before).addMessage name first.1 first.2).1 <
        ((orderingRun (before ++ .addMessage name first.1 first.2 :: between)).addMessage name second.1 second.2).1 ∧
      ∀ (calls : List (OrderingCall α)) partition,
        (orderingRun calls).partitions.get name.getPartitionId = some partition →
          partition.messages.Pairwise fun a b => a.sequenceNumber < b.sequenceNumber := by
  refine ⟨?_, fun calls partition hget => (ordered_run calls _ _ hget).1⟩
  have hrun : orderingRun (before ++ .addMessage name first.1 first.2 :: between) =
      run OrderingCall.apply (orderingRun (before ++ [.addMessage name first.1 first.2])) between := by
    simp [orderingRun, run_append]
  have hadded : orderingRun (before ++ [.addMessage name first.1 first.2]) =
      ((orderingRun before).addMessage name first.1 first.2).2 := run_append _ _ _
  -- the first message leaves its number in the counter, where no call lowers it
  have hfirst : Reached name.getPartitionId ((orderingRun before).addMessage name first.1 first.2).1
      (orderingRun (before ++ [.addMessage name first.1 first.2])) := by
    rw [hadded, Reached, JsMap.has, addMessage_partition hbefore, addMessage_counter hbefore, if_pos rfl, if_pos rfl]
    exact ⟨rfl, le_rfl⟩
  have hreached := run_invariant (I := Reached name.getPartitionId _) (fun _ _ => reached_apply) hfirst hreset
  rw [← hrun] at hreached
  rw [addMessage_number hbetween, if_pos hreached.1]
  exact Nat.lt_succ_of_le hreached.2

/-- Three messages of a pair, of which the first has been removed. -/
theorem number_lt_three :
    ((orderingRun [.addMessage ⟨"orders", "user"⟩ "m1" 1]).addMessage ⟨"orders", "user"⟩ "m2" 2).1 <
        ((orderingRun ([.addMessage ⟨"orders", "user"⟩ "m1" 1] ++ .addMessage ⟨"orders", "user"⟩ "m2" 2 ::
          [.removeMessage ⟨"orders", "user"⟩ "m1"])).addMessage ⟨"orders", "user"⟩ "m3" 3).1 ∧
      ∀ (calls : List (OrderingCall ℕ)) partition, (orderingRun calls).partitions.get "orders:user" = some partition →
        partition.messages.Pairwise fun a b => a.sequenceNumber < b.sequenceNumber :=
  number_lt_of_not_reset ⟨"orders", "user"⟩ [.addMessage ⟨"orders", "user"⟩ "m1" 1] [.removeMessage ⟨"orders", "user"⟩ "m1"]
    ("m2", 2) ("m3", 3) rfl ⟨id, trivial⟩ rfl

/-- **A cleared partition gives its first number again.** -/
theorem number_again :
    ((orderingRun []).addMessage ⟨"orders", "user"⟩ "m1" 1).1 =
      ((orderingRun [.addMessage ⟨"orders", "user"⟩ "m1" 1, .clearPartition ⟨"orders", "user"⟩]).addMessage
        ⟨"orders", "user"⟩ "m2" 2).1 := by
  rw [addMessage_number rfl, addMessage_number rfl]
  decide

end Queue
