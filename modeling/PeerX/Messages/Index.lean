import PeerX.Messages.Calls
import PeerX.Messages.Recovery
import PeerX.Foundations.Runs
import Mathlib.Data.List.Nodup

/-!
# Messages: the messages of a queue

The ids of the messages of a queue are kept in a set next to the hashes. `persistMessage` adds an id
to the set of its queue, and never removes it from the set of the queue that the message was in
before. So the sets list the messages of the queues exactly as long as no id is persisted under a
second queue.

## Main results

* `indexed_iff_exact`: what the sets must be for that
* `indexed_iff_inPlace`: every state of a run is indexed exactly when every call persists in place
* `listed_twice`: a message that is listed under a queue that it is not in
-/

namespace Messages

open Concurrency

/-! ## Calls one after the other -/

/-- The store after a call that runs alone. -/
def serve (s : Store) (c : Call) : Store := (c.program.eval redis s).2

/-- The stored message of an id is in the queue. -/
def Store.InQueue (s : Store) (q : String) (message : PersistedMessage) : Prop :=
  ∃ id, (s.messages id).message = some message ∧ message.queueName = some q

/-- `getQueueMessages` returns the stored messages of each queue, each once. -/
def Indexed (s : Store) : Prop :=
  ∀ q, ∃ messages, (getQueueMessages q).eval redis s = (.ok messages, s) ∧
    (messages.map (·.messageId)).Nodup ∧ ∀ message, message ∈ messages ↔ s.InQueue q message

/-- A message is persisted under a queue when its id is not in the set of another one. -/
def PersistsInPlace (s : Store) (c : Call) : Prop :=
  ∀ id queueName data maxAttempts, c.operation = .persistMessage id queueName data maxAttempts →
    ∀ q, q ≠ queueName → id ∉ s.queues q

/-! ## Sets and hashes -/

/-- What holds of the sets and the hashes in every run. -/
structure Store.WellFormed (s : Store) : Prop where
  nodup : ∀ q, (s.queues q).Nodup
  stored : ∀ id id', (s.messages id).messageId = some id' →
    id' = id ∧ ∃ q, (s.messages id).queueName = some q

/-- The sets list the messages of their queues. -/
def Store.Exact (s : Store) : Prop :=
  ∀ q id, (s.messages id).messageId = some id → (id ∈ s.queues q ↔ (s.messages id).queueName = some q)

variable {s : Store}

/-- The loop of `getQueueMessages` reads the hashes. -/
theorem eval_readLoop (ids : List MessageId) (messages : List PersistedMessage) :
    (readLoop ids messages).eval redis s =
      (.ok (messages ++ ids.filterMap fun id => (s.messages id).message), s) := by
  induction ids generalizing messages with
  | nil => simp [readLoop]
  | cons id ids ih =>
    rw [readLoop, eval_getHashMessage]
    cases hmessage : (s.messages id).message with
    | none => simp [ih, hmessage]
    | some message => simp [ih, hmessage]

theorem eval_getQueueMessages (q : String) : (getQueueMessages q).eval redis s =
    (.ok ((s.queues q).filterMap fun id => (s.messages id).message), s) :=
  eval_readLoop (s.queues q) []

theorem MessageHash.message_eq_some {fields : MessageHash} {message : PersistedMessage}
    (h : fields.message = some message) :
    fields.messageId = some message.messageId ∧ fields.queueName = message.queueName := by
  obtain ⟨id, hid, rfl⟩ := Option.map_eq_some_iff.mp h
  exact ⟨hid, rfl⟩

theorem MessageHash.message_of_messageId {fields : MessageHash} {id : MessageId}
    (h : fields.messageId = some id) : ∃ message, fields.message = some message := by
  unfold MessageHash.message
  rw [h]
  exact ⟨_, rfl⟩

namespace Store.WellFormed

/-- A message that is read has the id that it is stored under. -/
theorem messageId_eq (h : s.WellFormed) {id : MessageId} {message : PersistedMessage}
    (hmessage : (s.messages id).message = some message) : message.messageId = id :=
  (h.stored id _ (MessageHash.message_eq_some hmessage).1).1

theorem nodup_messages (h : s.WellFormed) (q : String) :
    (((s.queues q).filterMap fun id => (s.messages id).message).map (·.messageId)).Nodup := by
  have hmap : ∀ ids : List MessageId,
      (ids.filterMap fun id => (s.messages id).message).map (·.messageId) =
        ids.filter fun id => (s.messages id).message.isSome := by
    intro ids
    induction ids with
    | nil => rfl
    | cons id ids ih =>
      cases hmessage : (s.messages id).message with
      | none => simp [hmessage, ih]
      | some message => simp [hmessage, ih, h.messageId_eq hmessage]
  rw [hmap]
  exact (h.nodup q).filter _

/-- **The messages of the queues are listed exactly when the sets are exact.** -/
theorem indexed_iff_exact (h : s.WellFormed) : Indexed s ↔ s.Exact := by
  constructor
  · intro hindexed q id hid
    obtain ⟨messages, heval, -, hmem⟩ := hindexed q
    rw [eval_getQueueMessages] at heval
    obtain rfl := Except.ok.inj (Prod.mk.inj heval).1
    obtain ⟨message, hmessage⟩ := MessageHash.message_of_messageId hid
    have hqueue := (MessageHash.message_eq_some hmessage).2
    constructor
    · intro hlisted
      obtain ⟨id', hmessage', hq⟩ :=
        (hmem message).mp (List.mem_filterMap.mpr ⟨id, hlisted, hmessage⟩)
      exact hqueue.trans hq
    · intro hq
      obtain ⟨id', hlisted, hmessage'⟩ :=
        List.mem_filterMap.mp ((hmem message).mpr ⟨id, hmessage, hqueue.symm.trans hq⟩)
      rwa [← h.messageId_eq hmessage, h.messageId_eq hmessage']
  · intro hexact q
    refine ⟨_, eval_getQueueMessages q, h.nodup_messages q, fun message => ?_⟩
    rw [List.mem_filterMap]
    refine exists_congr fun id => ?_
    rw [and_comm]
    refine and_congr_right fun hmessage => ?_
    obtain ⟨hid, hqueue⟩ := MessageHash.message_eq_some hmessage
    rw [h.messageId_eq hmessage] at hid
    rw [hexact q id hid, hqueue]

end Store.WellFormed

/-! ## The other calls -/

/-- What the sets and the hashes say about the queues. -/
def Store.index (s : Store) : (MessageId → Option MessageId × Option String) × (String → List MessageId) :=
  (fun id => ((s.messages id).messageId, (s.messages id).queueName), s.queues)

theorem Store.WellFormed.congr {s' : Store} (h : s.WellFormed) (hs : s'.index = s.index) :
    s'.WellFormed ∧ (s'.Exact ↔ s.Exact) := by
  obtain ⟨hmessages, hqueues⟩ := Prod.mk.inj hs
  have hid : ∀ id, (s'.messages id).messageId = (s.messages id).messageId := fun id =>
    congrArg Prod.fst (congrFun hmessages id)
  have hqueue : ∀ id, (s'.messages id).queueName = (s.messages id).queueName := fun id =>
    congrArg Prod.snd (congrFun hmessages id)
  refine ⟨⟨fun q => ?_, fun id id' hsome => ?_⟩, ?_⟩
  · rw [hqueues]
    exact h.nodup q
  · rw [hid] at hsome
    rw [hqueue]
    exact h.stored id id' hsome
  · simp only [Store.Exact, hid, hqueue, hqueues]

/-- A command that neither persists nor cleans up leaves the index alone. -/
theorem index_step {ι : Type} {calls : ι → Call} {e : RedisEvent ι} {past : List (RedisEvent ι)}
    (h : Next calls e past) (hpersisted : (calls e.thread).operation.persisted = none)
    (hcleanup : ¬ (calls e.thread).operation.IsCleanup) :
    (redis e.command e.before).2.index = e.before.index := by
  have hmessages : ∀ id, ((redis e.command e.before).2.messages id).messageId =
      (e.before.messages id).messageId ∧ ((redis e.command e.before).2.messages id).queueName =
        (e.before.messages id).queueName := by
    intro id
    rcases h.origin e.before id with ⟨horigin, -⟩ | ⟨hop, -⟩ | ⟨hop, -⟩
    · exact ⟨congrArg Prod.fst horigin, congrArg (·.2.1) horigin⟩
    · cases hpersisted.symm.trans hop
    · exact absurd hop hcleanup
  -- the lists of the queues change by SADD and SREM only, which the call does not reach
  have hqueues : (redis e.command e.before).2.queues = e.before.queues := by
    obtain ⟨i, s, c, r⟩ := e
    cases c with
    | setNx id owner =>
      simp only [redis]
      split <;> rfl
    | sadd q id =>
      cases h with
      | reads _ _ hlisted => cases hlisted
      | lists hop =>
        rw [hop] at hpersisted
        cases hpersisted
    | srem q id =>
      cases h with
      | reads _ _ hlisted => cases hlisted
      | unlists hop =>
        rw [hop] at hcleanup
        exact absurd trivial hcleanup
    | _ => rfl
  exact Prod.ext (funext fun id => Prod.ext (hmessages id).1 (hmessages id).2) hqueues

/-- A call that neither persists nor cleans up leaves the index alone. -/
theorem index_serve {c : Call} (hpersisted : c.operation.persisted = none)
    (hcleanup : ¬ c.operation.IsCleanup) : (serve s c).index = s.index := by
  have hstart : Chronicle redis (fun e es => e.thread = () ∧ Next (fun _ : Unit => c) e es) s s [] := rfl
  obtain ⟨es, hc⟩ := (obeys_program (fun _ : Unit => c) ()).chronicle hstart
  exact hc.obs_eq fun e he => by
    obtain ⟨older, -, hn⟩ := hc.ok_of_mem he
    exact index_step hn hpersisted hcleanup

/-! ## Persisting and cleaning up -/

theorem mem_addMember {id id' : MessageId} {ids : List MessageId} :
    id' ∈ addMember id ids ↔ id' ∈ ids ∨ id' = id := by
  unfold addMember
  split
  · next hmem => exact ⟨.inl, fun h => h.elim (fun hid => hid) fun he => he ▸ hmem⟩
  · simp

theorem nodup_addMember {id : MessageId} {ids : List MessageId} (h : ids.Nodup) :
    (addMember id ids).Nodup := by
  unfold addMember
  split
  · exact h
  · next hmem =>
    refine List.nodup_append.mpr ⟨h, List.nodup_singleton id, ?_⟩
    rintro a ha b hb rfl
    exact hmem (List.mem_singleton.mp hb ▸ ha)

/-- The store after `persistMessage`. -/
def Store.persisted (s : Store) (this : Instance) (now : ℕ) (id : MessageId) (queueName data : String)
    (maxAttempts : ℕ) : Store :=
  { s with
    messages := Function.update s.messages id ((s.messages id).setAll
      (toHashFields id queueName data maxAttempts now
        ((s.nodes.mergeSort (· ≤ ·)).take this.replicationFactor)))
    queues := Function.update s.queues queueName (addMember id (s.queues queueName))
    events := s.events ++ [.persisted id queueName] }

theorem serve_persistMessage {c : Call} {id : MessageId} {queueName data : String} {maxAttempts : ℕ}
    (h : c.operation = .persistMessage id queueName data maxAttempts) :
    serve s c = s.persisted c.this c.now id queueName data maxAttempts := by
  unfold serve Call.program
  rw [h]
  rfl

section Persist

variable {this : Instance} {now : ℕ} {id : MessageId} {queueName data : String} {maxAttempts : ℕ}

theorem persisted_messages (id' : MessageId) :
    let s' := s.persisted this now id queueName data maxAttempts
    (s'.messages id').messageId = (if id' = id then some id else (s.messages id').messageId) ∧
      (s'.messages id').queueName = if id' = id then some queueName else (s.messages id').queueName := by
  dsimp only [Store.persisted]
  by_cases hid : id' = id
  · subst hid
    rw [Function.update_self, if_pos rfl, if_pos rfl]
    exact ⟨rfl, rfl⟩
  · rw [Function.update_of_ne hid, if_neg hid, if_neg hid]
    exact ⟨rfl, rfl⟩

theorem mem_persisted_queues (q : String) (id' : MessageId) :
    id' ∈ (s.persisted this now id queueName data maxAttempts).queues q ↔
      id' ∈ s.queues q ∨ q = queueName ∧ id' = id := by
  dsimp only [Store.persisted]
  by_cases hq : q = queueName
  · subst hq
    rw [Function.update_self, mem_addMember]
    simp
  · rw [Function.update_of_ne hq]
    simp [hq]

theorem Store.WellFormed.persisted (h : s.WellFormed) :
    (s.persisted this now id queueName data maxAttempts).WellFormed := by
  refine ⟨fun q => ?_, fun id' id'' hsome => ?_⟩
  · show ((Function.update s.queues queueName (addMember id (s.queues queueName))) q).Nodup
    by_cases hq : q = queueName
    · subst hq
      rw [Function.update_self]
      exact nodup_addMember (h.nodup q)
    · rw [Function.update_of_ne hq]
      exact h.nodup q
  · obtain ⟨hid, hqueue⟩ := persisted_messages (s := s) id'
    rw [hid] at hsome
    rw [hqueue]
    by_cases he : id' = id
    · rw [if_pos he] at hsome ⊢
      exact ⟨(Option.some.inj hsome).symm.trans he.symm, _, rfl⟩
    · rw [if_neg he] at hsome ⊢
      exact h.stored id' id'' hsome

/-- The sets stay exact exactly when the id is in no other set. -/
theorem exact_persisted_iff (hexact : s.Exact) :
    (s.persisted this now id queueName data maxAttempts).Exact ↔ ∀ q, q ≠ queueName → id ∉ s.queues q := by
  constructor
  · intro h q hq hmem
    obtain ⟨hid, hqueue⟩ := persisted_messages (s := s) id
    rw [if_pos rfl] at hid hqueue
    have hlisted := (h q id hid).mp ((mem_persisted_queues q id).mpr (.inl hmem))
    exact hq (Option.some.inj (hlisted.symm.trans hqueue))
  · intro h q id' hsome
    obtain ⟨hid, hqueue⟩ := persisted_messages (s := s) id'
    rw [hid] at hsome
    rw [hqueue, mem_persisted_queues]
    by_cases he : id' = id
    · subst he
      rw [if_pos rfl, Option.some_inj]
      constructor
      · rintro (hmem | ⟨hq, -⟩)
        · by_contra hne
          exact h q (Ne.symm hne) hmem
        · exact hq.symm
      · exact fun hq => .inr ⟨hq.symm, rfl⟩
    · rw [if_neg he] at hsome ⊢
      rw [← hexact q id' hsome]
      exact or_iff_left fun hnot => he hnot.2

end Persist

/-- The store after a completed message was removed. -/
def Store.cleaned (s : Store) (id : MessageId) (queueName : String) : Store :=
  { s with
    messages := Function.update s.messages id {}
    queues := Function.update s.queues queueName (removeMember id (s.queues queueName)) }

theorem Store.WellFormed.cleaned (h : s.WellFormed) (id : MessageId) (queueName : String) :
    (s.cleaned id queueName).WellFormed ∧ (s.Exact → (s.cleaned id queueName).Exact) := by
  -- the removed hash has no id any more, so a message with one is another message
  have hother : ∀ id' id'', ((s.cleaned id queueName).messages id').messageId = some id'' →
      id' ≠ id ∧ (s.cleaned id queueName).messages id' = s.messages id' := by
    intro id' id'' hsome
    by_cases he : id' = id
    · subst he
      have hempty : (s.cleaned id' queueName).messages id' = {} := Function.update_self ..
      rw [hempty] at hsome
      cases hsome
    · exact ⟨he, Function.update_of_ne he _ _⟩
  refine ⟨⟨fun q => ?_, fun id' id'' hsome => ?_⟩, fun hexact q id' hsome => ?_⟩
  · show ((Function.update s.queues queueName (removeMember id (s.queues queueName))) q).Nodup
    by_cases hq : q = queueName
    · subst hq
      rw [Function.update_self]
      exact (h.nodup q).filter _
    · rw [Function.update_of_ne hq]
      exact h.nodup q
  · obtain ⟨-, hsame⟩ := hother id' id'' hsome
    rw [hsame] at hsome ⊢
    exact h.stored id' id'' hsome
  · obtain ⟨hne, hsame⟩ := hother id' id' hsome
    rw [hsame] at hsome ⊢
    rw [← hexact q id' hsome]
    show id' ∈ (Function.update s.queues queueName (removeMember id (s.queues queueName))) q ↔ _
    by_cases hq : q = queueName
    · subst hq
      rw [Function.update_self, removeMember, List.mem_filter]
      simp [hne]
    · rw [Function.update_of_ne hq]

/-- The loop of a cleanup leaves a message alone, or removes it. -/
theorem eval_cleanupLoop_cons (cutoffTime : ℤ) (id : MessageId) (ids : List MessageId) (n : ℕ) :
    (cleanupLoop cutoffTime (id :: ids) n).eval redis s =
        (cleanupLoop cutoffTime ids n).eval redis s ∨
      ∃ q, (cleanupLoop cutoffTime (id :: ids) n).eval redis s =
        (cleanupLoop cutoffTime ids (n + 1)).eval redis (s.cleaned id q) := by
  rw [cleanupLoop, eval_getHashMessage]
  cases (s.messages id).message with
  | none => exact .inl rfl
  | some message =>
    dsimp only
    split
    · exact .inr ⟨message.queueName.getD "undefined", rfl⟩
    · exact .inl rfl

theorem wellFormed_cleanupLoop (h : s.WellFormed) (cutoffTime : ℤ) (ids : List MessageId) (n : ℕ) :
    ((cleanupLoop cutoffTime ids n).eval redis s).2.WellFormed ∧
      (s.Exact → ((cleanupLoop cutoffTime ids n).eval redis s).2.Exact) := by
  induction ids generalizing s n with
  | nil => exact ⟨h, fun hexact => hexact⟩
  | cons id ids ih =>
    rcases eval_cleanupLoop_cons (s := s) cutoffTime id ids n with heval | ⟨q, heval⟩
    · rw [heval]
      exact ih h n
    · obtain ⟨hwell, hexact⟩ := h.cleaned id q
      rw [heval]
      exact ⟨(ih hwell (n + 1)).1, fun hs => (ih hwell (n + 1)).2 (hexact hs)⟩

/-! ## Runs -/

/-- Every call keeps the sets and the hashes well-formed. -/
theorem Store.WellFormed.serve (h : s.WellFormed) (c : Call) :
    (serve s c).WellFormed ∧ (s.Exact → ((Messages.serve s c).Exact ↔ PersistsInPlace s c)) := by
  cases hop : c.operation with
  | persistMessage id queueName data maxAttempts =>
    rw [serve_persistMessage hop]
    refine ⟨h.persisted, fun hexact => (exact_persisted_iff hexact).trans ?_⟩
    constructor
    · intro hplace id' queueName' data' maxAttempts' hop'
      obtain ⟨rfl, rfl, rfl, rfl⟩ := Operation.persistMessage.inj (hop.symm.trans hop')
      exact hplace
    · exact fun hplace => hplace id queueName data maxAttempts hop
  | cleanupCompletedMessages scanned maxAgeMs =>
    have hserve : Messages.serve s c =
        ((cleanupLoop (c.now - maxAgeMs) scanned 0).eval redis s).2 := by
      unfold Messages.serve Call.program
      rw [hop]
      simp only [Prog.eval_map]
      rfl
    obtain ⟨hwell, hexact⟩ := wellFormed_cleanupLoop h (c.now - maxAgeMs) scanned 0
    rw [hserve]
    refine ⟨hwell, fun hs => iff_of_true (hexact hs) fun id queueName data maxAttempts hop' => ?_⟩
    cases hop.symm.trans hop'
  | markProcessing | renewProcessingLease | acknowledgeMessage | markCompleted | markFailed
  | retryMessage | recoverOrphanedMessages | leaseExpiry =>
    obtain ⟨hwell, hexact⟩ :=
      h.congr (index_serve (s := s) (c := c) (by rw [hop]; rfl) (by rw [hop]; exact not_false))
    refine ⟨hwell, fun hs => iff_of_true (hexact.mpr hs) fun id queueName data maxAttempts hop' => ?_⟩
    cases hop.symm.trans hop'

/-- **`getQueueMessages` returns the stored messages of each queue, each once, throughout a run**
exactly when every call persists in place: an id that is in the set of a queue is persisted under no
other one. -/
theorem indexed_iff_inPlace (nodes : List String) (calls : List Call) :
    Throughout serve Indexed { Store.empty with nodes := nodes } calls ↔
      Along serve PersistsInPlace { Store.empty with nodes := nodes } calls := by
  have hstart : Store.WellFormed { Store.empty with nodes := nodes } :=
    ⟨fun _ => List.nodup_nil, fun id id' hsome => (by cases hsome)⟩
  refine throughout_iff_along (I := Store.WellFormed) (fun s c h => (h.serve c).1) ?_ hstart
    (hstart.indexed_iff_exact.mpr fun q id hsome => (by cases hsome))
  intro s c h hindexed
  rw [(h.serve c).1.indexed_iff_exact]
  exact (h.serve c).2 (h.indexed_iff_exact.mp hindexed)

/-- Message 7 is persisted for the queue of the orders, and then for that of the trades. -/
def moved : List Call :=
  [⟨{ instanceId := 1 }, 10, .persistMessage 7 "orders" "{}" 3⟩,
    ⟨{ instanceId := 1 }, 20, .persistMessage 7 "trades" "{}" 3⟩]

/-- **A message is listed under a queue that it is not in.** -/
theorem listed_twice : ¬ Throughout serve Indexed Store.empty moved := by
  rintro ⟨-, -, h⟩
  have hindexed : Indexed (run serve Store.empty moved) := h
  obtain ⟨messages, heval, -, hmem⟩ := hindexed "orders"
  have hall : ∀ message ∈ messages, message.queueName = some "orders" := by
    intro message hmessage
    obtain ⟨id, -, hqueue⟩ := (hmem message).mp hmessage
    exact hqueue
  rw [eval_getQueueMessages] at heval
  obtain rfl := Except.ok.inj (Prod.mk.inj heval).1
  revert hall
  decide +kernel

end Messages
