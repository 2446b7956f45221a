import PeerX.Queue.DeadLetter

/-!
# Queue: recoveries of dead letters

A stored record stays until it is re-enqueued, removed or expired, and is re-enqueued once, as long
as a recovery reads a record only when the recoveries that have read it before have ended without a
job, and what a recovery or a sweep deletes is the record that it has seen. Two recoveries of one
record at the same time put its job on the queue twice, and so does a recovery after one whose
deletion failed.

## Main results

* `program_keeps`: the methods issue the commands of their calls
* `requeued_once`: an entry is re-enqueued once, and the record of an entry that has not ended is
  there
* `requeued_twice_and_lost`: two recoveries at the same time, and a record that is stored again
  meanwhile
-/

namespace Queue

open Concurrency

variable {ι : Type} {i : ι} {past : List (DlqEvent ι)}

/-! ## The commands of a call -/

/-- What a call does next, after the commands of its past, the newest first. -/
inductive DlqNext : DlqCall → DlqCommand → List (DlqEvent ι) → Prop
  | stores {job error reason q now} :
      DlqNext (.addToDLQ job error reason q now)
        (.hset q job.id (some (job.dlqItem error reason q now).stringify)) []
  | counts {job error reason q now past} : DlqNext (.addToDLQ job error reason q now) (.hgetall q) past
  | reads {q j} : DlqNext (.recoverJob q j) (.hget q j) []
  | adds {q j i s raw item} (hitem : deserialize raw = some item) (hknown : q.Known) :
      DlqNext (.recoverJob q j) (.add (item.recoveredJob q)) [⟨i, s, .hget q j, .ok (some raw)⟩]
  | deletes {q j i s s' raw job u} :
      DlqNext (.recoverJob q j) (.hdel q [j])
        [⟨i, s', .add job, .ok u⟩, ⟨i, s, .hget q j, .ok (some raw)⟩]
  | removes {q j} : DlqNext (.removeDLQItem q j) (.hdel q [j]) []
  | lists {q past} : DlqNext (.clearDLQ q) (.hgetall q) past
  | clears {q past} : DlqNext (.clearDLQ q) (.del q) past
  | scans {now maxAge q past} : DlqNext (.cleanupExpiredItems now maxAge) (.hgetall q) past
  | expires {now maxAge q js past} : DlqNext (.cleanupExpiredItems now maxAge) (.hdel q js) past

/-- `recoverJob`. -/
theorem keeps_recoverJob {q : QueueName} {j : String} :
    (recoverJob q j).Keeps dlqServe (DlqNext (.recoverJob q j)) i (fun _ _ => True) (fun _ _ => True)
      [] := by
  refine keeps_issue_bind .reads (fun s raw => ?_) fun s e => trivial
  cases raw with
  | none => exact keeps_ret trivial
  | some raw =>
    cases hitem : deserialize raw with
    | none =>
      rw [Option.bind_some, hitem]
      exact keeps_ret trivial
    | some item =>
      rw [Option.bind_some, hitem]
      dsimp only
      by_cases hknown : q.Known
      · rw [if_pos hknown]
        refine keeps_tryCatch (keeps_issue_bind (.adds hitem hknown) (fun s' u => ?_) fun s' e =>
          keeps_ret trivial)
        exact keeps_issue_bind .deletes (fun s'' n => keeps_ret trivial) fun s'' e => keeps_ret trivial
      · rw [if_neg hknown]
        exact keeps_ret trivial

/-- `cleanupExpiredItems`. -/
theorem keeps_cleanupQueues {now maxAge : ℕ} {cutoffTime : ℤ} {queueNames : List QueueName} :
    (cleanupQueues cutoffTime queueNames).Keeps dlqServe (DlqNext (.cleanupExpiredItems now maxAge)) i
      (fun _ _ => True) (fun _ _ => True) past := by
  induction queueNames generalizing past with
  | nil => exact keeps_ret trivial
  | cons q queueNames ih =>
    refine keeps_issue_bind .scans (fun s fields => ?_) fun s e => trivial
    split
    · exact keeps_issue_bind .expires (fun s' n => ih) fun s' e => trivial
    · exact ih

/-- **The methods issue the commands of their calls.** -/
theorem program_keeps (call : DlqCall) (i : ι) :
    call.program.Keeps dlqServe (DlqNext call) i (fun _ _ => True) (fun _ _ => True) [] := by
  cases call with
  | addToDLQ job error reason q now =>
    refine keeps_bind (keeps_issue_bind .stores (fun s u => ?_) fun s e => trivial)
    exact keeps_bind (keeps_bind (keeps_issue .counts
      (fun s fields => keeps_ret (keeps_ret (keeps_ret trivial))) fun s e => trivial))
  | recoverJob q j => exact keeps_bind (keeps_recoverJob.mono fun b past _ => keeps_ret trivial)
  | removeDLQItem q j =>
    exact keeps_bind (keeps_issue_bind .removes (fun s n => keeps_ret (keeps_ret trivial))
      fun s e => trivial)
  | clearDLQ q =>
    refine keeps_bind (keeps_bind (keeps_bind (keeps_issue .lists (fun s fields => ?_)
      fun s e => trivial)))
    exact keeps_ret (keeps_issue_bind .clears (fun s' u => keeps_ret (keeps_ret trivial))
      fun s' e => trivial)
  | cleanupExpiredItems now maxAge => exact keeps_cleanupQueues

/-! ## Entries -/

section Entries

variable (calls : ι → DlqCall) (q : QueueName) (j : String)

/-- The command stores the record of the job. -/
def DlqCommand.stores : DlqCommand → Bool
  | .hset q' j' _ => q' = q ∧ j' = j
  | _ => false

/-- The command reads the record of the job. -/
def DlqCommand.reads : DlqCommand → Bool
  | .hget q' j' => q' = q ∧ j' = j
  | _ => false

/-- The command adds a job to a queue. -/
def DlqCommand.adds : DlqCommand → Bool
  | .add _ => true
  | _ => false

/-- The command was carried out. -/
def carried (e : DlqEvent ι) : Bool := e.before.fate.carriedOut

/-- The record of the job was stored: an entry of the dead letter queue begins. -/
def Stored (e : DlqEvent ι) : Bool := e.command.stores q j && carried e

/-- The commands since the record of the job was last stored. -/
def sinceStored (es : List (DlqEvent ι)) : List (DlqEvent ι) := since (Stored q j) es

/-- The call has tried to add a job, in vain. -/
def EndedInVain (i : ι) (es : List (DlqEvent ι)) : Prop :=
  ∃ e ∈ es, e.thread = i ∧ e.command.adds = true ∧ carried e = false

variable [DecidableEq ι]

/-- The call has read the record of the job. -/
def ReadBy (i : ι) (e : DlqEvent ι) : Bool := e.thread = i ∧ e.command.reads q j

/-- The entry that a call has read, by its number: how often the record was stored before. -/
def entryRead (i : ι) (es : List (DlqEvent ι)) : ℕ :=
  (es.dropWhile fun e => !ReadBy q j i e).countP (Stored q j)

/-- The entries of the job that were re-enqueued, by the recoveries that have read them. -/
def requeued : List (DlqEvent ι) → List ℕ
  | [] => []
  | e :: es =>
    if e.command.adds ∧ carried e ∧ es.any (ReadBy q j e.thread) then
      entryRead q j e.thread es :: requeued es
    else requeued es

/-- The command deletes records of the queue. -/
def DlqCommand.deletes : DlqCommand → Bool
  | .hdel q' _ => q' = q
  | _ => false

/-- The command deletes all records of the queue. -/
def DlqCommand.clears : DlqCommand → Bool
  | .del q' => q' = q
  | _ => false

/-- The command ends the entry of the job: a recovery that has read the entry re-enqueues it,
the record is removed or the queue cleared, or a sweep deletes the record when it is expired. -/
def Settles (e : DlqEvent ι) (es : List (DlqEvent ι)) : Prop :=
  carried e = true ∧
    match calls e.thread with
    | .addToDLQ _ _ _ _ _ => False
    | .recoverJob _ _ => e.command.adds = true ∧ ∃ e' ∈ sinceStored q j es, ReadBy q j e.thread e' = true
    | .removeDLQItem q' j' => (q' = q ∧ j' = j) ∧ e.command.deletes q = true
    | .clearDLQ q' => q' = q ∧ e.command.clears q = true
    | .cleanupExpiredItems now maxAge => e.command.deletes q = true ∧
        ∃ raw ∈ (e.before.hashes q).lookup j, Expired ((now : ℤ) - maxAge) raw

instance (e : DlqEvent ι) (es : List (DlqEvent ι)) : Decidable (Settles calls q j e es) := by
  unfold Settles
  cases calls e.thread <;> exact inferInstance

/-- The job waits in the dead letter queue: its record was stored, and nothing has ended the
entry. -/
def Waiting : List (DlqEvent ι) → Prop
  | [] => False
  | e :: es => Stored q j e = true ∨ (¬ Settles calls q j e es ∧ Waiting es)

instance decidableWaiting : ∀ es, Decidable (Waiting calls q j es)
  | [] => inferInstanceAs (Decidable False)
  | e :: es =>
    have : Decidable (Waiting calls q j es) := decidableWaiting es
    inferInstanceAs (Decidable (_ ∨ (¬ Settles calls q j e es ∧ Waiting calls q j es)))

/-- Nobody else handles the record. A recovery reads the record when the recoveries that have
read it since it was stored have ended without a job; it deletes the record that it has read; and a
sweep deletes records that are expired. -/
def Undisturbed (i : ι) (s : DlqStore × List (DlqEvent ι)) : DlqCommand → Prop
  | .hget q j => s.1.fate.succeeded = true → ((s.1.hashes q).lookup j).isSome = true →
      ∀ e ∈ sinceStored q j s.2, e.command.reads q j = true → EndedInVain e.thread s.2
  | .hdel q js => s.1.fate.carriedOut = true →
      match calls i with
      | .recoverJob _ j => ∃ e ∈ sinceStored q j s.2, ReadBy q j i e = true
      | .cleanupExpiredItems now maxAge =>
        ∀ j ∈ js, ∀ raw ∈ (s.1.hashes q).lookup j, Expired ((now : ℤ) - maxAge) raw
      | _ => True
  | _ => True

instance (i : ι) (es : List (DlqEvent ι)) : Decidable (EndedInVain i es) :=
  inferInstanceAs (Decidable (∃ e ∈ es, _))

instance (calls : ι → DlqCall) (i : ι) (s : DlqStore × List (DlqEvent ι)) :
    DecidablePred (Undisturbed calls i s)
  | .hget q j => inferInstanceAs (Decidable (_ → _ → ∀ e ∈ sinceStored q j s.2,
      e.command.reads q j = true → EndedInVain e.thread s.2))
  | .hdel q js => by
    unfold Undisturbed
    cases calls i with
    | recoverJob q' j => exact inferInstance
    | cleanupExpiredItems now maxAge => exact inferInstance
    | _ => exact inferInstance
  | .hset _ _ _ | .hgetall _ | .del _ | .add _ => inferInstanceAs (Decidable True)

end Entries

/-! ## What the commands of the past tell -/

section Hashes

variable {hash : Hash} {j j' : String}

theorem lookup_filter {p : String × Option Json → Bool} (h : ∀ raw, p (j, raw) = true) :
    (hash.filter p).lookup j = hash.lookup j := by
  induction hash with
  | nil => rfl
  | cons field hash ih =>
    obtain ⟨j', raw⟩ := field
    by_cases hj : j = j'
    · subst hj
      rw [List.filter_cons_of_pos (h raw)]
      simp
    · have hne : (j == j') = false := by simpa using hj
      rw [List.lookup_cons, hne, ← ih, List.filter_cons]
      split
      · rw [List.lookup_cons, hne]
      · rfl

theorem lookup_set_self (raw : Option Json) : (hash.set j raw).lookup j = some raw := by
  simp [Hash.set]

theorem lookup_set_of_ne (h : j ≠ j') (raw : Option Json) :
    (hash.set j' raw).lookup j = hash.lookup j := by
  have hne : (j == j') = false := by simpa using h
  rw [Hash.set, List.lookup_cons, hne]
  exact lookup_filter fun raw => by simpa using h

theorem lookup_del {js : List String} (h : j ∉ js) : (hash.del js).lookup j = hash.lookup j :=
  lookup_filter fun raw => by simpa using h

end Hashes

section Past

variable [DecidableEq ι] {calls : ι → DlqCall} {q : QueueName} {j : String} {d₀ s : DlqStore}
  {es new old : List (DlqEvent ι)} {e : DlqEvent ι}

/-- The commands that the calls have executed, when they are not disturbed. -/
abbrev DlqChronicle (calls : ι → DlqCall) (d₀ s : DlqStore) (es : List (DlqEvent ι)) : Prop :=
  Chronicle dlqServe (fun e es => DlqNext (calls e.thread) e.command (own e.thread es) ∧
    Undisturbed calls e.thread (e.before, es) e.command) d₀ s es

omit [DecidableEq ι] in
theorem adds_eq {c : DlqCommand} (h : c.adds = true) : ∃ job, c = .add job := by
  cases c with
  | add job => exact ⟨job, rfl⟩
  | _ => cases h

omit [DecidableEq ι] in
theorem reads_eq {c : DlqCommand} (h : c.reads q j = true) : c = .hget q j := by
  cases c with
  | hget q' j' =>
    obtain ⟨rfl, rfl⟩ := of_decide_eq_true h
    rfl
  | _ => cases h

theorem readBy_iff : ReadBy q j i e = true ↔ e.thread = i ∧ e.command = .hget q j := by
  unfold ReadBy
  constructor
  · intro h
    obtain ⟨hi, hreads⟩ := of_decide_eq_true h
    exact ⟨hi, reads_eq hreads⟩
  · rintro ⟨hi, hreads⟩
    simp [hi, hreads, DlqCommand.reads]

omit [DecidableEq ι] in
/-- What a call that adds a job has done before: it has read a record, and nothing else. -/
theorem read_of_adds {c : DlqCommand} (h : DlqNext (calls i) c past) (hadds : c.adds = true) :
    ∃ q j k s raw, calls i = .recoverJob q j ∧ past = [⟨k, s, .hget q j, .ok (some raw)⟩] := by
  obtain ⟨job, rfl⟩ := adds_eq hadds
  generalize hcall : calls i = call at h
  generalize hc : DlqCommand.add job = c at h
  cases h with
  | @adds q j k s raw item hitem hknown => exact ⟨q, j, k, s, raw, rfl, rfl⟩
  | _ => cases hc

/-- A call adds one job at most. -/
theorem adds_unique (hc : DlqChronicle calls d₀ s es) {e e' : DlqEvent ι} (he : e ∈ es) (he' : e' ∈ es)
    (hthread : e.thread = e'.thread) (hadds : e.command.adds = true) (hadds' : e'.command.adds = true) :
    e = e' := by
  -- of two commands that add a job, the newer one has the older one in its past
  have hne : ∀ {e e' : DlqEvent ι} {new old}, es = new ++ e :: old → e' ∈ old → e.thread = e'.thread →
      e.command.adds = true → e'.command.adds = true → False := by
    rintro e e' new old rfl hmem hthread hadds hadds'
    obtain ⟨_, _, _, _, _, _, hpast⟩ := read_of_adds hc.before.2.1.1 hadds
    have hown := mem_own.mpr ⟨hmem, hthread.symm⟩
    rw [hpast] at hown
    rw [List.mem_singleton.mp hown] at hadds'
    cases hadds'
  obtain ⟨new, old, hes⟩ := List.append_of_mem he
  rw [hes] at he'
  rcases List.mem_append.mp he' with hmem | hmem
  · obtain ⟨new', mid, rfl⟩ := List.append_of_mem hmem
    have hes' : es = new' ++ e' :: (mid ++ e :: old) := by rw [hes, List.append_assoc, List.cons_append]
    have hold : e ∈ mid ++ e :: old := List.mem_append_right _ List.mem_cons_self
    exact absurd (hne hes' hold hthread.symm hadds' hadds) id
  · rcases List.mem_cons.mp hmem with rfl | hmem
    · rfl
    · exact absurd (hne hes hmem hthread hadds hadds') id

/-- Where a call that adds a job has read the record: in the commands before it there is one
read of the call, which found a record. -/
theorem read_split (hc : DlqChronicle calls d₀ s (new ++ e :: old)) (hadds : e.command.adds = true)
    (hread : old.any (ReadBy q j e.thread) = true) :
    ∃ t raw mid older, old = mid ++ ⟨e.thread, t, .hget q j, .ok (some raw)⟩ :: older ∧
      own e.thread mid = [] ∧ own e.thread older = [] := by
  obtain ⟨-, ⟨hnext, -⟩, -⟩ := hc.before
  obtain ⟨q', j', k, t, raw, -, hpast⟩ := read_of_adds hnext hadds
  obtain ⟨mid, older, rfl, hmid, holder⟩ := split_of_own_cons hpast
  have hk : k = e.thread := by
    have hmem : (⟨k, t, .hget q' j', .ok (some raw)⟩ : DlqEvent ι) ∈ own e.thread
        (mid ++ ⟨k, t, .hget q' j', .ok (some raw)⟩ :: older) := by
      rw [hpast]
      exact List.mem_singleton_self _
    exact (mem_own.mp hmem).2
  subst hk
  -- the read is the one that the hypothesis is about
  obtain ⟨e', he', hreadBy⟩ := List.any_eq_true.mp hread
  obtain ⟨hthread, hcommand⟩ := readBy_iff.mp hreadBy
  have hown := mem_own.mpr ⟨he', hthread⟩
  rw [hpast, List.mem_singleton] at hown
  rw [hown] at hcommand
  injection hcommand with hq hj
  subst hq hj
  exact ⟨t, raw, mid, older, rfl, hmid, holder⟩

theorem entryRead_split {t : DlqStore} {r : Except String (Option (Option Json))} {mid older}
    (hmid : own i mid = []) :
    entryRead q j i (mid ++ ⟨i, t, .hget q j, r⟩ :: older) = older.countP (Stored q j) := by
  have hnone : ∀ e ∈ mid, (!ReadBy q j i e) = true := fun e he => by
    by_contra h
    have hread := readBy_iff.mp (by simpa using h)
    exact thread_ne_of_own_nil hmid he hread.1
  have hself : ReadBy q j i (⟨i, t, .hget q j, r⟩ : DlqEvent ι) = true := readBy_iff.mpr ⟨rfl, rfl⟩
  unfold entryRead
  rw [List.dropWhile_append_of_pos hnone, List.dropWhile_cons_of_neg (by simp [hself]),
    List.countP_cons_of_neg (by simp [Stored, DlqCommand.stores])]

/-- An entry that was re-enqueued, by the command that added the job. -/
theorem mem_requeued {n : ℕ} (h : n ∈ requeued q j es) :
    ∃ new e old, es = new ++ e :: old ∧ e.command.adds = true ∧ carried e = true ∧
      old.any (ReadBy q j e.thread) = true ∧ n = entryRead q j e.thread old := by
  induction es with
  | nil => cases h
  | cons e es ih =>
    have hrest : n ∈ requeued q j es → ∃ new e' old, e :: es = new ++ e' :: old ∧
        e'.command.adds = true ∧ carried e' = true ∧ old.any (ReadBy q j e'.thread) = true ∧
        n = entryRead q j e'.thread old := fun h => by
      obtain ⟨new, e', old, hes, hadded⟩ := ih h
      exact ⟨e :: new, e', old, by rw [hes, List.cons_append], hadded⟩
    unfold requeued at h
    split at h
    · next hadds =>
      rcases List.mem_cons.mp h with rfl | h
      · exact ⟨[], e, es, rfl, hadds.1, hadds.2.1, hadds.2.2, rfl⟩
      · exact hrest h
    · exact hrest h

/-! ## Re-enqueued once -/

omit [DecidableEq ι] in
/-- Without a store in between, an older read is one since the record was stored. -/
theorem mem_sinceStored {mid older : List (DlqEvent ι)}
    (hcount : (mid ++ e :: older).countP (Stored q j) = older.countP (Stored q j)) :
    e ∈ sinceStored q j (mid ++ e :: older) := by
  have hsplit : mid ++ e :: older = (mid ++ [e]) ++ older := by simp
  rw [hsplit, List.countP_append] at hcount
  have hnone : ∀ x ∈ mid ++ [e], Stored q j x = false := fun x hx => by
    have hzero : (mid ++ [e]).countP (Stored q j) = 0 := by omega
    simpa using List.countP_eq_zero.mp hzero x hx
  unfold sinceStored
  rw [hsplit, since_append hnone]
  exact List.mem_append_left _ (List.mem_append_right _ (List.mem_singleton_self e))

/-- A recovery reads the record after those before it have ended in vain. -/
theorem ended_of_read {t : DlqStore} {raw : Option Json} {mid older : List (DlqEvent ι)}
    (hc : DlqChronicle calls d₀ s (new ++ ⟨i, t, .hget q j, .ok (some raw)⟩ :: (mid ++ e :: older)))
    (hread : e.command = .hget q j)
    (hcount : (mid ++ e :: older).countP (Stored q j) = older.countP (Stored q j)) :
    EndedInVain e.thread (mid ++ e :: older) := by
  have hreply := hc.reply (List.mem_append_right new List.mem_cons_self)
  obtain ⟨-, ⟨-, hundisturbed⟩, -⟩ := hc.before
  obtain ⟨hfate, hvalue⟩ := Fate.reply_eq_ok.mp hreply.symm
  refine hundisturbed (by rw [hfate]; rfl) ?_ e (mem_sinceStored hcount) ?_
  · exact (congrArg Option.isSome hvalue).trans rfl
  · rw [hread]
    simp [DlqCommand.reads]

/-- An entry is re-enqueued once. -/
theorem nodup_of_chronicle (hc : DlqChronicle calls d₀ s es) : (requeued q j es).Nodup := by
  induction es generalizing s with
  | nil => exact List.nodup_nil
  | cons e es ih =>
    unfold requeued
    split
    · next hadded =>
      obtain ⟨hadds, hcarried, hread⟩ := hadded
      refine List.nodup_cons.mpr ⟨fun hmem => ?_, ih hc.2.2⟩
      obtain ⟨new, e', old, rfl, hadds', hcarried', hread', hentry⟩ := mem_requeued hmem
      -- the two reads
      have hc' : DlqChronicle calls d₀ s ([] ++ e :: (new ++ e' :: old)) := hc
      have hc'' : DlqChronicle calls d₀ s ((e :: new) ++ e' :: old) := hc
      obtain ⟨t, raw, mid, older, hes, hmid, holder⟩ := read_split hc' hadds hread
      obtain ⟨t', raw', mid', older', rfl, hmid', holder'⟩ := read_split hc'' hadds' hread'
      rw [hes, entryRead_split hmid, entryRead_split hmid'] at hentry
      have happend : (new ++ e' :: mid') ++ ⟨e'.thread, t', .hget q j, .ok (some raw')⟩ :: older' =
          mid ++ ⟨e.thread, t, .hget q j, .ok (some raw)⟩ :: older := by
        rw [← hes]
        simp
      have hmem' : e' ∈ new ++ e' :: (mid' ++ ⟨e'.thread, t', .hget q j, .ok (some raw')⟩ :: older') :=
        List.mem_append_right _ List.mem_cons_self
      -- they are calls of their own, and neither has ended in vain
      have hother : e'.thread ≠ e.thread := fun hthread => by
        rw [hes] at hmem'
        rcases List.mem_append.mp hmem' with hmem | hmem
        · exact thread_ne_of_own_nil hmid hmem hthread
        · rcases List.mem_cons.mp hmem with rfl | hmem
          · cases hadds'
          · exact thread_ne_of_own_nil holder hmem hthread
      have hvain : ∀ {x y : DlqEvent ι}, x ∈ e :: _ → y ∈ _ → y.thread = x.thread → x.command.adds = true →
          y.command.adds = true → carried x = true → carried y = false → False :=
        fun hx hy hthread hx' hy' hcarried hvain => by
          rw [adds_unique hc hx (List.mem_cons_of_mem _ hy) hthread.symm hx' hy', hvain] at hcarried
          cases hcarried
      have hreads : (⟨e'.thread, t', .hget q j, .ok (some raw')⟩ : DlqEvent ι) ≠
          ⟨e.thread, t, .hget q j, .ok (some raw)⟩ := fun heq => hother (Executed.mk.inj heq).1
      rcases split_split happend hreads with ⟨xs, rfl⟩ | ⟨xs, rfl⟩
      · -- the read of `e'` is older than the one of `e`
        rw [hes] at hc hmem' hvain
        have hlater : DlqChronicle calls d₀ s ((e :: mid) ++ ⟨e.thread, t, .hget q j, .ok (some raw)⟩ ::
            (xs ++ ⟨e'.thread, t', .hget q j, .ok (some raw')⟩ :: older')) := hc
        obtain ⟨y, hy, hthread, hyadds, hycarried⟩ := ended_of_read hlater rfl hentry
        refine hvain (List.mem_cons_of_mem _ hmem') ?_ hthread hadds' hyadds hcarried' hycarried
        exact List.mem_append_right _ (List.mem_cons_of_mem _ hy)
      · -- the read of `e` is older than the one of `e'`
        have hlater : DlqChronicle calls d₀ s ((e :: (new ++ e' :: mid')) ++
            ⟨e'.thread, t', .hget q j, .ok (some raw')⟩ ::
              (xs ++ ⟨e.thread, t, .hget q j, .ok (some raw)⟩ :: older)) := by simpa using hc
        obtain ⟨y, hy, hthread, hyadds, hycarried⟩ := ended_of_read hlater rfl hentry.symm
        exact hvain List.mem_cons_self (by simp [hy]) hthread hadds hyadds hcarried hycarried
    · exact ih hc.2.2

/-! ## Never lost -/

/-- An entry that has ended stays so until the record is stored again. -/
theorem not_waiting (hsettles : Settles calls q j e old) (hnone : ∀ x ∈ new, Stored q j x = false)
    (hadds : e.command.adds = true) : ¬ Waiting calls q j (new ++ e :: old) := by
  induction new with
  | nil =>
    obtain ⟨job, hjob⟩ := adds_eq hadds
    rintro (hstored | hwaiting)
    · simp [Stored, hjob, DlqCommand.stores] at hstored
    · exact hwaiting.1 hsettles
  | cons x new ih =>
    obtain ⟨hx, hnew⟩ := List.forall_mem_cons.mp hnone
    rintro (hstored | hwaiting)
    · rw [hx] at hstored
      cases hstored
    · exact ih hnew hwaiting.2

/-- The command deletes the record of a waiting job only by ending its entry. -/
theorem not_mem_of_hdel {js : List String} {r : Except String ℕ}
    (hc : DlqChronicle calls d₀ s es) (hnext : DlqNext (calls i) (.hdel q js) (own i es))
    (hundisturbed : Undisturbed calls i (s, es) (.hdel q js))
    (hsettles : ¬ Settles calls q j ⟨i, s, .hdel q js, r⟩ es) (hwaiting : Waiting calls q j es)
    (hcarried : s.fate.carriedOut = true) (hsome : ((s.hashes q).lookup j).isSome = true) : j ∉ js := by
  intro hj
  have hdisturbed := hundisturbed hcarried
  generalize hcall : calls i = call at hnext hdisturbed
  generalize hown : own i es = past at hnext
  cases hnext with
  | @deletes _ j' k t t' raw job u =>
    -- the recovery has ended the entry when it added the job
    obtain rfl := List.mem_singleton.mp hj
    obtain ⟨e', he', hread⟩ := hdisturbed
    obtain ⟨hthread, hcommand⟩ := readBy_iff.mp hread
    obtain ⟨new, old, rfl, hnew, -⟩ := split_of_own_cons hown
    have hthread' : k = i := by
      have hmem : (⟨k, t', .add job, .ok u⟩ : DlqEvent ι) ∈ own i (new ++ ⟨k, t', .add job, .ok u⟩ :: old) := by
        rw [hown]
        exact List.mem_cons_self
      exact (mem_own.mp hmem).2
    subst hthread'
    have hnot : e' ∉ new := fun hmem => thread_ne_of_own_nil hnew hmem hthread
    obtain ⟨hnone, hsince⟩ := since_split he' hnot
    have hold : e' ∈ sinceStored q j old := by
      have hadded : e' ∈ sinceStored q j ([⟨k, t', .add job, .ok u⟩] ++ old) := hsince
      refine (since_split hadded fun hmem => ?_).2
      rw [List.mem_singleton.mp hmem] at hcommand
      cases hcommand
    have hreply := hc.reply (List.mem_append_right new List.mem_cons_self)
    refine not_waiting (e := ⟨k, t', .add job, .ok u⟩) ⟨?_, ?_⟩ hnone rfl hwaiting
    · exact Fate.carriedOut_of_reply hreply.symm
    · rw [hcall]
      exact ⟨rfl, e', hold, hread⟩
  | removes =>
    obtain rfl := List.mem_singleton.mp hj
    refine hsettles ⟨hcarried, ?_⟩
    rw [hcall]
    exact ⟨⟨rfl, rfl⟩, by simp [DlqCommand.deletes]⟩
  | @expires now maxAge =>
    obtain ⟨raw, hraw⟩ := Option.isSome_iff_exists.mp hsome
    refine hsettles ⟨hcarried, ?_⟩
    rw [hcall]
    exact ⟨by simp [DlqCommand.deletes], raw, hraw, hdisturbed j hj raw hraw⟩

/-- The record of a waiting job is there. -/
theorem present_of_chronicle (hc : DlqChronicle calls d₀ s es) (hwaiting : Waiting calls q j es) :
    ((s.hashes q).lookup j).isSome = true := by
  induction es generalizing s with
  | nil => cases hwaiting
  | cons e es ih =>
    obtain ⟨i, t, c, r⟩ := e
    obtain ⟨hserve, ⟨hnext, hundisturbed⟩, hold⟩ := hc
    dsimp only at hserve hnext hundisturbed hold
    obtain rfl : s = (dlqServe c t).2 := (congrArg Prod.snd hserve).symm
    -- the hashes after the command
    have hhashes : ((dlqServe c t).2.hashes q) =
        if t.fate.carriedOut then (c.effect t).hashes q else t.hashes q := by
      simp only [dlqServe]
      split <;> rfl
    rw [hhashes]
    rcases hwaiting with hstored | ⟨hsettles, hwaiting⟩
    · -- the record was stored
      obtain ⟨hstores, hcarried⟩ := Bool.and_eq_true_iff.mp hstored
      have hcarried : t.fate.carriedOut = true := hcarried
      rw [if_pos hcarried]
      cases c with
      | hset q' j' raw =>
        obtain ⟨rfl, rfl⟩ := of_decide_eq_true hstores
        simp [DlqCommand.effect, lookup_set_self]
      | _ => cases hstores
    · have hsome := ih hold hwaiting
      cases hcarried : t.fate.carriedOut with
      | false => simpa using hsome
      | true =>
        rw [if_pos rfl]
        cases c with
        | hget | hgetall | add => exact hsome
        | hset q' j' raw =>
          by_cases hq : q = q'
          · subst hq
            by_cases hj : j = j'
            · subst hj
              simp [DlqCommand.effect, lookup_set_self]
            · simpa [DlqCommand.effect, lookup_set_of_ne hj] using hsome
          · simpa [DlqCommand.effect, hq] using hsome
        | hdel q' js =>
          by_cases hq : q = q'
          · subst hq
            have hj := not_mem_of_hdel hold hnext hundisturbed hsettles hwaiting hcarried hsome
            simpa [DlqCommand.effect, lookup_del hj] using hsome
          · simpa [DlqCommand.effect, hq] using hsome
        | del q' =>
          by_cases hq : q = q'
          · subst hq
            -- only `clearDLQ` clears a queue, and it ends the entry
            have hclear : calls i = .clearDLQ q := by
              generalize hcall : calls i = call at hnext
              cases hnext
              rfl
            refine absurd ⟨hcarried, ?_⟩ hsettles
            rw [hclear]
            exact ⟨rfl, by simp [DlqCommand.clears]⟩
          · simpa [DlqCommand.effect, hq] using hsome

end Past

/-! ## Runs -/

section Runs

variable [DecidableEq ι] {calls : ι → DlqCall} {d₀ : DlqStore} {is : List ι}
  {c : Config DlqCommand DlqCommand.Reply String Unit ι (DlqStore × List (DlqEvent ι))}

/-- **A dead letter is re-enqueued once, and is not lost**, when nobody else handles its record: in
every state of every run of any number of calls, whatever throws and wherever a call stops. -/
theorem requeued_once (hr : (recovering calls d₀).run (dlqMachine ι) is = some c)
    (ha : (recovering calls d₀).Admitted (dlqMachine ι) (fun i cmd s => Undisturbed calls i s cmd) is)
    (q : QueueName) (j : String) :
    (requeued q j c.shared.2).Nodup ∧
      (Waiting calls q j c.shared.2 → ((c.shared.1.hashes q).lookup j).isSome = true) := by
  obtain ⟨hc, -⟩ := chronicle_of_keeps (fun i => program_keeps (calls i) i) hr ha
  exact ⟨nodup_of_chronicle hc, present_of_chronicle hc⟩

end Runs

/-- A job that has failed for good. -/
def failedJob : BullJob where
  id := "17"
  name := "single"
  data := .obj [("swapId", .str "swap-1")]
  opts := { attempts := some 3 }
  attemptsMade := 3
  timestamp := 1000

/-- The store at the start, and how the commands go. -/
def noLetters (fates : List (Fate String)) : DlqStore := ⟨fun _ => [], [], fates⟩

/-- The job is recorded, and two recoveries, or a recovery and another record of the job. -/
def recoveries : Fin 4 → DlqCall
  | 0 => .addToDLQ failedJob (.text "slippage") .maxRetriesExceeded .swaps 2000
  | 1 => .recoverJob .swaps "17"
  | 2 => .recoverJob .swaps "17"
  | 3 => .addToDLQ failedJob (.text "slippage") .stalled .swaps 3000

/-- The first recovery cannot reach the queue, and the second one puts the job back. -/
theorem requeued_once_retried : ∃ c,
    (recovering recoveries (noLetters [.succeeds, .succeeds, .throws "Connection is closed."])).run
      (dlqMachine (Fin 4)) [0, 1, 1, 2, 2, 2] = some c ∧
    requeued .swaps "17" c.shared.2 = [1] ∧ (requeued .swaps "17" c.shared.2).Nodup := by
  have hrun : ((recovering recoveries
      (noLetters [.succeeds, .succeeds, .throws "Connection is closed."])).run
        (dlqMachine (Fin 4)) [0, 1, 1, 2, 2, 2]).any fun c => requeued .swaps "17" c.shared.2 = [1] := by
    decide +kernel
  obtain ⟨c, hc, hone⟩ := (Option.any_eq_true _ _).mp hrun
  exact ⟨c, hc, of_decide_eq_true hone, (requeued_once hc (by decide +kernel) .swaps "17").1⟩

/-- **A dead letter is re-enqueued twice**, by two recoveries that have read it before either
deletes it. **And a dead letter is lost**: it is recorded again while a recovery is between its job
and its deletion. -/
theorem requeued_twice_and_lost :
    (∃ c, (recovering recoveries (noLetters [])).run (dlqMachine (Fin 4)) [0, 1, 2, 1, 2] = some c ∧
      requeued .swaps "17" c.shared.2 = [1, 1]) ∧
    ∃ c, (recovering recoveries (noLetters [])).run (dlqMachine (Fin 4)) [0, 1, 1, 3, 1] = some c ∧
      Waiting recoveries .swaps "17" c.shared.2 ∧ (c.shared.1.hashes .swaps).lookup "17" = none := by
  constructor
  · have hrun : ((recovering recoveries (noLetters [])).run (dlqMachine (Fin 4)) [0, 1, 2, 1, 2]).any
        fun c => requeued .swaps "17" c.shared.2 = [1, 1] := by
      decide +kernel
    obtain ⟨c, hc, htwice⟩ := (Option.any_eq_true _ _).mp hrun
    exact ⟨c, hc, of_decide_eq_true htwice⟩
  · have hrun : ((recovering recoveries (noLetters [])).run (dlqMachine (Fin 4)) [0, 1, 1, 3, 1]).any
        fun c => Waiting recoveries .swaps "17" c.shared.2 ∧
          ((c.shared.1.hashes .swaps).lookup "17").isNone := by
      decide +kernel
    obtain ⟨c, hc, hlost⟩ := (Option.any_eq_true _ _).mp hrun
    obtain ⟨hwaiting, hnone⟩ := of_decide_eq_true hlost
    exact ⟨c, hc, hwaiting, Option.isNone_iff_eq_none.mp hnone⟩

end Queue
