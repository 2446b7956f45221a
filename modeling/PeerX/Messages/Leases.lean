import PeerX.Messages.Calls

/-!
# Messages: who holds a lease

The lease of a message is free, or it is taken by a call that has not done its last command under
it, or it is the live lease of a worker. In a run in which a lease does not expire under the call
that has just taken it, and in which `acknowledgeMessage`, `markCompleted`, `markFailed` and
`retryMessage` write only while the message has no lease or that of their own instance, this is what
the lease key says, and the calls that take leases are critical sections.
-/

namespace Messages

open Concurrency

/-- The value of the lease that a call takes. -/
def Call.owner (c : Call) : LeaseOwner :=
  if c.operation.IsSweep then .recovery c.this.instanceId else .worker c.this.instanceId

/-- Where the lease of a message is: nowhere, with a call in its critical section, or with the
worker of a call that has returned `true`. -/
inductive Phase (ι : Type) : Type
  | free
  | busy (i : ι)
  | live (i : ι)
deriving DecidableEq

variable {ι : Type}

/-- A call is in its critical section. -/
def Phase.Busy : Phase ι → Prop
  | .busy _ => True
  | _ => False

instance : DecidablePred (Phase.Busy (ι := ι)) := fun p =>
  match p with
  | .busy _ => isTrue trivial
  | .free | .live _ => isFalse id

/-- The lease is free, or it is the live lease of the instance. -/
def Phase.Admits (calls : ι → Call) (i : ι) : Phase ι → Prop
  | .free => True
  | .busy _ => False
  | .live j => (calls j).this.instanceId = (calls i).this.instanceId

instance (calls : ι → Call) (i : ι) : DecidablePred (Phase.Admits calls i) := fun p =>
  match p with
  | .free => isTrue trivial
  | .busy _ => isFalse id
  | .live j => inferInstanceAs (Decidable ((calls j).this.instanceId = (calls i).this.instanceId))

/-- The lease key in a phase. -/
def Phase.lease (calls : ι → Call) : Phase ι → Option LeaseOwner
  | .free => none
  | .busy i | .live i => some (calls i).owner

section Phases

variable [DecidableEq ι] (calls : ι → Call) (m : MessageId)

/-- What an executed command does to the phase. -/
def Phase.after (e : RedisEvent ι) (p : Phase ι) : Phase ι :=
  match e with
  | ⟨i, _, .setNx id _, claimed⟩ => if id = m ∧ claimed = true then .busy i else p
  | ⟨_, _, .delLease id, _⟩ | ⟨_, _, .leaseExpires id, _⟩ => if id = m then .free else p
  | ⟨i, _, .hset id _, _⟩ =>
    if id = m ∧ p = .busy i ∧ ¬ (calls i).operation.IsSweep then .live i else p
  | _ => p

/-- The phase of a message after the executed commands. -/
def phase : List (RedisEvent ι) → Phase ι
  | [] => .free
  | e :: es => Phase.after calls m e (phase es)

/-- A lease does not expire while a call is between its `SET NX` and its last command. -/
def Timely (s : Served ι) (c : Command) : Prop := ∀ id ∈ c.expired, ¬ (phase calls id s.2).Busy

instance (s : Served ι) : DecidablePred (Timely calls s) := fun c =>
  inferInstanceAs (Decidable (∀ id ∈ c.expired, ¬ (phase calls id s.2).Busy))

/-- A run without late steps: leases are timely, and the operations that end the processing of a
message write only while it has no lease or a live one of their own instance. -/
def Rested (i : ι) (s : Served ι) (c : Command) : Prop :=
  Timely calls s c ∧ ∀ id ∈ c.assigned.or c.released,
    (calls i).operation.Ends id → (phase calls id s.2).Admits calls i

instance (i : ι) (s : Served ι) : DecidablePred (Rested calls i s) := fun c =>
  inferInstanceAs (Decidable (Timely calls s c ∧ ∀ id ∈ c.assigned.or c.released,
    (calls i).operation.Ends id → (phase calls id s.2).Admits calls i))

end Phases

section Steps

variable [DecidableEq ι] {calls : ι → Call} {m : MessageId} {e : RedisEvent ι}
  {es past : List (RedisEvent ι)} {i : ι} {s : Store}

theorem phase_frame (hlease : e.command.lease ≠ some m) (hassigned : e.command.assigned ≠ some m) :
    phase calls m (e :: es) = phase calls m es := by
  obtain ⟨i, s, c, r⟩ := e
  cases c with
  | setNx id owner => exact if_neg fun h => hlease (congrArg some h.1)
  | delLease id => exact if_neg fun h => hlease (congrArg some h)
  | leaseExpires id => exact if_neg fun h => hlease (congrArg some h)
  | hset id fields => exact if_neg fun h => hassigned (congrArg some h.1)
  | _ => rfl

@[simp] theorem phase_setNx {owner : LeaseOwner} :
    phase calls m (⟨i, s, .setNx m owner, true⟩ :: es) = .busy i :=
  if_pos ⟨rfl, rfl⟩

@[simp] theorem phase_setNx_refused {owner : LeaseOwner} :
    phase calls m (⟨i, s, .setNx m owner, false⟩ :: es) = phase calls m es :=
  if_neg fun h => by cases h.2

@[simp] theorem phase_delLease : phase calls m (⟨i, s, .delLease m, ()⟩ :: es) = .free := if_pos rfl

@[simp] theorem phase_leaseExpires :
    phase calls m (⟨i, s, .leaseExpires m, ()⟩ :: es) = .free := if_pos rfl

theorem phase_hset {fields : List HashField} :
    phase calls m (⟨i, s, .hset m fields, ()⟩ :: es) =
      if phase calls m es = .busy i ∧ ¬ (calls i).operation.IsSweep then .live i
      else phase calls m es := by
  simp [phase, Phase.after]

/-- A call is in its critical section: it has taken the lease, and has neither given it back
nor, as `markProcessing`, written the hash. -/
def Holding (calls : ι → Call) (m : MessageId) (i : ι) (past : List (RedisEvent ι)) : Prop :=
  ∃ s owner new older, past = new ++ ⟨i, s, .setNx m owner, true⟩ :: older ∧
    ∀ e ∈ new, e.command.lease = none ∧
      (¬ (calls i).operation.IsSweep → e.command.assigned = none)

omit [DecidableEq ι] in
/-- A command under the lease keeps the call in its critical section. -/
theorem Holding.of_cons (h : Holding calls m i (e :: past)) (hlease : e.command.lease ≠ some m) :
    Holding calls m i past ∧ (¬ (calls i).operation.IsSweep → e.command.assigned = none) := by
  obtain ⟨s, owner, new, older, hpast, hnew⟩ := h
  cases new with
  | nil =>
    obtain ⟨rfl, -⟩ := List.cons.inj hpast
    exact absurd rfl hlease
  | cons e' new =>
    obtain ⟨rfl, rfl⟩ := List.cons.inj hpast
    obtain ⟨he, hnew⟩ := List.forall_mem_cons.mp hnew
    exact ⟨⟨s, owner, new, older, rfl, hnew⟩, he.2⟩

omit [DecidableEq ι] in
/-- A call that has just done a lease command holds the lease only when it has taken it. -/
theorem Holding.taken {c : Command} {r : c.Reply} (h : Holding calls m i (⟨i, s, c, r⟩ :: past))
    (hlease : c.lease = some m) :
    ∃ owner, (⟨i, s, c, r⟩ : RedisEvent ι) = ⟨i, s, .setNx m owner, true⟩ := by
  obtain ⟨s', owner, new, older, hpast, hnew⟩ := h
  cases new with
  | nil =>
    obtain ⟨he, -⟩ := List.cons.inj hpast
    cases he
    exact ⟨owner, rfl⟩
  | cons e' new =>
    obtain ⟨rfl, rfl⟩ := List.cons.inj hpast
    exact absurd (hnew _ List.mem_cons_self).1 (by rw [hlease]; exact Option.some_ne_none m)

omit [DecidableEq ι] in
theorem Next.setNx {owner : LeaseOwner} {r : Bool} (h : Next calls ⟨i, s, .setNx m owner, r⟩ past) :
    owner = (calls i).owner ∧
      ((calls i).operation = .markProcessing m ∨ (calls i).operation.IsSweep) := by
  cases h with
  | reads _ hlease => cases hlease
  | takes h =>
    refine ⟨?_, .inl h⟩
    unfold Call.owner
    rw [if_neg (by rw [h]; exact not_false)]
  | recovers h => exact ⟨(if_pos h).symm, .inr h⟩

omit [DecidableEq ι] in
/-- A lease is deleted by a call in its critical section, or at the end of an operation. -/
theorem Next.delLease {r : Unit} (h : Next calls ⟨i, s, .delLease m, r⟩ past) :
    Holding calls m i past ∨ (calls i).operation.Ends m := by
  cases h with
  | reads _ hlease => cases hlease
  | gives h =>
    refine .inl ⟨_, _, [_], [], rfl, List.forall_mem_singleton.mpr ⟨rfl, fun _ => rfl⟩⟩
  | deletes h => exact .inr h
  | drops h hnew => exact .inl ⟨_, _, _, _, rfl, fun e he => ⟨hnew e he, absurd h⟩⟩

omit [DecidableEq ι] in
/-- A hash is written by `markProcessing` and by a sweep in a critical section only. -/
theorem Next.hset {fields : List HashField} {r : Unit}
    (h : Next calls ⟨i, s, .hset m fields, r⟩ past) :
    Holding calls m i past ∨
      (calls i).operation ≠ .markProcessing m ∧ ¬ (calls i).operation.IsSweep := by
  cases h with
  | reads hhash => cases hhash
  | persists h | renews h | acknowledges h | completes h | fails h | retries h =>
    exact .inr (by simp [h, Operation.IsSweep])
  | claims h => exact .inl ⟨_, _, [_, _, _], [], rfl, by simp [Command.lease, Command.assigned]⟩
  | requeues h | exhausts h =>
    exact .inl ⟨_, _, [_], _, rfl, List.forall_mem_singleton.mpr ⟨rfl, fun _ => rfl⟩⟩

/-- The lease of a message is where the phase says, and a call in its critical section is the
one that holds it. -/
structure Leased (calls : ι → Call) (m : MessageId) (s : Store) (es : List (RedisEvent ι)) : Prop where
  lease : s.leases m = (phase calls m es).lease calls
  busy : ∀ i, phase calls m es = .busy i →
    (calls i).operation = .markProcessing m ∨ (calls i).operation.IsSweep
  live : ∀ i, phase calls m es = .live i → (calls i).operation = .markProcessing m
  holding : ∀ i, Holding calls m i (own i es) → phase calls m es = .busy i

theorem Leased.free_of_none (h : Leased calls m s es) (hnone : s.leases m = none) :
    phase calls m es = .free := by
  have hlease := h.lease
  rw [hnone] at hlease
  cases hphase : phase calls m es with
  | free => rfl
  | busy i | live i =>
    rw [hphase] at hlease
    cases hlease

theorem leased_nil {d₀ : Store} (h : d₀.leases m = none) : Leased calls m d₀ [] where
  lease := h
  busy := fun i hi => by cases hi
  live := fun i hi => by cases hi
  holding := by
    rintro i ⟨s, owner, new, older, hpast, -⟩
    cases new <;> cases hpast

/-- A command that leaves the lease and the phase alone, by a call that holds the lease only if it
did before. -/
theorem Leased.kept {s' : Store} (h : Leased calls m s es) (hlease : s'.leases m = s.leases m)
    (hphase : phase calls m (e :: es) = phase calls m es)
    (hholding : Holding calls m e.thread (e :: own e.thread es) → Holding calls m e.thread (own e.thread es)) :
    Leased calls m s' (e :: es) := by
  refine ⟨?_, ?_, ?_, fun i hi => ?_⟩
  · rw [hlease, hphase]
    exact h.lease
  · rw [hphase]
    exact h.busy
  · rw [hphase]
    exact h.live
  rw [hphase]
  by_cases hthread : e.thread = i
  · subst hthread
    rw [show own e.thread (e :: es) = e :: own e.thread es from own_cons_self ..] at hi
    exact h.holding _ (hholding hi)
  · rw [own_cons_of_ne hthread] at hi
    exact h.holding _ hi

theorem Leased.frame (h : Leased calls m e.before es) (hlease : e.command.lease ≠ some m)
    (hassigned : e.command.assigned ≠ some m) :
    Leased calls m (redis e.command e.before).2 (e :: es) := by
  exact h.kept (redis_leases hlease) (phase_frame hlease hassigned) fun hi => (hi.of_cons hlease).1

/-- A lease that is asked for: it is taken when it is free, and refused otherwise. -/
theorem Leased.setNx {owner : LeaseOwner} {r : Bool} (h : Leased calls m s es)
    (hn : Next calls ⟨i, s, .setNx m owner, r⟩ (own i es)) (hr : r = (redis (.setNx m owner) s).1) :
    Leased calls m (redis (.setNx m owner) s).2 (⟨i, s, .setNx m owner, r⟩ :: es) := by
  obtain ⟨howner, hkind⟩ := hn.setNx
  cases r with
  | true =>
    obtain ⟨hnone, hsome⟩ := redis_setNx hr.symm
    refine ⟨?_, ?_, ?_, fun j hj => ?_⟩
    · rw [phase_setNx, hsome, howner]
      rfl
    · rw [phase_setNx]
      rintro j ⟨⟩
      exact hkind
    · rw [phase_setNx]
      rintro j ⟨⟩
    rw [phase_setNx]
    by_cases hthread : i = j
    · rw [hthread]
    · -- the lease was free, so no other call holds it
      rw [own_cons_of_ne hthread] at hj
      cases (h.holding j hj).symm.trans (h.free_of_none hnone)
  | false =>
    obtain ⟨-, hsame⟩ := redis_setNx_refused hr.symm
    rw [hsame]
    refine h.kept rfl phase_setNx_refused fun hj => ?_
    obtain ⟨_, he⟩ := hj.taken rfl
    cases he

/-- A command that frees the lease, by the call that holds it or while no call does. -/
theorem Leased.freed {c : Command} {r : c.Reply} (h : Leased calls m s es)
    (hc : c = .delLease m ∨ c = .leaseExpires m)
    (hbusy : ∀ j, phase calls m es = .busy j → j = i) :
    Leased calls m (redis c s).2 (⟨i, s, c, r⟩ :: es) := by
  have hfree : phase calls m (⟨i, s, c, r⟩ :: es) = .free ∧ (redis c s).2.leases m = none ∧
      c.lease = some m ∧ ∀ owner, c ≠ .setNx m owner := by
    rcases hc with rfl | rfl
    · exact ⟨phase_delLease, redis_delLease_leases, rfl, fun _ he => by cases he⟩
    · exact ⟨phase_leaseExpires, redis_leaseExpires_leases, rfl, fun _ he => by cases he⟩
  obtain ⟨hphase, hnone, hlease, hne⟩ := hfree
  refine ⟨?_, ?_, ?_, fun j hj => ?_⟩
  · rw [hphase, hnone]
    rfl
  · rw [hphase]
    rintro j ⟨⟩
  · rw [hphase]
    rintro j ⟨⟩
  by_cases hthread : i = j
  · subst hthread
    rw [own_cons_self] at hj
    obtain ⟨owner, he⟩ := hj.taken hlease
    exact absurd (congrArg Executed.command he) (hne owner)
  · rw [own_cons_of_ne hthread] at hj
    exact absurd (hbusy j (h.holding j hj)).symm hthread

theorem Leased.hset {fields : List HashField} {r : Unit} (h : Leased calls m s es) :
    Leased calls m (redis (.hset m fields) s).2 (⟨i, s, .hset m fields, r⟩ :: es) := by
  have hlease : (redis (.hset m fields) s).2.leases m = s.leases m := rfl
  by_cases hclaim : phase calls m es = .busy i ∧ ¬ (calls i).operation.IsSweep
  · -- the claim ends the critical section, and the lease is live
    obtain ⟨hbusy, hsweep⟩ := hclaim
    have hphase : phase calls m (⟨i, s, .hset m fields, r⟩ :: es) = .live i := by
      rw [show r = () from rfl, phase_hset, if_pos ⟨hbusy, hsweep⟩]
    refine ⟨?_, ?_, ?_, fun j hj => ?_⟩
    · rw [hphase, hlease, h.lease, hbusy]
      rfl
    · rw [hphase]
      rintro j ⟨⟩
    · rw [hphase]
      rintro j ⟨⟩
      exact (h.busy i hbusy).resolve_right hsweep
    by_cases hthread : i = j
    · subst hthread
      rw [own_cons_self] at hj
      cases (hj.of_cons (fun he => by cases he)).2 hsweep
    · rw [own_cons_of_ne hthread] at hj
      have hother := h.holding j hj
      rw [hbusy] at hother
      exact absurd (Phase.busy.inj hother) hthread
  · have hphase : phase calls m (⟨i, s, .hset m fields, r⟩ :: es) = phase calls m es := by
      rw [show r = () from rfl, phase_hset, if_neg hclaim]
    exact h.kept hlease hphase fun hj => (hj.of_cons fun he => by cases he).1

/-- A step keeps the lease where the phase says. -/
theorem Leased.step (h : Leased calls m e.before es) (hn : Next calls e (own e.thread es))
    (hp : Rested calls e.thread (e.before, es) e.command)
    (hr : e.reply = (redis e.command e.before).1) :
    Leased calls m (redis e.command e.before).2 (e :: es) := by
  obtain ⟨i, s, c, r⟩ := e
  rcases c.about_cases m with ⟨hlease, hassigned⟩ | ⟨owner, rfl⟩ | rfl | rfl | ⟨fields, rfl⟩
  · exact h.frame hlease hassigned
  · exact h.setNx hn hr
  · refine h.freed (.inl rfl) fun j hj => ?_
    rcases hn.delLease with hholding | hends
    · exact Phase.busy.inj (hj.symm.trans (h.holding i hholding))
    · have hadmits := hp.2 m rfl hends
      rw [hj] at hadmits
      exact absurd hadmits not_false
  · -- a lease does not expire in a critical section
    refine h.freed (.inr rfl) fun j hj => absurd ?_ (hp.1 m rfl)
    rw [hj]
    trivial
  · exact h.hset

/-- The lease is where the phase says, in every state of a run without late steps. -/
theorem leased_of_chronicle {d₀ : Store} (hfree : d₀.leases m = none)
    (hc : Chronicle redis (fun e es => Next calls e (own e.thread es) ∧
      Rested calls e.thread (e.before, es) e.command) d₀ s es) : Leased calls m s es :=
  hc.invariant (I := fun s es => Leased calls m s es) (leased_nil hfree)
    fun _ _ _ h hok hr => h.step hok.1 hok.2 hr

end Steps

end Messages
