import PeerX.Messages.Leases
import PeerX.Messages.Recovery
import Mathlib.Algebra.Order.Monoid.Submonoid
import Mathlib.Algebra.Order.Ring.Int

/-!
# Messages: sweeps and claims

Recovery sweeps and `markProcessing` calls of any number of instances, with leases that expire only
between critical sections. A message that is in `processing` without a live lease of a worker is an
orphan. Every orphan comes from the expiry of a live lease, or was there at the start, and goes with
one write of one sweep; the books balance in every state.

## Main results

* `Swept.step`: the invariant is kept by every step
* `recovered_once`: one move for each expiry, under a claim of the sweep, with one event
-/

namespace Messages

open Concurrency

/-- `markProcessing`, a recovery sweep, or the expiry of a lease. -/
def Operation.Recovers : Operation → Prop
  | .markProcessing _ | .recoverOrphanedMessages _ | .leaseExpiry _ => True
  | _ => False

instance : DecidablePred Operation.Recovers := fun o =>
  match o with
  | .markProcessing _ | .recoverOrphanedMessages _ | .leaseExpiry _ => isTrue trivial
  | .persistMessage _ _ _ _ | .renewProcessingLease _ | .acknowledgeMessage _ | .markCompleted _
  | .markFailed _ _ | .retryMessage _ | .cleanupCompletedMessages _ _ => isFalse id

theorem Operation.Recovers.not_ends {o : Operation} (h : o.Recovers) (id : MessageId) :
    ¬ o.Ends id := by
  cases o <;> first | exact not_false | exact absurd h not_false

/-! ## What a command leaves of a hash -/

/-- Only `HSET` and `DEL` change more of a hash than the attempts. -/
theorem redis_hash {c : Command} {s : Store} {m : MessageId} (hassigned : c.assigned ≠ some m)
    (hdel : c ≠ .delMessage m) :
    ∃ a, (redis c s).2.messages m = { s.messages m with attempts := a } := by
  by_cases hhash : c.hash = some m
  swap
  · exact ⟨(s.messages m).attempts, redis_messages hhash⟩
  cases c with
  | hincrbyAttempts id =>
    obtain rfl := Option.some.inj hhash
    exact ⟨_, redis_hincrby_messages⟩
  | hset id fields => exact absurd hhash hassigned
  | delMessage id => exact absurd (congrArg _ (Option.some.inj hhash)) hdel
  | _ => cases hhash

/-! ## The books -/

variable {ι : Type}

section Books

variable (calls : ι → Call) (m : MessageId)

/-- The lease of the message expires. -/
def Expires (e : RedisEvent ι) : Prop :=
  e.command = .leaseExpires m ∧ (e.before.leases m).isSome

/-- A sweep moves the message. -/
def Moves (e : RedisEvent ι) : Prop :=
  e.command.assigned = some m ∧ (calls e.thread).operation.IsSweep

/-- `markProcessing` claims the message. -/
def Claims (e : RedisEvent ι) : Prop :=
  e.command.assigned = some m ∧ (calls e.thread).operation = .markProcessing m

/-- A sweep reports that it has moved the message. -/
def Announces (e : RedisEvent ι) : Prop := e.command.announced = some m

instance : DecidablePred (Expires (ι := ι) m) := fun _ => inferInstanceAs (Decidable (_ ∧ _))

instance : DecidablePred (Moves calls m) := fun _ => inferInstanceAs (Decidable (_ ∧ _))

instance : DecidablePred (Claims calls m) := fun _ => inferInstanceAs (Decidable (_ ∧ _))

instance : DecidablePred (Announces (ι := ι) m) := fun _ => inferInstanceAs (Decidable (_ = _))

/-- How often the lease of the message has expired. -/
def expiries (es : List (RedisEvent ι)) : ℕ := es.countP fun e => Expires m e

/-- How often a sweep has moved the message. -/
def moves (es : List (RedisEvent ι)) : ℕ := es.countP fun e => Moves calls m e

/-- How often a sweep has reported the message as moved. -/
def announcements (es : List (RedisEvent ι)) : ℕ := es.countP fun e => Announces m e

/-- The claims of the message since it was last moved to `pending`. -/
def claimsSince (es : List (RedisEvent ι)) : ℕ :=
  (since (fun e => e.command.Sets m .pending) es).countP fun e => Claims calls m e

/-- The lease is live: its worker has claimed the message. -/
def Phase.Live : Phase ι → Prop
  | .live _ => True
  | _ => False

instance : DecidablePred (Phase.Live (ι := ι)) := fun p =>
  match p with
  | .live _ => isTrue trivial
  | .free | .busy _ => isFalse id

variable [DecidableEq ι]

/-- The message is in `processing` without a live lease. -/
def Orphaned (s : Store) (es : List (RedisEvent ι)) : Prop :=
  (s.messages m).status = some .processing ∧ ¬ (phase calls m es).Live

instance (s : Store) (es : List (RedisEvent ι)) : Decidable (Orphaned calls m s es) :=
  inferInstanceAs (Decidable (_ ∧ _))

/-- One, if the message is an orphan. -/
def orphans (s : Store) (es : List (RedisEvent ι)) : ℕ := if Orphaned calls m s es then 1 else 0

/-- The invariant of sweeps and claims. -/
structure Swept (d₀ : Store) (s : Store) (es : List (RedisEvent ι)) : Prop where
  leased : Leased calls m s es
  messageId : (s.messages m).messageId.isSome
  acknowledgedAt : (s.messages m).acknowledgedAt = none
  /-- A message with a live lease is in `processing`. -/
  processing : ∀ i, phase calls m es = .live i → (s.messages m).status = some .processing
  /-- The status does not change while a call is in its critical section and has not written it. -/
  steady : ∀ i new s₁ owner older, own i es = new ++ ⟨i, s₁, .setNx m owner, true⟩ :: older →
    (∀ e ∈ new, e.command.lease = none ∧ e.command.assigned = none) →
      ∀ e ∈ new, (e.before.messages m).status = (s.messages m).status
  /-- Every orphan was there at the start or comes from an expiry, and goes with a move. -/
  balance : expiries m es + orphans calls m d₀ [] = moves calls m es + orphans calls m s es
  claimed : (s.messages m).status = some .pending → claimsSince calls m es = 0
  once : claimsSince calls m es ≤ 1

end Books

section Steps

variable [DecidableEq ι] {calls : ι → Call} {m : MessageId} {d₀ s : Store} {e : RedisEvent ι}
  {es past : List (RedisEvent ι)} {i : ι}

theorem rested_of_timely (hcalls : ∀ i, (calls i).operation.Recovers) {c : Command} {t : Served ι}
    (h : Timely calls t c) : Rested calls i t c :=
  ⟨h, fun id _ hends => absurd hends ((hcalls i).not_ends id)⟩

omit [DecidableEq ι] in
theorem expiries_cons (h : ¬ Expires m e) : expiries m (e :: es) = expiries m es := by
  simp [expiries, h]

omit [DecidableEq ι] in
theorem moves_cons (h : e.command.assigned ≠ some m) : moves calls m (e :: es) = moves calls m es := by
  simp [moves, Moves, h]

omit [DecidableEq ι] in
theorem claimsSince_cons (h : e.command.assigned ≠ some m) :
    claimsSince calls m (e :: es) = claimsSince calls m es := by
  have hset : ¬ e.command.Sets m .pending := fun hs => h hs.1
  simp [claimsSince, since, hset, Claims, h]

omit [DecidableEq ι] in
/-- Nobody has claimed a message that was just moved to `pending`. -/
theorem claimsSince_of_sets (h : e.command.Sets m .pending) : claimsSince calls m (e :: es) = 0 := by
  simp only [claimsSince, since, h, decide_true, Bool.not_true, List.takeWhile_cons,
    Bool.false_eq_true, if_false, List.countP_nil]

omit [DecidableEq ι] in
theorem claimsSince_le (h : ¬ Claims calls m e) : claimsSince calls m (e :: es) ≤ claimsSince calls m es := by
  unfold claimsSince since
  rw [List.takeWhile_cons]
  split
  · rw [List.countP_cons_of_neg (by simpa using h)]
  · exact Nat.zero_le _

omit [DecidableEq ι] in
/-- A recovery that ends in `pending` writes it. -/
theorem recovery_sets_pending {message : PersistedMessage} {now : ℕ}
    (h : message.recoveredStatus = .pending) :
    (Command.hset m (message.recovery now)).Sets m .pending := by
  refine ⟨rfl, ?_⟩
  show _ ∈ message.recovery now
  unfold PersistedMessage.recovery
  unfold PersistedMessage.recoveredStatus at h
  split at h
  · next hbelow =>
    rw [if_pos hbelow]
    exact List.mem_cons_self
  · cases h

/-- A command that leaves the status alone keeps what the open sections have read. -/
theorem Swept.steady_same (h : Swept calls m d₀ e.before es)
    (hsame : (s.messages m).status = (e.before.messages m).status) :
    ∀ i new s₁ owner older, own i (e :: es) = new ++ ⟨i, s₁, .setNx m owner, true⟩ :: older →
      (∀ e ∈ new, e.command.lease = none ∧ e.command.assigned = none) →
        ∀ e ∈ new, (e.before.messages m).status = (s.messages m).status := by
  intro i new s₁ owner older hown hnew
  rw [hsame]
  by_cases hthread : e.thread = i
  · subst hthread
    rw [show own e.thread (e :: es) = e :: own e.thread es from own_cons_self ..] at hown
    cases new with
    | nil => exact fun e' he' => by cases he'
    | cons e₁ new =>
      obtain ⟨rfl, hrest⟩ := List.cons.inj hown
      obtain ⟨he, hnew⟩ := List.forall_mem_cons.mp hnew
      exact List.forall_mem_cons.mpr ⟨rfl, h.steady _ new s₁ owner older hrest hnew⟩
  · rw [own_cons_of_ne hthread] at hown
    exact h.steady i new s₁ owner older hown hnew

/-- A write in a critical section: no other section is open, and this one has written. -/
theorem Swept.steady_hset {fields : List HashField} {r : Unit} (h : Swept calls m d₀ s es)
    (hbusy : phase calls m es = .busy i) {s' : Store} :
    ∀ j new s₁ owner older,
      own j (⟨i, s, .hset m fields, r⟩ :: es) = new ++ ⟨j, s₁, .setNx m owner, true⟩ :: older →
      (∀ e ∈ new, e.command.lease = none ∧ e.command.assigned = none) →
        ∀ e ∈ new, (e.before.messages m).status = (s'.messages m).status := by
  intro j new s₁ owner older hown hnew
  by_cases hthread : i = j
  · subst hthread
    rw [own_cons_self] at hown
    cases new with
    | nil => exact fun e' he' => by cases he'
    | cons e₁ new =>
      obtain ⟨rfl, hown⟩ := List.cons.inj hown
      cases (hnew _ List.mem_cons_self).2
  · rw [own_cons_of_ne hthread] at hown
    have hholding : Holding calls m j (own j es) :=
      ⟨s₁, owner, new, older, hown, fun e he => ⟨(hnew e he).1, fun _ => (hnew e he).2⟩⟩
    have hother := h.leased.holding j hholding
    rw [hbusy] at hother
    exact absurd (Phase.busy.inj hother) hthread

/-! ## Steps -/

/-- A command that leaves the message, and whether its lease is live, as they are. -/
theorem Swept.quiet (h : Swept calls m d₀ e.before es) (hleased : Leased calls m s (e :: es))
    (hassigned : e.command.assigned ≠ some m) (hexpires : ¬ Expires m e)
    (hhash : ∃ a, s.messages m = { e.before.messages m with attempts := a })
    (hlive : ∀ i, phase calls m (e :: es) = .live i ↔ phase calls m es = .live i) :
    Swept calls m d₀ s (e :: es) := by
  obtain ⟨a, hhash⟩ := hhash
  have hstatus : (s.messages m).status = (e.before.messages m).status := by rw [hhash]
  have hphase : (phase calls m (e :: es)).Live ↔ (phase calls m es).Live := by
    cases h₁ : phase calls m (e :: es) with
    | live i => simp [Phase.Live, (hlive i).mp h₁]
    | free | busy i =>
      cases h₂ : phase calls m es with
      | live j =>
        have hj := (hlive j).mpr h₂
        rw [h₁] at hj
        cases hj
      | free | busy j => simp [Phase.Live]
  refine ⟨hleased, ?_, ?_, fun i hi => ?_, h.steady_same hstatus, ?_, fun hpending => ?_, ?_⟩
  · rw [hhash]
    exact h.messageId
  · rw [hhash]
    exact h.acknowledgedAt
  · rw [hstatus]
    exact h.processing i ((hlive i).mp hi)
  · have horphans : orphans calls m s (e :: es) = orphans calls m e.before es :=
      if_congr (by unfold Orphaned; rw [hstatus, hphase]) rfl rfl
    rw [expiries_cons hexpires, moves_cons hassigned, horphans, h.balance]
  · rw [claimsSince_cons hassigned]
    exact h.claimed (hstatus ▸ hpending)
  · rw [claimsSince_cons hassigned]
    exact h.once

theorem Swept.expires {r : Unit} (h : Swept calls m d₀ s es)
    (hleased : Leased calls m (redis (.leaseExpires m) s).2 (⟨i, s, .leaseExpires m, r⟩ :: es))
    {j : ι} (hlive : phase calls m es = .live j) :
    Swept calls m d₀ (redis (.leaseExpires m) s).2 (⟨i, s, .leaseExpires m, r⟩ :: es) := by
  have hmessages : (redis (.leaseExpires m) s).2.messages m = s.messages m := rfl
  have hphase : phase calls m (⟨i, s, .leaseExpires m, r⟩ :: es) = .free := phase_leaseExpires
  have hexpires : Expires m (⟨i, s, .leaseExpires m, r⟩ : RedisEvent ι) := by
    refine ⟨rfl, ?_⟩
    rw [h.leased.lease, hlive]
    rfl
  refine ⟨hleased, h.messageId, h.acknowledgedAt, fun i hi => ?_, h.steady_same rfl, ?_, ?_, ?_⟩
  · rw [hphase] at hi
    cases hi
  · have hbefore : orphans calls m s es = 0 := if_neg fun horphan => horphan.2 (by rw [hlive]; trivial)
    have hafter : orphans calls m (redis (.leaseExpires m) s).2 (⟨i, s, .leaseExpires m, r⟩ :: es) = 1 :=
      if_pos ⟨by rw [hmessages]; exact h.processing j hlive, by rw [hphase]; exact not_false⟩
    have hcount : expiries m (⟨i, s, .leaseExpires m, r⟩ :: es) = expiries m es + 1 := by
      simp [expiries, hexpires]
    have hbalance := h.balance
    rw [hcount, moves_cons (fun he => by cases he), hafter]
    omega
  · rw [claimsSince_cons fun he => by cases he]
    exact h.claimed
  · rw [claimsSince_cons fun he => by cases he]
    exact h.once

/-- A claim of `markProcessing`: the message was pending when the call looked, and still is. -/
theorem Swept.claims {r : Unit} {n : ℕ} {k : Option ℕ} {now : ℕ} {s₁ s₂ s₃ s₄ : Store}
    {owner : LeaseOwner} (h : Swept calls m d₀ s es)
    (hop : (calls i).operation = .markProcessing m)
    (hown : own i es = [⟨i, s₄, .hgetMaxAttempts m, k⟩, ⟨i, s₃, .hincrbyAttempts m, n⟩,
      ⟨i, s₂, .hgetStatus m, some .pending⟩, ⟨i, s₁, .setNx m owner, true⟩])
    (hreply : (s₂.messages m).status = some .pending) :
    Swept calls m d₀ (redis (.hset m [.status .processing, .updatedAt now]) s).2
      (⟨i, s, .hset m [.status .processing, .updatedAt now], r⟩ :: es) := by
  have hsweep : ¬ (calls i).operation.IsSweep := by
    rw [hop]
    exact not_false
  have hbusy : phase calls m es = .busy i := h.leased.holding i
    ⟨s₁, owner, [_, _, _], [], hown, by simp [Command.lease, Command.assigned]⟩
  have hphase : phase calls m (⟨i, s, .hset m [.status .processing, .updatedAt now], r⟩ :: es) =
      .live i := by
    rw [show r = () from rfl, phase_hset, if_pos ⟨hbusy, hsweep⟩]
  -- what the call has read is still so
  have hpending : (s.messages m).status = some .pending := by
    rw [← hreply]
    exact (h.steady i [⟨i, s₄, .hgetMaxAttempts m, k⟩, ⟨i, s₃, .hincrbyAttempts m, n⟩,
      ⟨i, s₂, .hgetStatus m, some .pending⟩] s₁ owner [] hown
      (by simp [Command.lease, Command.assigned]) ⟨i, s₂, .hgetStatus m, some .pending⟩ (by simp)).symm
  have hclaims : Claims calls m
      (⟨i, s, .hset m [.status .processing, .updatedAt now], r⟩ : RedisEvent ι) := ⟨rfl, hop⟩
  have hcount : claimsSince calls m
      (⟨i, s, .hset m [.status .processing, .updatedAt now], r⟩ :: es) = claimsSince calls m es + 1 := by
    have hset : ¬ (Command.hset m [.status .processing, .updatedAt now]).Sets m .pending := by
      simp [Command.Sets, Command.fields]
    simp only [claimsSince, since, hset, decide_false, Bool.not_false, List.takeWhile_cons, if_true,
      List.countP_cons, hclaims, decide_true]
  refine ⟨h.leased.hset, ?_, ?_, fun j hj => ?_, h.steady_hset hbusy, ?_, fun hstatus => ?_, ?_⟩
  · rw [redis_hset_messages]
    exact h.messageId
  · rw [redis_hset_messages]
    exact h.acknowledgedAt
  · rw [redis_hset_messages]
    rfl
  · -- a pending message is no orphan, nor is one with a live lease
    have hbefore : orphans calls m s es = 0 := if_neg fun horphan => by
      rw [Orphaned, hpending] at horphan
      cases horphan.1
    have hafter : orphans calls m (redis (.hset m [.status .processing, .updatedAt now]) s).2
        (⟨i, s, .hset m [.status .processing, .updatedAt now], r⟩ :: es) = 0 :=
      if_neg fun horphan => horphan.2 (by rw [hphase]; trivial)
    have hmoves : moves calls m (⟨i, s, .hset m [.status .processing, .updatedAt now], r⟩ :: es) =
        moves calls m es := by
      simp [moves, Moves, hsweep]
    rw [expiries_cons (fun he => by cases he.1), hmoves, hafter, h.balance, hbefore]
  · rw [redis_hset_messages] at hstatus
    cases hstatus
  · rw [hcount, h.claimed hpending]

/-- A move of a sweep: the message was an orphan when the sweep looked, and still is. -/
theorem Swept.moved {r : Unit} {s₁ s₂ : Store} {owner : LeaseOwner} {fields : MessageHash}
    {message : PersistedMessage} {older : List (RedisEvent ι)} (h : Swept calls m d₀ s es) (now : ℕ)
    (hop : (calls i).operation.IsSweep)
    (hown : own i es = ⟨i, s₂, .hgetall m, fields⟩ :: ⟨i, s₁, .setNx m owner, true⟩ :: older)
    (hreply : fields = s₂.messages m) (hmessage : fields.message = some message)
    (horphan : message.Orphan) :
    Swept calls m d₀ (redis (.hset m (message.recovery now)) s).2
      (⟨i, s, .hset m (message.recovery now), r⟩ :: es) := by
  have hbusy : phase calls m es = .busy i := h.leased.holding i
    ⟨s₁, owner, [_], older, hown, List.forall_mem_singleton.mpr ⟨rfl, fun _ => rfl⟩⟩
  have hphase : phase calls m (⟨i, s, .hset m (message.recovery now), r⟩ :: es) = .busy i := by
    rw [show r = () from rfl, phase_hset, if_neg fun hnot => hnot.2 hop, hbusy]
  -- what the sweep has read is still so
  have hprocessing : (s.messages m).status = some .processing := by
    rw [← h.steady i [⟨i, s₂, .hgetall m, fields⟩] s₁ owner older hown
      (List.forall_mem_singleton.mpr ⟨rfl, rfl⟩) _ (List.mem_singleton_self _), ← hreply,
      ← (MessageHash.status_of_message hmessage).1]
    exact horphan.1
  have hstatus := setAll_recovery_status message now (s.messages m)
  have hmoves : Moves calls m (⟨i, s, .hset m (message.recovery now), r⟩ : RedisEvent ι) := ⟨rfl, hop⟩
  have hclaims : ¬ Claims calls m (⟨i, s, .hset m (message.recovery now), r⟩ : RedisEvent ι) := by
    intro hclaims
    rw [hclaims.2] at hop
    exact hop
  refine ⟨h.leased.hset, ?_, ?_, fun j hj => ?_, h.steady_hset hbusy, ?_, fun hpending => ?_, ?_⟩
  · rw [redis_hset_messages, PersistedMessage.recovery]
    split <;> exact h.messageId
  · rw [redis_hset_messages, PersistedMessage.recovery]
    split <;> exact h.acknowledgedAt
  · rw [hphase] at hj
    cases hj
  · -- the move takes an orphan away
    have hbefore : orphans calls m s es = 1 :=
      if_pos ⟨hprocessing, by rw [hbusy]; exact not_false⟩
    have hafter : orphans calls m (redis (.hset m (message.recovery now)) s).2
        (⟨i, s, .hset m (message.recovery now), r⟩ :: es) = 0 := by
      refine if_neg fun horphan => ?_
      rw [Orphaned, redis_hset_messages, hstatus] at horphan
      unfold PersistedMessage.recoveredStatus at horphan
      split at horphan <;> cases horphan.1
    have hcount : moves calls m (⟨i, s, .hset m (message.recovery now), r⟩ :: es) =
        moves calls m es + 1 := by
      simp [moves, hmoves]
    have hbalance := h.balance
    rw [expiries_cons (fun he => by cases he.1), hcount, hafter]
    omega
  · -- the message was moved to `pending`, and nobody has claimed it since
    rw [redis_hset_messages, hstatus] at hpending
    exact claimsSince_of_sets (recovery_sets_pending (Option.some.inj hpending))
  · exact (claimsSince_le hclaims).trans h.once

theorem Swept.assigns {fields : List HashField} {r : Unit}
    (hcalls : ∀ i, (calls i).operation.Recovers) (h : Swept calls m d₀ s es)
    (hn : Next calls ⟨i, s, .hset m fields, r⟩ (own i es))
    (hreplies : ∀ e ∈ own i es, e.reply = (redis e.command e.before).1) :
    Swept calls m d₀ (redis (.hset m fields) s).2 (⟨i, s, .hset m fields, r⟩ :: es) := by
  have hrecovers := hcalls i
  generalize hown : own i es = past at hn
  rw [hown] at hreplies
  cases hn with
  | reads hhash => cases hhash
  | persists hop | renews hop | acknowledges hop | completes hop | fails hop | retries hop =>
    rw [hop] at hrecovers
    exact absurd hrecovers not_false
  | claims hop =>
    refine h.claims hop hown ?_
    exact (hreplies ⟨i, _, .hgetStatus m, some .pending⟩ (by simp)).symm
  | requeues hop hmessage horphan hbelow =>
    have hmoved := h.moved (r := ()) (calls i).now hop hown (hreplies _ List.mem_cons_self) hmessage horphan
    rwa [PersistedMessage.recovery, if_pos hbelow] at hmoved
  | exhausts hop hmessage horphan hbelow =>
    have hmoved := h.moved (r := ()) (calls i).now hop hown (hreplies _ List.mem_cons_self) hmessage horphan
    rwa [PersistedMessage.recovery, if_neg hbelow] at hmoved

/-- **A step keeps the invariant.** -/
theorem Swept.step (hcalls : ∀ i, (calls i).operation.Recovers) (h : Swept calls m d₀ e.before es)
    (hn : Next calls e (own e.thread es)) (hp : Timely calls (e.before, es) e.command)
    (hr : e.reply = (redis e.command e.before).1)
    (hreplies : ∀ e' ∈ own e.thread es, e'.reply = (redis e'.command e'.before).1) :
    Swept calls m d₀ (redis e.command e.before).2 (e :: es) := by
  have hends : ∀ i id, ¬ (calls i).operation.Ends id := fun i => (hcalls i).not_ends
  have hleased := h.leased.step hn (rested_of_timely hcalls hp) hr
  -- no call deletes a hash
  have hdel : e.command ≠ .delMessage m := by
    intro hdel
    obtain ⟨i, s, c, r⟩ := e
    obtain rfl : c = _ := hdel
    cases hn with
    | reads hhash => cases hhash
    | cleans hop =>
      have hrecovers := hcalls i
      rw [hop] at hrecovers
      exact hrecovers
  obtain ⟨i, s, c, r⟩ := e
  rcases c.about_cases m with ⟨hlease, hassigned⟩ | ⟨owner, rfl⟩ | rfl | rfl | ⟨fields, rfl⟩
  · refine h.quiet hleased hassigned (fun he => hlease ?_) (redis_hash hassigned hdel) fun j => ?_
    · rw [show c = _ from he.1]
      rfl
    · rw [phase_frame hlease hassigned]
  · have hassigned : (Command.setNx m owner).assigned ≠ some m := fun he => by cases he
    refine h.quiet hleased hassigned (fun he => by cases he.1) (redis_hash hassigned hdel) fun j => ?_
    cases r with
    | true =>
      -- a lease is taken when it is free
      rw [phase_setNx, h.leased.free_of_none (redis_setNx hr.symm).1]
      exact iff_of_false (fun hj => by cases hj) fun hj => by cases hj
    | false => rw [phase_setNx_refused]
  · -- only a call in its critical section deletes the lease
    have hassigned : (Command.delLease m).assigned ≠ some m := fun he => by cases he
    refine h.quiet hleased hassigned (fun he => by cases he.1) (redis_hash hassigned hdel) fun j => ?_
    have hbusy := h.leased.holding i (hn.delLease.resolve_right (hends i m))
    rw [show r = () from rfl, phase_delLease, hbusy]
    exact iff_of_false (fun hj => by cases hj) fun hj => by cases hj
  · -- an expiry leaves an orphan when the lease was live
    have hassigned : (Command.leaseExpires m).assigned ≠ some m := fun he => by cases he
    cases hphase : phase calls m es with
    | live j => exact h.expires hleased hphase
    | busy j =>
      refine absurd ?_ (hp m rfl)
      rw [hphase]
      trivial
    | free =>
      refine h.quiet hleased hassigned (fun he => ?_) (redis_hash hassigned hdel) fun j => ?_
      · have hsome := he.2
        rw [h.leased.lease, hphase] at hsome
        cases hsome
      · rw [show r = () from rfl, phase_leaseExpires, hphase]
  · exact h.assigns hcalls hn hreplies

end Steps

/-! ## Reports -/

section Reports

variable {calls : ι → Call} {m : MessageId} {e : RedisEvent ι} {past : List (RedisEvent ι)}

/-- What an executed command adds to the moves that are not reported. -/
def unreported (calls : ι → Call) (m : MessageId) (e : RedisEvent ι) : ℤ :=
  (if Moves calls m e then 1 else 0) - if Announces m e then 1 else 0

/-- One, if the sweep has just moved the message. -/
def due (o : Operation) (m : MessageId) (past : List (RedisEvent ι)) : ℤ :=
  if o.IsSweep ∧ past.head?.any fun e => e.command.assigned = some m then 1 else 0

theorem due_of_quiet {o : Operation} (h : Quiet o past) : due o m past = 0 := by
  refine if_neg fun hdue => ?_
  obtain ⟨e, he, hassigned⟩ := Option.any_eq_true _ _ |>.mp hdue.2
  rw [h hdue.1 e he] at hassigned
  exact absurd (of_decide_eq_true hassigned) (fun hne => by cases hne)

theorem due_nonneg (o : Operation) (m : MessageId) (past : List (RedisEvent ι)) : 0 ≤ due o m past := by
  unfold due
  split <;> decide

/-- A command that is no move and no report, while no report is due. -/
theorem unreported_quiet (hmoves : ¬ Moves calls m e) (hannounces : ¬ Announces m e)
    (hbefore : Quiet (calls e.thread).operation past)
    (hafter : Quiet (calls e.thread).operation (e :: past)) :
    unreported calls m e + due (calls e.thread).operation m past =
      due (calls e.thread).operation m (e :: past) := by
  rw [due_of_quiet hbefore, due_of_quiet hafter, unreported, if_neg hmoves, if_neg hannounces]
  rfl

/-- A move is reported by the next command of the sweep, and nothing else is. -/
theorem unreported_step (h : Next calls e past) :
    unreported calls m e + due (calls e.thread).operation m past =
      due (calls e.thread).operation m (e :: past) := by
  obtain ⟨i, s, c, r⟩ := e
  -- an operation that is no sweep
  have hother : ¬ (calls i).operation.IsSweep → c.announced = none →
      unreported calls m ⟨i, s, c, r⟩ + due (calls i).operation m past =
        due (calls i).operation m (⟨i, s, c, r⟩ :: past) := fun hsweep hannounced =>
    unreported_quiet (fun hmoves => hsweep hmoves.2)
      (fun hannounces => Option.some_ne_none m (hannounces.symm.trans hannounced))
      (quiet_of_not_sweep hsweep _) (quiet_of_not_sweep hsweep _)
  cases h with
  | reads hhash _ _ hannounced hquiet =>
    have hassigned : c.assigned = none := by
      cases c with
      | hset id fields => cases hhash
      | _ => rfl
    refine unreported_quiet (fun hmoves => ?_) (fun hannounces => ?_) hquiet
      (quiet_cons hassigned _)
    · exact Option.some_ne_none m (hmoves.1.symm.trans hassigned)
    · exact Option.some_ne_none m (hannounces.symm.trans hannounced)
  | persists hop | lists hop | takes hop | gives hop | counts hop | claims hop | renews hop
  | acknowledges hop | completes hop | fails hop | retries hop | cleans hop | unlists hop
  | expires hop => exact hother (by rw [hop]; exact not_false) rfl
  | deletes hends => exact hother hends.not_isSweep rfl
  | recovers hop hquiet =>
    exact unreported_quiet (fun hmoves => by cases hmoves.1) (fun hannounces => by cases hannounces)
      hquiet (quiet_cons rfl _)
  | drops hop hnew hquiet hne =>
    refine unreported_quiet (fun hmoves => by cases hmoves.1) (fun hannounces => by cases hannounces)
      (fun hsweep e he => hquiet hsweep e ?_) (quiet_cons rfl _)
    rwa [List.head?_append_of_ne_nil _ hne] at he
  | requeues hop | exhausts hop =>
    simp [unreported, due, Moves, Announces, Command.announced, Command.assigned, hop]
  | announces hop hevent =>
    simp only [unreported, due, Moves, Announces, hevent, hop, List.head?_cons, Option.any_some,
      Command.assigned, true_and, and_true, reduceCtorEq, if_false, decide_false, Bool.false_eq_true]
    split
    · next hid => simp [hid]
    · next hid => simp [hid]

end Reports

/-! ## Runs -/

section Runs

variable [DecidableEq ι] {calls : ι → Call} {d₀ s : Store} {m : MessageId} {is : List ι}
  {es : List (RedisEvent ι)}

omit [DecidableEq ι] in
theorem sum_unreported (es : List (RedisEvent ι)) :
    (es.map (unreported calls m)).sum = (moves calls m es : ℤ) - announcements m es := by
  induction es with
  | nil => rfl
  | cons e es ih =>
    rw [List.map_cons, List.sum_cons, ih]
    simp only [unreported, moves, announcements, List.countP_cons, decide_eq_true_eq]
    split <;> split <;> omega

/-- The sweeps have reported their moves, but for those that are due. -/
theorem sum_own_unreported
    (hc : Chronicle redis (fun e es => Next calls e (own e.thread es)) d₀ s es) (i : ι) :
    ((own i es).map (unreported calls m)).sum = due (calls i).operation m (own i es) := by
  refine hc.invariant (I := fun _ es => ∀ i, ((own i es).map (unreported calls m)).sum =
    due (calls i).operation m (own i es)) (fun i => (due_of_quiet (quiet_nil _)).symm) ?_ i
  intro e es _ h hok _ i
  by_cases hthread : e.thread = i
  · subst hthread
    rw [show own e.thread (e :: es) = e :: own e.thread es from own_cons_self .., List.map_cons,
      List.sum_cons, h]
    exact unreported_step hok
  · rw [own_cons_of_ne hthread]
    exact h i

/-- The invariant holds in every state of a run of sweeps and claims. -/
theorem swept_of_chronicle (hcalls : ∀ i, (calls i).operation.Recovers)
    (hfree : d₀.leases m = none) (hid : (d₀.messages m).messageId.isSome)
    (hack : (d₀.messages m).acknowledgedAt = none)
    (hc : Chronicle redis (fun e es => Next calls e (own e.thread es) ∧
      Timely calls (e.before, es) e.command) d₀ s es) : Swept calls m d₀ s es := by
  refine hc.invariant (I := fun s es => Swept calls m d₀ s es) ?_ ?_
  · refine ⟨leased_nil hfree, hid, hack, fun i hi => (by cases hi), ?_, rfl, fun _ => rfl,
      Nat.zero_le 1⟩
    rintro i new s₁ owner older hown
    cases new <;> cases hown
  · intro e es hc h hok hr
    exact h.step hcalls hok.1 hok.2 hr fun e' he' => hc.reply (mem_own.mp he').1

/-- What sweeps and claims do to a message, in a state of a run. -/
structure RecoveredOnce (calls : ι → Call) (m : MessageId) (d₀ : Store)
    (c : Config Command Command.Reply Empty Result ι (Served ι)) : Prop where
  /-- One move for each expiry of a live lease and for an orphan at the start. -/
  balance : expiries m c.shared.2 + orphans calls m d₀ [] =
    moves calls m c.shared.2 + orphans calls m c.shared.1 c.shared.2
  /-- The sweep holds the lease of the message that it moves. -/
  claimed : ∀ e ∈ c.shared.2, Moves calls m e →
    e.before.leases m = some (.recovery (calls e.thread).this.instanceId)
  /-- One claim at most since the message was last moved to `pending`. -/
  once : claimsSince calls m c.shared.2 ≤ 1
  /-- A `markProcessing` call that has returned `true` has claimed the message. -/
  answered : ∀ i, (calls i).operation = .markProcessing m → c.threads i = .ret (.answered true) →
    ∃ e ∈ own i c.shared.2, Claims calls m e
  /-- One event at most for each move, and exactly one when no sweep is about to emit it. -/
  announced : announcements m c.shared.2 ≤ moves calls m c.shared.2
  reported : (∀ i, Quiet (calls i).operation (own i c.shared.2)) →
    announcements m c.shared.2 = moves calls m c.shared.2
  /-- The next sweep moves an orphan whose lease is gone. -/
  next : (c.shared.1.messages m).status = some .processing → c.shared.1.leases m = none →
    ∃ message, c.shared.1.Stuck m message ∧ ∀ this now scanned, m ∈ scanned →
      (((recoverOrphanedMessages this now scanned).eval redis c.shared.1).2.messages m).status =
        some message.recoveredStatus

/-- **Exactly one move for each expiry.** Any number of instances run sweeps and `markProcessing`
calls, and no lease expires between the `SET NX` of a caller and its last command. -/
theorem recovered_once {c : Config Command Command.Reply Empty Result ι (Served ι)}
    (hcalls : ∀ i, (calls i).operation.Recovers) (hfree : d₀.leases m = none)
    (hid : (d₀.messages m).messageId.isSome) (hack : (d₀.messages m).acknowledgedAt = none)
    (hr : (serving calls d₀).run (redisMachine ι) is = some c)
    (ha : (serving calls d₀).Admitted (redisMachine ι) (fun _ cmd s => Timely calls s cmd) is) :
    RecoveredOnce calls m d₀ c := by
  obtain ⟨hc, hall⟩ := chronicle_serving hr ha
  have hswept := swept_of_chronicle hcalls hfree hid hack hc
  have hsum : (c.shared.2.map (unreported calls m)).sum = _ := sum_unreported c.shared.2
  have hdue : ∀ i, ((own i c.shared.2).map (unreported calls m)).sum = _ :=
    sum_own_unreported (hc.mono fun _ _ hok => hok.1)
  refine ⟨hswept.balance, fun e he hmoves => ?_, hswept.once, fun i hop hret => ?_, ?_, fun hquiet => ?_,
    fun hprocessing hlease => ?_⟩
  · -- whoever moves the message held its lease before: look at the chronicle up to that write
    obtain ⟨new, old, hes⟩ := List.append_of_mem he
    rw [hes] at hc
    obtain ⟨hold, hok, -⟩ := hc.before
    have hleased := (swept_of_chronicle hcalls hfree hid hack hold).leased
    obtain ⟨i, s, cmd, r⟩ := e
    cases cmd with
    | hset id fields =>
      obtain rfl : id = m := Option.some.inj hmoves.1
      have hbusy := hleased.holding i (hok.1.hset.resolve_right fun hnot => hnot.2 hmoves.2)
      rw [hleased.lease, hbusy]
      exact congrArg some (if_pos hmoves.2)
    | _ => cases hmoves.1
  · have hanswered := hall i
    rw [hret] at hanswered
    obtain ⟨e, he, hassigned⟩ := hanswered rfl m (by rw [hop]; rfl)
    exact ⟨e, he, hassigned, by rw [(mem_own.mp he).2]; exact hop⟩
  · -- every call owes a nonnegative number of reports
    have hnonneg : (c.shared.2.map (unreported calls m)).sum ∈ AddSubmonoid.nonneg ℤ :=
      sum_mem_of_own _ _ fun i => AddSubmonoid.mem_nonneg.mpr (by rw [hdue i]; exact due_nonneg ..)
    have hle := AddSubmonoid.mem_nonneg.mp hnonneg
    omega
  · have hzero : (c.shared.2.map (unreported calls m)).sum = 0 :=
      sum_eq_zero_of_own _ fun i => (hdue i).trans (due_of_quiet (hquiet i))
    omega
  · obtain ⟨message, hstuck⟩ :=
      stuck_of_status hswept.messageId hprocessing hswept.acknowledgedAt hlease
    exact ⟨message, hstuck, fun this now _ hmem => eval_recoverOrphanedMessages this now hstuck hmem⟩

end Runs

/-- A worker whose lease expires, and two sweeps. -/
def crashed : Fin 4 → Call
  | 0 => ⟨{ instanceId := 1 }, 10, .markProcessing 7⟩
  | 1 => ⟨{ instanceId := 1 }, 40, .leaseExpiry 7⟩
  | 2 => ⟨{ instanceId := 2 }, 50, .recoverOrphanedMessages [7]⟩
  | 3 => ⟨{ instanceId := 3 }, 50, .recoverOrphanedMessages [7]⟩

/-- Both sweeps see the orphan, and one of them moves it. -/
theorem recovered_once_crashed : ∃ c, (serving crashed (stored 7 "orders" 3)).run (redisMachine (Fin 4))
      ([0, 0, 0, 0, 0, 1] ++ [2, 2, 3, 3, 2, 3] ++ [2, 2, 2, 2]) = some c ∧
    RecoveredOnce crashed 7 (stored 7 "orders" 3) c ∧ moves crashed 7 c.shared.2 = 1 := by
  have hrun : ((serving crashed (stored 7 "orders" 3)).run (redisMachine (Fin 4))
      ([0, 0, 0, 0, 0, 1] ++ [2, 2, 3, 3, 2, 3] ++ [2, 2, 2, 2])).any
        fun c => moves crashed 7 c.shared.2 = 1 := by
    decide +kernel
  obtain ⟨c, hc, hmoves⟩ := (Option.any_eq_true _ _).mp hrun
  exact ⟨c, hc, recovered_once (by decide) rfl rfl rfl hc (by decide +kernel),
    of_decide_eq_true hmoves⟩

end Messages
