import PeerX.Messages.Leases

/-!
# Messages: live claims

A worker that has claimed a message holds a live claim until its lease expires or its own instance
deletes it. Four operations delete the lease without a look at its owner, so a late one of an
earlier holder, or one of any other instance, takes the message from its worker. Where they write
only while the message has no lease or one of their own instance, there is one live claim at most
and it keeps the message.
-/

namespace Messages

open Concurrency

/-- The command moves the message to `pending` or to `processing`. -/
def Command.Hands (m : MessageId) (c : Command) : Prop := c.Sets m .pending ∨ c.Sets m .processing

/-- The calls of a phase that hold a live claim. -/
def Phase.claims {ι : Type} : Phase ι → List ι
  | .live i => [i]
  | .free | .busy _ => []

variable {ι : Type}

section Claims

variable (calls : ι → Call) (m : MessageId)

/-- The calls that hold a live claim: `markProcessing` has claimed the message, the lease has
not expired, and the instance has not deleted it. -/
def liveClaims : List (RedisEvent ι) → List ι
  | [] => []
  | e :: es =>
    match e with
    | ⟨i, _, .hset id _, _⟩ =>
      if id = m ∧ (calls i).operation = .markProcessing m then i :: liveClaims es else liveClaims es
    | ⟨i, _, .delLease id, _⟩ =>
      if id = m then
        (liveClaims es).filter fun j => (calls j).this.instanceId ≠ (calls i).this.instanceId
      else liveClaims es
    | ⟨_, _, .leaseExpires id, _⟩ => if id = m then [] else liveClaims es
    | _ => liveClaims es

/-- No lease is taken from its holder. -/
structure Kept (es : List (RedisEvent ι)) : Prop where
  /-- A lease is removed by its expiry, or by a call that holds it. -/
  removed : ∀ e ∈ es, ∀ owner, e.before.leases m = some owner →
    (redis e.command e.before).2.leases m ≠ some owner →
      e.command = .leaseExpires m ∨ owner = (calls e.thread).owner
  /-- At most one worker holds a live claim. -/
  unique : (liveClaims calls m es).length ≤ 1
  /-- A message with a live claim is not re-queued and not handed to another instance. -/
  kept : ∀ new e old, es = new ++ e :: old → e.command.Hands m → ∀ i ∈ liveClaims calls m old,
    (calls i).this.instanceId = (calls e.thread).this.instanceId

end Claims

section Steps

variable [DecidableEq ι] {calls : ι → Call} {m : MessageId} {e : RedisEvent ι}
  {es past : List (RedisEvent ι)} {i : ι} {s : Store}

omit [DecidableEq ι] in
/-- The lease of a worker is deleted at the end of an operation by its own instance only. -/
theorem owner_of_ends (hends : (calls i).operation.Ends m) {j : ι}
    (hj : (calls j).operation = .markProcessing m)
    (hsame : (calls j).this.instanceId = (calls i).this.instanceId) :
    (calls j).owner = (calls i).owner := by
  unfold Call.owner
  rw [if_neg hends.not_isSweep, if_neg (by rw [hj]; exact not_false), hsame]

/-- A step removes no lease of another call. -/
theorem Leased.removed {owner : LeaseOwner} (h : Leased calls m e.before es)
    (hn : Next calls e (own e.thread es)) (hp : Rested calls e.thread (e.before, es) e.command)
    (hsome : e.before.leases m = some owner)
    (hgone : (redis e.command e.before).2.leases m ≠ some owner) :
    e.command = .leaseExpires m ∨ owner = (calls e.thread).owner := by
  by_cases habout : e.command.lease = some m
  swap
  · exact absurd ((redis_leases habout).trans hsome) hgone
  obtain ⟨i, s, c, r⟩ := e
  cases c with
  | setNx id owner' =>
    obtain rfl : id = m := Option.some.inj habout
    -- a lease that is held is not taken over
    have hrefused : redis (.setNx id owner') s = (false, s) :=
      if_neg (by rw [show s.leases id = some owner from hsome]; exact Option.some_ne_none owner)
    exact absurd (by rw [hrefused]; exact hsome) hgone
  | delLease id =>
    obtain rfl : id = m := Option.some.inj habout
    have hlease := h.lease
    rw [hsome] at hlease
    refine .inr ?_
    rcases hn.delLease with hholding | hends
    · rw [h.holding i hholding] at hlease
      exact Option.some.inj hlease
    · -- a call that ends the work on the message finds its own lease
      have hadmits := hp.2 id rfl hends
      cases hphase : phase calls id es with
      | free =>
        rw [hphase] at hlease
        cases hlease
      | busy j =>
        rw [hphase] at hadmits
        exact absurd hadmits not_false
      | live j =>
        rw [hphase] at hlease hadmits
        rw [Option.some.inj hlease]
        exact owner_of_ends hends (h.live j hphase) hadmits
  | leaseExpires id =>
    obtain rfl : id = m := Option.some.inj habout
    exact .inl rfl
  | _ => cases habout

omit [DecidableEq ι] in
theorem liveClaims_frame (hlease : e.command.lease ≠ some m) (hassigned : e.command.assigned ≠ some m) :
    liveClaims calls m (e :: es) = liveClaims calls m es := by
  obtain ⟨i, s, c, r⟩ := e
  cases c with
  | delLease id => exact if_neg fun h => hlease (congrArg some h)
  | leaseExpires id => exact if_neg fun h => hlease (congrArg some h)
  | hset id fields => exact if_neg fun h => hassigned (congrArg some h.1)
  | _ => rfl

/-- The live claim is the one of the phase. -/
theorem liveClaims_step (h : Leased calls m e.before es)
    (hclaims : liveClaims calls m es = (phase calls m es).claims)
    (hn : Next calls e (own e.thread es)) (hp : Rested calls e.thread (e.before, es) e.command)
    (hr : e.reply = (redis e.command e.before).1) :
    liveClaims calls m (e :: es) = (phase calls m (e :: es)).claims := by
  obtain ⟨i, s, c, r⟩ := e
  rcases c.about_cases m with ⟨hlease, hassigned⟩ | ⟨owner, rfl⟩ | rfl | rfl | ⟨fields, rfl⟩
  · rw [phase_frame hlease hassigned, liveClaims_frame hlease hassigned]
    exact hclaims
  · cases r with
    | true =>
      -- the lease was free, so that nobody had a claim
      rw [phase_setNx]
      show liveClaims calls m es = []
      rw [hclaims, h.free_of_none (redis_setNx hr.symm).1]
      rfl
    | false =>
      rw [phase_setNx_refused]
      exact hclaims
  · rw [show r = () from rfl, phase_delLease]
    simp only [liveClaims, if_true]
    rw [hclaims]
    -- the lease is deleted in a critical section, or at the end of an operation of the same instance
    rcases hn.delLease with hholding | hends
    · rw [h.holding i hholding]
      rfl
    · have hadmits := hp.2 m rfl hends
      cases hphase : phase calls m es with
      | free | busy j => rfl
      | live j =>
        rw [hphase] at hadmits
        exact List.filter_eq_nil_iff.mpr
          (List.forall_mem_singleton.mpr fun hne => of_decide_eq_true hne hadmits)
  · rw [show r = () from rfl, phase_leaseExpires]
    exact if_pos rfl
  · rw [show r = () from rfl, phase_hset]
    by_cases hop : (calls i).operation = .markProcessing m
    · -- the claim of a call in its critical section
      have hsweep : ¬ (calls i).operation.IsSweep := by
        rw [hop]
        exact not_false
      have hbusy := h.holding i (hn.hset.resolve_right fun hnot => hnot.1 hop)
      rw [if_pos ⟨hbusy, hsweep⟩]
      simp only [liveClaims, hop, true_and, if_true]
      rw [hclaims, hbusy]
      rfl
    · rw [if_neg fun hbusy => (h.busy i hbusy.1).elim hop hbusy.2]
      simp only [liveClaims, hop, and_false, if_false]
      exact hclaims

omit [DecidableEq ι] in
/-- A message is moved to `pending` or `processing` in a critical section, or by `retryMessage`. -/
theorem Next.hands (h : Next calls e past) (hpersisted : (calls e.thread).operation.persisted ≠ some m)
    (hhands : e.command.Hands m) :
    Holding calls m e.thread past ∨ (calls e.thread).operation.Ends m ∧
      ∃ fields, e.command = .hset m fields := by
  obtain ⟨i, s, c, r⟩ := e
  cases c with
  | hset id fields =>
    obtain ⟨rfl, hfields⟩ : id = m ∧ (.status .pending ∈ fields ∨ .status .processing ∈ fields) := by
      simpa [Command.Hands, Command.Sets, Command.assigned, Command.fields, ← and_or_left] using hhands
    rcases h.hset with hholding | ⟨hop, hsweep⟩
    · exact .inl hholding
    refine .inr ⟨?_, fields, rfl⟩
    cases h with
    | reads hhash => cases hhash
    | persists h => exact absurd (by rw [h]; rfl) hpersisted
    | renews h => simp at hfields
    | claims h => exact absurd h hop
    | acknowledges h | completes h | fails h | retries h =>
      rw [h]
      rfl
    | requeues h | exhausts h => exact absurd h hsweep
  | _ => simp [Command.Hands, Command.Sets, Command.assigned] at hhands

/-- No lease is taken from its holder, after a chronicle without late steps. -/
theorem kept_of_chronicle {d₀ : Store} (hfree : d₀.leases m = none)
    (hpersisted : ∀ i, (calls i).operation.persisted ≠ some m)
    (hc : Chronicle redis (fun e es => Next calls e (own e.thread es) ∧
      Rested calls e.thread (e.before, es) e.command) d₀ s es) : Kept calls m es := by
  have hclaims : ∀ s es, Chronicle redis (fun e es => Next calls e (own e.thread es) ∧
      Rested calls e.thread (e.before, es) e.command) d₀ s es →
      liveClaims calls m es = (phase calls m es).claims := by
    intro s es hc
    exact hc.invariant (I := fun _ es => liveClaims calls m es = (phase calls m es).claims) rfl
      fun e es hc h hok hr => liveClaims_step (leased_of_chronicle hfree hc) h hok.1 hok.2 hr
  refine ⟨fun e he owner hsome hgone => ?_, ?_, ?_⟩
  · -- what was true when the lease was removed is read off the chronicle before it
    obtain ⟨new, old, rfl⟩ := List.append_of_mem he
    obtain ⟨hold, hok, -⟩ := hc.before
    exact (leased_of_chronicle hfree hold).removed hok.1 hok.2 hsome hgone
  · rw [hclaims s es hc]
    cases phase calls m es <;> simp [Phase.claims]
  · rintro new e old rfl hhands i hi
    obtain ⟨hold, hok, -⟩ := hc.before
    have hleased := leased_of_chronicle hfree hold
    rw [hclaims _ _ hold] at hi
    rcases hok.1.hands (hpersisted _) hhands with hholding | ⟨hends, fields, hcommand⟩
    · rw [hleased.holding _ hholding] at hi
      cases hi
    · -- a late step is not admitted: the claim is the own one, or there is none
      have hadmits := hok.2.2 m (by rw [hcommand]; rfl) hends
      cases hphase : phase calls m old with
      | free | busy j =>
        rw [hphase] at hi
        cases hi
      | live j =>
        rw [hphase] at hi hadmits
        rw [List.mem_singleton.mp hi]
        exact hadmits

end Steps

section Runs

variable [DecidableEq ι] {calls : ι → Call} {d₀ : Store} {is : List ι}
  {c : Config Command Command.Reply Empty Result ι (Served ι)} {m : MessageId}

/-- **No lease is taken from its holder in a run without late steps**, with any number of calls of
any number of instances: a lease is removed by its expiry or by its holder, a message has one live
claim at most, and it is not re-queued and not handed to another instance while it has one. -/
theorem kept_of_rested (hpersisted : ∀ i, (calls i).operation.persisted ≠ some m)
    (hfree : d₀.leases m = none) (hr : (serving calls d₀).run (redisMachine ι) is = some c)
    (ha : (serving calls d₀).Admitted (redisMachine ι) (fun i cmd s => Rested calls i s cmd) is) :
    Kept calls m c.shared.2 :=
  kept_of_chronicle hfree hpersisted (chronicle_serving hr ha).1

end Runs

/-- A worker that claims and completes the message, and a sweep in between. -/
def worked : Fin 3 → Call
  | 0 => ⟨{ instanceId := 1 }, 10, .markProcessing 7⟩
  | 1 => ⟨{ instanceId := 2 }, 20, .recoverOrphanedMessages [7]⟩
  | 2 => ⟨{ instanceId := 1 }, 30, .markCompleted 7⟩

/-- The sweep sees the lease, and the worker deletes it. -/
theorem kept_of_rested_worked : ∃ c, (serving worked (stored 7 "orders" 3)).run (redisMachine (Fin 3))
    [0, 0, 0, 0, 0, 1, 1, 2, 2, 2, 2] = some c ∧ Kept worked 7 c.shared.2 := by
  have hrun : ((serving worked (stored 7 "orders" 3)).run (redisMachine (Fin 3))
      [0, 0, 0, 0, 0, 1, 1, 2, 2, 2, 2]).isSome := by
    decide +kernel
  obtain ⟨c, hc⟩ := Option.isSome_iff_exists.mp hrun
  exact ⟨c, hc, kept_of_rested (by decide) rfl hc (by decide +kernel)⟩

/-- Three workers of a message. The lease of the first one expires; it retries the message when the
second one works on it. -/
def overtaken : Fin 6 → Call
  | 0 => ⟨{ instanceId := 1 }, 10, .markProcessing 7⟩
  | 1 => ⟨{ instanceId := 1 }, 40, .leaseExpiry 7⟩
  | 2 => ⟨{ instanceId := 4 }, 50, .recoverOrphanedMessages [7]⟩
  | 3 => ⟨{ instanceId := 2 }, 60, .markProcessing 7⟩
  | 4 => ⟨{ instanceId := 1 }, 70, .retryMessage 7⟩
  | 5 => ⟨{ instanceId := 3 }, 80, .markProcessing 7⟩

/-- **A late retry hands a claimed message to another worker.** It deletes the lease of the second
worker, so that the third one claims the message too. -/
theorem lease_stolen : (∀ i, (overtaken i).operation.persisted ≠ some 7) ∧
    (stored 7 "orders" 3).leases 7 = none ∧
    ∃ c, (serving overtaken (stored 7 "orders" 3)).run (redisMachine (Fin 6))
      ([0, 0, 0, 0, 0, 1] ++ [2, 2, 2, 2, 2, 2, 2] ++ [3, 3, 3, 3, 3] ++ [4, 4, 4, 4, 4] ++
        [5, 5, 5, 5, 5]) = some c ∧
      liveClaims overtaken 7 c.shared.2 = [5, 3] ∧ ¬ Kept overtaken 7 c.shared.2 := by
  have hrun : ((serving overtaken (stored 7 "orders" 3)).run (redisMachine (Fin 6))
      ([0, 0, 0, 0, 0, 1] ++ [2, 2, 2, 2, 2, 2, 2] ++ [3, 3, 3, 3, 3] ++ [4, 4, 4, 4, 4] ++
        [5, 5, 5, 5, 5])).any fun c => liveClaims overtaken 7 c.shared.2 = [5, 3] := by
    decide +kernel
  obtain ⟨c, hc, hclaims⟩ := (Option.any_eq_true _ _).mp hrun
  have hclaims := of_decide_eq_true hclaims
  refine ⟨by decide, rfl, c, hc, hclaims, fun hkept => ?_⟩
  have hunique := hkept.unique
  rw [hclaims] at hunique
  exact absurd hunique (by decide)

end Messages
