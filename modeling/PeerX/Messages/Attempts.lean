import PeerX.Messages.Sweeps

/-!
# Messages: the number of attempts

`markProcessing` counts an attempt without a look at the bound, which only the operations that move
a message back to `pending` check. The bound is kept when a stay in `pending` is counted once, and
when nobody counts between the check of such an operation and its write. Where one of these fails,
the attempts exceed the bound.

## Main results

* `split_of_look`: the commands before and after the last look of a call
* `redis_kept`: a command that neither counts nor persists leaves the attempts and the bound alone
* `attempts_le`: the bound holds in every state of a run whose steps meet the condition
* `attempts_exceeded`: a worker that stops between its count and its claim
-/

namespace Messages

open Concurrency

variable {ι : Type}

section Looks

variable [DecidableEq ι]

/-- The commands since the call last looked at the message. -/
def sinceLook (i : ι) (m : MessageId) (es : List (RedisEvent ι)) : List (RedisEvent ι) :=
  since (fun e => e.thread = i ∧ e.command.Looks m) es

/-- An attempt is counted once for each stay in `pending`, and a message is moved to `pending`
by a call that has seen the last count. -/
def CountedOnce (m : MessageId) (i : ι) (s : Served ι) (c : Command) : Prop :=
  (c = .hincrbyAttempts m →
    ∀ e ∈ since (fun e => e.command.Sets m .pending) s.2, e.command ≠ .hincrbyAttempts m) ∧
  (c.Sets m .pending → ∀ e ∈ sinceLook i m s.2, e.command ≠ .hincrbyAttempts m)

instance (m : MessageId) (i : ι) (s : Served ι) : DecidablePred (CountedOnce m i s) :=
  fun _ => inferInstanceAs (Decidable (_ ∧ _))

/-- **The last look of a call** splits the commands: the newer ones are those since the look. -/
theorem split_of_look {i : ι} {m : MessageId} {es xs ys : List (RedisEvent ι)} {e : RedisEvent ι}
    (hown : own i es = xs ++ e :: ys) (hlook : e.command.Looks m)
    (hxs : ∀ e ∈ xs, ¬ e.command.Looks m) :
    ∃ new old, es = new ++ e :: old ∧ sinceLook i m es = new := by
  obtain ⟨new, old, rfl, rfl, -⟩ := split_of_own hown
  have hthread : e.thread = i := by
    refine (mem_own.mp (show e ∈ own i (new ++ e :: old) from ?_)).2
    rw [hown]
    exact List.mem_append_right _ List.mem_cons_self
  have hold : since (fun e => decide (e.thread = i ∧ e.command.Looks m)) (e :: old) = [] := by
    simp [since, hthread, hlook]
  refine ⟨new, old, rfl, ?_⟩
  unfold sinceLook
  rw [since_append fun e' he' => ?_, hold, List.append_nil]
  exact decide_eq_false fun h => hxs e' (mem_own.mpr ⟨he', h.1⟩) h.2

theorem split_of_last_look {i : ι} {m : MessageId} {es ys : List (RedisEvent ι)} {e : RedisEvent ι}
    (hown : own i es = e :: ys) (hlook : e.command.Looks m) :
    ∃ new old, es = new ++ e :: old ∧ sinceLook i m es = new :=
  split_of_look (show own i es = [] ++ e :: ys from hown) hlook (by simp)

end Looks

section Frames

variable {calls : ι → Call} {m : MessageId} {e : RedisEvent ι} {past : List (RedisEvent ι)}

/-- **A command that neither counts nor persists nor deletes** leaves the attempts, the bound and
the id of the message alone. -/
theorem redis_kept (h : Next calls e past) (hpersisted : (calls e.thread).operation.persisted ≠ some m)
    (hcleanup : ¬ (calls e.thread).operation.IsCleanup) (hcount : e.command ≠ .hincrbyAttempts m)
    (s : Store) :
    ((redis e.command s).2.messages m).attempts = (s.messages m).attempts ∧
      ((redis e.command s).2.messages m).maxAttempts = (s.messages m).maxAttempts := by
  rcases h.origin s m with ⟨horigin, hattempts⟩ | ⟨hop, -⟩ | ⟨hop, -⟩
  · exact ⟨hattempts hcount, congrArg (·.2.2) horigin⟩
  · exact absurd hop hpersisted
  · exact absurd hop hcleanup

end Frames

section Runs

variable [DecidableEq ι] {calls : ι → Call} {m : MessageId} {d₀ s : Store}
  {es : List (RedisEvent ι)} {is : List ι}

/-- The invariant of the attempts: they are below the bound until they are counted. -/
structure Bounded (m : MessageId) (bound : ℕ) (s : Store) (es : List (RedisEvent ι)) : Prop where
  maxAttempts : (s.messages m).maxAttempts = some bound
  attempts : ∃ a ≤ bound, (s.messages m).attempts = some a ∧
    ((∀ e ∈ since (fun e => e.command.Sets m .pending) es, e.command ≠ .hincrbyAttempts m) → a < bound)

section Steps

variable {P : RedisEvent ι → List (RedisEvent ι) → Prop}
  (hpersisted : ∀ i, (calls i).operation.persisted ≠ some m)
  (hcleanup : ∀ i, ¬ (calls i).operation.IsCleanup)
include hpersisted hcleanup

theorem maxAttempts_of_chronicle (hc : Chronicle redis (fun e es => Next calls e (own e.thread es) ∧
    P e es) d₀ s es) : (s.messages m).maxAttempts = (d₀.messages m).maxAttempts := by
  refine hc.invariant (I := fun s _ => (s.messages m).maxAttempts = (d₀.messages m).maxAttempts) rfl ?_
  intro e es _ h hok _
  rw [← h]
  by_cases hcount : e.command = .hincrbyAttempts m
  · rw [hcount, redis_hincrby_messages]
    rfl
  · exact (redis_kept hok.1 (hpersisted _) (hcleanup _) hcount _).2

theorem maxAttempts_of_mem {e : RedisEvent ι} (hc : Chronicle redis (fun e es =>
    Next calls e (own e.thread es) ∧ P e es) d₀ s es) (he : e ∈ es) :
    (e.before.messages m).maxAttempts = (d₀.messages m).maxAttempts := by
  obtain ⟨new, old, rfl⟩ := List.append_of_mem he
  exact maxAttempts_of_chronicle hpersisted hcleanup hc.before.1

/-- The attempts are the ones at a look, when nobody has counted since. -/
theorem attempts_of_look {e : RedisEvent ι} {new old : List (RedisEvent ι)}
    (hc : Chronicle redis (fun e es => Next calls e (own e.thread es) ∧ P e es) d₀ s (new ++ e :: old))
    (hcount : ∀ e ∈ new, e.command ≠ .hincrbyAttempts m) (hlook : e.command.Looks m) :
    (s.messages m).attempts = (e.before.messages m).attempts := by
  have hnew := hc.before.2.2
  let attempts := fun s : Store => (s.messages m).attempts
  have hsame : attempts s = attempts (redis e.command e.before).2 := hnew.obs_eq fun e' he' => by
    obtain ⟨older, hok⟩ := hnew.ok_of_mem he'
    exact (redis_kept hok.1 (hpersisted _) (hcleanup _) (hcount e' he') _).1
  refine hsame.trans ?_
  rcases hlook with h | h | h <;> rw [h] <;> rfl

/-- A message is moved to `pending` while its attempts are below the bound, by a call that has
seen the last count. -/
theorem below_of_sets {i : ι} {fields : List HashField} {r : Unit} {bound a : ℕ}
    (hc : Chronicle redis (fun e es => Next calls e (own e.thread es) ∧ P e es) d₀ s es)
    (hn : Next calls ⟨i, s, .hset m fields, r⟩ (own i es)) (hset : .status .pending ∈ fields)
    (hseen : ∀ e ∈ sinceLook i m es, e.command ≠ .hincrbyAttempts m)
    (hbound : (d₀.messages m).maxAttempts = some bound) (ha : (s.messages m).attempts = some a) :
    a < bound := by
  generalize hown : own i es = past at hn
  cases hn with
  | reads hhash => cases hhash
  | persists hop => exact absurd (by rw [hop]; rfl) (hpersisted i)
  | claims | renews | acknowledges | completes | fails | exhausts => simp at hset
  | @retries _ _ _ s₁ s₂ _ attempts maxAttempts hop hbelow =>
    -- the bound, and the look before it
    have hmem : (⟨i, s₂, .hgetMaxAttempts m, maxAttempts⟩ : RedisEvent ι) ∈ own i es := by
      rw [hown]
      exact List.mem_cons_self
    have hmax : maxAttempts = (s₂.messages m).maxAttempts := hc.reply (mem_own.mp hmem).1
    have hkept := maxAttempts_of_mem hpersisted hcleanup hc (mem_own.mp hmem).1
    have hlook : (Command.hgetAttempts m).Looks m := .inr (.inl rfl)
    obtain ⟨new, old, rfl, hsince⟩ := split_of_look
      (show own i es = [⟨i, s₂, .hgetMaxAttempts m, maxAttempts⟩] ++
        ⟨i, s₁, .hgetAttempts m, attempts⟩ :: [] from hown) hlook (by simp [Command.Looks])
    rw [hsince] at hseen
    have hattempts : attempts = (s₁.messages m).attempts :=
      hc.reply (List.mem_append_right _ List.mem_cons_self)
    have hsame := attempts_of_look hpersisted hcleanup hc hseen hlook
    rw [hattempts, ← hsame, ha, hmax, hkept, hbound] at hbelow
    exact hbelow
  | @requeues _ _ _ s₁ s₂ past _ fields message hop hmessage horphan hbelow =>
    have hlook : (Command.hgetall m).Looks m := .inr (.inr rfl)
    obtain ⟨new, old, rfl, hsince⟩ := split_of_last_look hown hlook
    rw [hsince] at hseen
    have hfields : fields = s₂.messages m := hc.reply (List.mem_append_right _ List.mem_cons_self)
    have hsame := attempts_of_look hpersisted hcleanup hc hseen hlook
    have hkept := maxAttempts_of_mem hpersisted hcleanup hc (List.mem_append_right _ List.mem_cons_self)
    obtain ⟨messageId, -, rfl⟩ := Option.map_eq_some_iff.mp hmessage
    obtain ⟨b, hb, k, hk, hlt⟩ := hbelow
    have hb : (s₂.messages m).attempts = some b := hfields ▸ hb
    have hk : (s₂.messages m).maxAttempts = some k := hfields ▸ hk
    rw [ha, hb] at hsame
    rw [hkept, hbound] at hk
    rw [Option.some.inj hsame, Option.some.inj hk]
    exact hlt

/-- The invariant holds in every state of a run whose steps count once. -/
theorem bounded_of_chronicle {bound : ℕ} (hbound : (d₀.messages m).maxAttempts = some bound)
    (hattempts : (d₀.messages m).attempts = some 0) (hpos : 0 < bound)
    (hc : Chronicle redis (fun e es => Next calls e (own e.thread es) ∧
      CountedOnce m e.thread (e.before, es) e.command) d₀ s es) : Bounded m bound s es := by
  refine hc.invariant (I := fun s es => Bounded m bound s es)
    ⟨hbound, 0, Nat.zero_le _, hattempts, fun _ => hpos⟩ ?_
  rintro e es hold ⟨hmax, a, hle, ha, hlt⟩ ⟨hn, hp⟩ -
  by_cases hcount : e.command = .hincrbyAttempts m
  · -- the first count of this stay in `pending`
    have hset : ¬ (Command.hincrbyAttempts m).Sets m .pending := fun hset => by cases hset.1
    have hhash : (redis e.command e.before).2.messages m = (e.before.messages m).incremented := by
      rw [hcount]
      exact redis_hincrby_messages
    refine ⟨by rw [hhash]; exact hmax, a + 1, hlt (hp.1 hcount),
      by rw [hhash]; simp [MessageHash.incremented, ha], fun hnone => ?_⟩
    refine absurd hcount (hnone e ?_)
    simp [since, hcount, hset]
  · obtain ⟨hsame, hmax'⟩ := redis_kept hn (hpersisted _) (hcleanup _) hcount e.before
    refine ⟨hmax'.trans hmax, a, hle, hsame.trans ha, fun hnone => ?_⟩
    by_cases hset : e.command.Sets m .pending
    · have hseen := hp.2 hset
      obtain ⟨i, s, c, r⟩ := e
      cases c with
      | hset id fields =>
        obtain rfl : id = m := Option.some.inj hset.1
        exact below_of_sets hpersisted hcleanup hold hn hset.2 hseen hbound ha
      | _ => cases hset.1
    · refine hlt fun e' he' => hnone e' ?_
      unfold since
      rw [List.takeWhile_cons_of_pos (by simpa using hset)]
      exact List.mem_cons_of_mem _ he'

end Steps

/-- **The attempts never exceed the bound** when each stay in `pending` is counted once and every
call that moves the message to `pending` has seen the last count: in every state of every run of any
number of calls of any instances, whatever the leases do and wherever a call stops. -/
theorem attempts_le {c : Config Command Command.Reply Empty Result ι (Served ι)} {bound : ℕ}
    (hpersisted : ∀ i, (calls i).operation.persisted ≠ some m)
    (hcleanup : ∀ i, ¬ (calls i).operation.IsCleanup)
    (hbound : (d₀.messages m).maxAttempts = some bound) (hpos : 1 ≤ bound)
    (hattempts : (d₀.messages m).attempts = some 0)
    (hr : (serving calls d₀).run (redisMachine ι) is = some c)
    (ha : (serving calls d₀).Admitted (redisMachine ι) (fun i cmd s => CountedOnce m i s cmd) is) :
    (c.shared.1.messages m).maxAttempts = some bound ∧
      ∃ a ≤ bound, (c.shared.1.messages m).attempts = some a := by
  obtain ⟨hmax, a, hle, hsome, -⟩ := bounded_of_chronicle hpersisted hcleanup hbound hattempts hpos
    (chronicle_serving hr ha).1
  exact ⟨hmax, a, hle, hsome⟩

end Runs

/-- A worker whose lease expires, a sweep, and another worker. -/
def stopped : Fin 4 → Call
  | 0 => ⟨{ instanceId := 1 }, 10, .markProcessing 7⟩
  | 1 => ⟨{ instanceId := 1 }, 40, .leaseExpiry 7⟩
  | 2 => ⟨{ instanceId := 3 }, 50, .recoverOrphanedMessages [7]⟩
  | 3 => ⟨{ instanceId := 2 }, 60, .markProcessing 7⟩

/-- The message has one attempt: the sweep fails it, and it is not claimed again. -/
theorem attempts_le_stopped : ∃ c, (serving stopped (stored 7 "orders" 1)).run (redisMachine (Fin 4))
      ([0, 0, 0, 0, 0, 1] ++ [2, 2, 2, 2, 2, 2, 2] ++ [3, 3, 3]) = some c ∧
    (c.shared.1.messages 7).maxAttempts = some 1 ∧
      ∃ a ≤ 1, (c.shared.1.messages 7).attempts = some a := by
  have hrun : ((serving stopped (stored 7 "orders" 1)).run (redisMachine (Fin 4))
      ([0, 0, 0, 0, 0, 1] ++ [2, 2, 2, 2, 2, 2, 2] ++ [3, 3, 3])).isSome := by
    decide +kernel
  obtain ⟨c, hc⟩ := Option.isSome_iff_exists.mp hrun
  exact ⟨c, hc, attempts_le (by decide) (by decide) rfl le_rfl rfl hc (by decide +kernel)⟩

/-- **The attempts exceed the bound.** The first worker stops between its count and its claim, so
that the message is still pending when its lease has expired, and the second worker counts again. -/
theorem attempts_exceeded : ∃ c, (serving stopped (stored 7 "orders" 1)).run (redisMachine (Fin 4))
      [0, 0, 0, 1, 3, 3, 3, 3, 3] = some c ∧
    (c.shared.1.messages 7).maxAttempts = some 1 ∧ (c.shared.1.messages 7).attempts = some 2 := by
  have hrun : ((serving stopped (stored 7 "orders" 1)).run (redisMachine (Fin 4))
      [0, 0, 0, 1, 3, 3, 3, 3, 3]).any fun c => (c.shared.1.messages 7).maxAttempts = some 1 ∧
        (c.shared.1.messages 7).attempts = some 2 := by
    decide +kernel
  obtain ⟨c, hc, hexceeded⟩ := (Option.any_eq_true _ _).mp hrun
  exact ⟨c, hc, of_decide_eq_true hexceeded⟩

end Messages
