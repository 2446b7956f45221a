import PeerX.RateLimit.TokenBucket

/-!
# Rate limits: the check of a request

A request is checked at the bucket of its identifier and endpoint. Without overrides the bucket
holds the configured number of points, and is refilled at the points per window, rounded down to a
whole number per second, but at least one. When the script fails, the request is counted in a
sliding window instead. A key that has expired is gone; by then its bucket would be full.

## Main results

* `checks_eq_executions`: the expiry of a key makes no difference
* `within_twice_iff`: when no interval of the window's length has more than twice the points
-/

namespace RateLimit

open Metering

/-! ## Redis -/

/-- The keys, with the times at which they expire. A window is a sorted set of times. -/
structure RedisStore where
  buckets : String → Option (Bucket × ℚ) := fun _ => none
  windows : String → Option (List ℚ × ℚ) := fun _ => none

/-- The value of a key that has not expired. -/
def live {α : Type} (now : ℚ) (entry : Option (α × ℚ)) : Option α :=
  (entry.filter fun entry => now ≤ entry.2).map Prod.fst

/-- The `PEXPIRE` of the script, in milliseconds. -/
def timeToLive (capacity refillPerMs : ℚ) : ℤ := ⌈capacity / refillPerMs * 2⌉

/-- `eval`. -/
def evalTokenBucket (key : String) (capacity refillPerMs now requested : ℚ) (store : RedisStore) :
    CheckResult × RedisStore :=
  let execution := tokenBucketLua capacity refillPerMs now requested (live now (store.buckets key))
  (execution.1,
    { store with
      buckets :=
        Function.update store.buckets key
          (some (execution.2, now + timeToLive capacity refillPerMs)) })

/-! ## The service -/

/-- The settings of the rate limit. -/
structure RateLimitConfig where
  windowMs : Option ℚ := none
  maxRequests : Option ℚ := none
deriving DecidableEq

/-- The overrides of a check. -/
structure CheckOptions where
  points : Option ℚ := none
  refillPerSecond : Option ℚ := none
  burst : Option ℚ := none
deriving DecidableEq

def runSlidingWindowFallback (key : String) (maxRequests windowMs now : ℚ) (store : RedisStore) :
    CheckResult × RedisStore :=
  let zkey := s!"{key}:sw"
  let windowStart := now - windowMs
  let kept :=
    ((live now (store.windows zkey)).getD []).filter fun score => ¬
      (0 ≤ score ∧ score ≤ windowStart)
  let scores := kept ++ [now]
  let count : ℕ := scores.countP fun score => windowStart ≤ score ∧ score ≤ now
  (⟨count ≤ maxRequests, max 0 (maxRequests - count), ⌈windowMs / 1000⌉⟩,
    { store with
      windows := Function.update store.windows zkey (some (scores, now + windowMs * 2)) })

/-- `runTokenBucket`, whose script may fail. -/
def runTokenBucket (rateLimit : Option RateLimitConfig) (key : String)
    (capacity refillPerSecond requested now : ℚ)
    (scriptFails : Bool) (store : RedisStore) : CheckResult × RedisStore :=
  let refillPerMs := refillPerSecond / 1000
  if scriptFails then
    runSlidingWindowFallback key capacity
      ((rateLimit.bind RateLimitConfig.windowMs).getD 60000) now store
  else evalTokenBucket key capacity refillPerMs now requested store

/-- The refill of some points per window, in tokens per second. -/
def defaultRefill (points windowMs : ℚ) : ℚ := max 1 ⌊points / (windowMs / 1000)⌋

/-- The key of an identifier and an endpoint. -/
def limitKey (identifier endpoint : String) : String := s!"ratelimit:{endpoint}:{identifier}"

def check (cfg : Option RateLimitConfig) (identifier endpoint : String) (opts : CheckOptions)
    (now : ℚ)
    (scriptFails : Bool) (store : RedisStore) : CheckResult × RedisStore :=
  let points := opts.points.getD ((cfg.bind RateLimitConfig.maxRequests).getD 100)
  let refillPerSecond := opts.refillPerSecond.getD
    (defaultRefill points ((cfg.bind RateLimitConfig.windowMs).getD 60000))
  let burst := opts.burst.getD (max points 1)
  runTokenBucket cfg (limitKey identifier endpoint) burst refillPerSecond 1 now scriptFails store

/-- The checks of requests without overrides at some times, with their answers. -/
def checks (cfg : Option RateLimitConfig) (identifier endpoint : String) :
    RedisStore → List ℤ → List (ℚ × Bool)
  | _, [] => []
  | store, now :: nows =>
    let checked := check cfg identifier endpoint {} now false store
    ((now : ℚ), checked.1.allowed) :: checks cfg identifier endpoint checked.2 nows

/-- No interval of the window's length has more than twice the points, whenever the requests
come. -/
def WithinTwice (points windowMs : ℚ) : Prop :=
  ∀ (identifier endpoint : String) (times : List ℤ), times.Pairwise (· ≤ ·) → ∀ start : ℚ,
    (allowedWithin start (start + windowMs)
      (checks (some { windowMs := some windowMs, maxRequests := some points }) identifier endpoint
        {} times) : ℚ) ≤
      2 * points

/-! ## Expired keys -/

section Expiry

variable {capacity refillPerMs : ℚ} {bucket : Bucket} {now : ℚ}

theorem refilled_of_expired (hrefill : 0 < refillPerMs) (hcapacity : 0 ≤ capacity)
    (htokens : 0 ≤ bucket.tokens) (hexpired : bucket.last + timeToLive capacity refillPerMs < now) :
    refilled capacity refillPerMs now (some bucket) = capacity := by
  have hceil : capacity / refillPerMs * 2 ≤ timeToLive capacity refillPerMs := Int.le_ceil _
  have helapsed : capacity / refillPerMs * 2 ≤ now - bucket.last := by linarith
  have hratio : 0 ≤ capacity / refillPerMs := div_nonneg hcapacity hrefill.le
  have hgain : capacity / refillPerMs * 2 * refillPerMs ≤ (now - bucket.last) * refillPerMs :=
    mul_le_mul_of_nonneg_right helapsed hrefill.le
  have htwice : capacity / refillPerMs * 2 * refillPerMs = 2 * capacity := by
    field_simp
  change min capacity (bucket.tokens + max 0 (now - bucket.last) * refillPerMs) = capacity
  rw [max_eq_right (by linarith)]
  exact min_eq_left (by linarith)

/-- The expiry of a key makes no difference to the script. -/
theorem tokenBucketLua_live (hrefill : 0 < refillPerMs) (hcapacity : 0 ≤ capacity)
    (htokens : 0 ≤ bucket.tokens) :
    tokenBucketLua capacity refillPerMs now 1
        (live now (some (bucket, bucket.last + timeToLive capacity refillPerMs))) =
      tokenBucketLua capacity refillPerMs now 1 (some bucket) := by
  by_cases hlive : now ≤ bucket.last + timeToLive capacity refillPerMs
  · have hdata : live now (some (bucket, bucket.last + timeToLive capacity refillPerMs)) =
        some bucket := by
      simp [live, hlive]
    rw [hdata]
  · have hdata : live now (some (bucket, bucket.last + timeToLive capacity refillPerMs)) =
        none := by
      simp [live, not_le.mp hlive]
    have hfull := refilled_of_expired hrefill hcapacity htokens (not_le.mp hlive)
    unfold tokenBucketLua
    rw [hdata, refilled_none, hfull]

variable {points windowMs : ℚ} {identifier endpoint : String}

theorem defaultRefill_pos (points windowMs : ℚ) : 0 < defaultRefill points windowMs / 1000 := by
  have hone : 1 ≤ defaultRefill points windowMs := le_max_left _ _
  linarith

theorem check_eq (hpoints : 1 ≤ points) (store : RedisStore) :
    check (some { windowMs := some windowMs, maxRequests := some points }) identifier endpoint
    {} now false store =
      evalTokenBucket (limitKey identifier endpoint) points
        (defaultRefill points windowMs / 1000) now 1 store := by
  have hburst : max points 1 = points := max_eq_left hpoints
  simp [check, runTokenBucket, hburst]

/-- **The checks are executions of the script**: no key expires before its bucket is full. -/
theorem checks_eq_executions (hpoints : 1 ≤ points) (times : List ℤ) (data : Option Bucket)
    (htokens : ∀ bucket ∈ data, 0 ≤ bucket.tokens) (store : RedisStore)
    (hstore : store.buckets (limitKey identifier endpoint) =
      data.map fun bucket =>
        (bucket, bucket.last + (timeToLive points (defaultRefill points windowMs / 1000) : ℚ))) :
    checks (some { windowMs := some windowMs, maxRequests := some points }) identifier
      endpoint store times =
      executions points (defaultRefill points windowMs / 1000) data
        (times.map fun time : ℤ => (time : ℚ)) := by
  induction times generalizing data store with
  | nil => rfl
  | cons time times ih =>
    have hrefill := defaultRefill_pos points windowMs
    have hcapacity : 0 ≤ points := by linarith
    have hsame : tokenBucketLua points (defaultRefill points windowMs / 1000) time 1
        (live time (store.buckets (limitKey identifier endpoint))) =
        tokenBucketLua points (defaultRefill points windowMs / 1000) time 1 data := by
      rw [hstore]
      cases data with
      | none => rfl
      | some bucket => exact tokenBucketLua_live hrefill hcapacity (htokens bucket rfl)
    have hspec := tokenBucketLua_spec (refilled_nonneg (time : ℚ) hcapacity hrefill.le htokens)
    rw [checks, check_eq hpoints, List.map_cons, executions]
    simp only [evalTokenBucket, hsame]
    congr 1
    refine ih
      (some (tokenBucketLua points (defaultRefill points windowMs / 1000) time 1 data).2) ?_ _ ?_
    · intro bucket hbucket
      obtain rfl := Option.some.inj hbucket
      exact hspec.2.1
    · dsimp only
      rw [Function.update_self, Option.map_some, hspec.1]

end Expiry

/-! ## The bound -/

section Bound

variable {points windowMs : ℚ} {capacity refillPerMs : ℚ}

theorem exists_time_of_mem (data : Option Bucket) {times : List ℤ} {request : ℚ × Bool}
    (h : request ∈ executions capacity refillPerMs data (times.map fun time : ℤ => (time : ℚ))) :
    ∃ time : ℤ, request.1 = time := by
  induction times generalizing data with
  | nil => cases h
  | cons time times ih =>
    rcases List.mem_cons.mp h with rfl | h
    · exact ⟨time, rfl⟩
    · exact ih _ h

/-- An interval holds the whole milliseconds from its ceiling to its floor. -/
theorem allowedWithin_floor {requests : List (ℚ × Bool)}
    (h : ∀ request ∈ requests, ∃ time : ℤ, request.1 = time)
    (lo hi : ℚ) : allowedWithin lo hi requests = allowedWithin (⌈lo⌉ : ℚ) (⌊hi⌋ : ℚ) requests := by
  refine List.countP_congr fun request hrequest => ?_
  obtain ⟨time, htime⟩ := h request hrequest
  rw [htime]
  simp only [Int.cast_le, Int.ceil_le, Int.le_floor]

theorem floor_sub_ceil_le (start : ℚ) : ⌊start + windowMs⌋ - ⌈start⌉ ≤ ⌊windowMs⌋ := by
  have hfloor := Int.floor_le (start + windowMs)
  have hceil := Int.le_ceil start
  apply Int.le_floor.mpr
  push_cast
  linarith

/-- The requests of a window, by the whole milliseconds that it holds. -/
theorem checks_le (hpoints : 1 ≤ points) (hwindow : 0 < windowMs) (identifier endpoint : String)
    {times : List ℤ} (hsorted : times.Pairwise (· ≤ ·)) (start : ℚ) :
    (allowedWithin start (start + windowMs)
      (checks (some { windowMs := some windowMs, maxRequests := some points }) identifier endpoint
        {} times) : ℚ) ≤
      points + defaultRefill points windowMs / 1000 * ⌊windowMs⌋ := by
  have hrefill := defaultRefill_pos points windowMs
  have hcapacity : 0 ≤ points := by linarith
  have hwhole : 0 ≤ (⌊windowMs⌋ : ℚ) := by exact_mod_cast Int.floor_nonneg.mpr hwindow.le
  have hgain : 0 ≤ defaultRefill points windowMs / 1000 * ⌊windowMs⌋ := mul_nonneg hrefill.le hwhole
  rw [checks_eq_executions hpoints times none (fun _ h => nomatch h) {} rfl,
    allowedWithin_floor fun request hrequest => exists_time_of_mem _ hrequest]
  cases times with
  | nil =>
    simp only [List.map_nil, executions, allowedWithin, List.countP_nil, Nat.cast_zero]
    linarith
  | cons time times =>
    have hcast : ((time : ℚ) :: times.map fun time : ℤ => (time : ℚ)).Pairwise (· ≤ ·) := by
      rw [← List.map_cons (f := fun time : ℤ => (time : ℚ)), List.pairwise_map]
      exact hsorted.imp fun h => by exact_mod_cast h
    have hnew : ∀ bucket ∈ (none : Option Bucket), 0 ≤ bucket.tokens := fun _ h => nomatch h
    have hmetered := metered_of_sorted hcapacity hrefill.le hnew hcast
    rcases le_or_gt (⌈start⌉ : ℚ) ⌊start + windowMs⌋ with hle | hgt
    · have hbound := hmetered.allowedWithin_le_full hrefill.le hcapacity hcapacity le_rfl hle
      have hwidth : (⌊start + windowMs⌋ : ℚ) - ⌈start⌉ ≤ ⌊windowMs⌋ := by
        exact_mod_cast floor_sub_ceil_le start
      have hless := mul_le_mul_of_nonneg_left hwidth hrefill.le
      rw [List.map_cons]
      linarith
    · -- no whole millisecond in the window
      have hnone : ∀ requests, allowedWithin (⌈start⌉ : ℚ)
          (⌊start + windowMs⌋ : ℚ) requests = 0 := by
        intro requests
        refine List.countP_eq_zero.mpr fun request _ => ?_
        simp only [decide_eq_true_eq, not_and, not_le]
        exact fun _ hlo => hgt.trans_le hlo
      rw [hnone, Nat.cast_zero]
      linarith

/-- A refill that is not rounded up is within the points of a window. -/
theorem within_of_refill (hpoints : 1 ≤ points) (hwindow : 0 < windowMs)
    (h : 1 ≤ ⌊points / (windowMs / 1000)⌋) :
    WithinTwice points windowMs := by
  intro identifier endpoint times hsorted start
  have hbound := checks_le hpoints hwindow identifier endpoint hsorted start
  have hrefill : defaultRefill points windowMs = ⌊points / (windowMs / 1000)⌋ :=
    max_eq_right (by exact_mod_cast h)
  have hfloor := Int.floor_le (points / (windowMs / 1000))
  have hseconds : 0 < windowMs / 1000 := by linarith
  have hpoints' := (le_div_iff₀ hseconds).mp hfloor
  have hwhole :=
    mul_le_mul_of_nonneg_left (Int.floor_le windowMs) (defaultRefill_pos points windowMs).le
  rw [hrefill] at hbound hwhole
  linarith

/-- A refill of one token per second. -/
theorem within_of_floor (hpoints : 1 ≤ points) (hwindow : 0 < windowMs)
    (hone : ⌊points / (windowMs / 1000)⌋ < 1)
    (h : (⌊points + ⌊windowMs⌋ / 1000⌋ : ℚ) ≤ 2 * points) : WithinTwice points windowMs := by
  intro identifier endpoint times hsorted start
  have hbound := checks_le hpoints hwindow identifier endpoint hsorted start
  have hrefill : defaultRefill points windowMs = 1 := max_eq_left (by exact_mod_cast hone.le)
  rw [hrefill] at hbound
  refine le_trans ?_ h
  have hcount := Int.le_floor.mpr (show (((allowedWithin start (start + windowMs)
    (checks (some { windowMs := some windowMs, maxRequests := some points }) identifier endpoint
      {} times) : ℕ) : ℤ) :
      ℚ) ≤ points + ⌊windowMs⌋ / 1000 by push_cast; linarith)
  exact_mod_cast hcount

end Bound

/-! ## A window that is refilled every second -/

section EverySecond

variable {points windowMs tokens : ℚ}

theorem tokenBucketLua_of_le {capacity refillPerMs now : ℚ} {data : Option Bucket}
    (h : 1 ≤ refilled capacity refillPerMs now data) :
    (tokenBucketLua capacity refillPerMs now 1 data).1.allowed = true ∧
      (tokenBucketLua capacity refillPerMs now 1 data).2 =
        ⟨refilled capacity refillPerMs now data - 1, now⟩ := by
  unfold tokenBucketLua
  dsimp only
  rw [if_pos h]
  exact ⟨rfl, rfl⟩

/-- Requests at one time are allowed while there are tokens. -/
theorem executions_burst (refillPerMs time : ℚ) (n : ℕ) (hn : n ≤ tokens)
    (htokens : tokens ≤ points) :
    allowedCount (executions points refillPerMs (some ⟨tokens, time⟩) (List.replicate n time)) = n ∧
      dataAfter points refillPerMs (some ⟨tokens, time⟩)
      (List.replicate n time) = some ⟨tokens - n, time⟩ := by
  induction n generalizing tokens with
  | zero => simp [executions, allowedCount, dataAfter]
  | succ n ih =>
    push_cast at hn
    have hfull : refilled points refillPerMs time (some ⟨tokens, time⟩) = tokens := by
      simp [refilled, htokens]
    have hn0 : (0 : ℚ) ≤ n := Nat.cast_nonneg n
    have henough : 1 ≤ refilled points refillPerMs time (some ⟨tokens, time⟩) := by
      rw [hfull]
      linarith
    obtain ⟨hallowed, hdata⟩ := tokenBucketLua_of_le henough
    rw [hfull] at hdata
    have hn' : (n : ℚ) ≤ tokens - 1 := by linarith
    obtain ⟨hcount, hafter⟩ := ih hn' (by linarith)
    rw [List.replicate_succ, executions, dataAfter, hdata, hafter, allowedCount,
      List.countP_cons, hallowed]
    rw [allowedCount] at hcount
    rw [hcount]
    refine ⟨rfl, ?_⟩
    push_cast
    congr 2
    ring

/-- A request every second after a time. -/
def everySecond (time : ℤ) : ℕ → List ℤ
  | 0 => []
  | n + 1 => (time + 1000) :: everySecond (time + 1000) n

theorem mem_everySecond {time t : ℤ} {n : ℕ} (h : t ∈ everySecond time n) :
    time ≤ t ∧ t ≤ time + 1000 * n := by
  induction n generalizing time with
  | zero => cases h
  | succ n ih =>
    push_cast
    rcases List.mem_cons.mp h with rfl | h
    · omega
    · have hrest := ih h
      omega

theorem sorted_everySecond (time : ℤ) (n : ℕ) : (everySecond time n).Pairwise (· ≤ ·) := by
  induction n generalizing time with
  | zero => exact List.Pairwise.nil
  | succ n ih => exact List.Pairwise.cons (fun t ht => (mem_everySecond ht).1) (ih _)

/-- One token per second allows a request every second. -/
theorem executions_everySecond (time : ℤ) (n : ℕ) (hnonneg : 0 ≤ tokens)
    (htokens : tokens + 1 ≤ points) :
    allowedCount (executions points (1 / 1000) (some ⟨tokens, time⟩)
      ((everySecond time n).map fun time : ℤ => (time : ℚ))) = n ∧
      dataAfter points (1 / 1000) (some ⟨tokens, time⟩)
      ((everySecond time n).map fun time : ℤ => (time : ℚ)) =
        some ⟨tokens, time + 1000 * n⟩ := by
  induction n generalizing time with
  | zero => simp [everySecond, executions, allowedCount, dataAfter]
  | succ n ih =>
    have hfull : refilled points (1 / 1000) ((time + 1000 : ℤ) : ℚ) (some ⟨tokens, time⟩) =
        tokens + 1 := by
      simp [refilled, htokens]
    have henough : 1 ≤ refilled points (1 / 1000) ((time + 1000 : ℤ) : ℚ)
        (some ⟨tokens, time⟩) := by
      rw [hfull]
      linarith
    obtain ⟨hallowed, hdata⟩ := tokenBucketLua_of_le henough
    rw [hfull, add_sub_cancel_right] at hdata
    obtain ⟨hcount, hafter⟩ := ih (time + 1000)
    rw [everySecond, List.map_cons, executions, dataAfter, hdata, hafter, allowedCount,
      List.countP_cons, hallowed]
    rw [allowedCount] at hcount
    rw [hcount]
    refine ⟨rfl, ?_⟩
    push_cast
    congr 2
    ring

theorem executions_none {refillPerMs now : ℚ} (nows : List ℚ) :
    executions points refillPerMs none (now :: nows) =
      executions points refillPerMs (some ⟨points, now⟩) (now :: nows) := by
  have hfull : refilled points refillPerMs now (some ⟨points, now⟩) = points := by simp [refilled]
  have hsame : tokenBucketLua points refillPerMs now 1 none =
      tokenBucketLua points refillPerMs now 1 (some ⟨points, now⟩) := by
    unfold tokenBucketLua
    rw [refilled_none, hfull]
  rw [executions, executions, hsame]

/-- The last request of the window finds a token when the rest of the points and the rest of the
window make one. -/
theorem executions_last (tokens : ℚ) {last time : ℤ} (hpoints : 1 ≤ points) (htime : last ≤ time) :
    (if 1 ≤ tokens + (time - last) / 1000 then 1 else 0) ≤
      allowedCount (executions points (1 / 1000) (some ⟨tokens, last⟩) [(time : ℚ)]) := by
  split
  next henough =>
    have hdelta : (0 : ℚ) ≤ time - last := by
      have hcast : (last : ℚ) ≤ time := by exact_mod_cast htime
      linarith
    have hfull : 1 ≤ refilled points (1 / 1000) time (some ⟨tokens, last⟩) := by
      refine le_min hpoints ?_
      change 1 ≤ tokens + max 0 ((time : ℚ) - last) * (1 / 1000)
      rw [max_eq_right hdelta]
      linarith
    have hallowed := (tokenBucketLua_of_le hfull).1
    rw [executions, executions, allowedCount, List.countP_cons, hallowed]
    exact le_rfl
  next => exact Nat.zero_le _

/-- The requests of a window: all points at once, and one request every second. -/
def burst (points windowMs : ℚ) : List ℤ :=
  List.replicate ⌊points⌋₊ 0 ++ (everySecond 0 (⌊windowMs⌋ / 1000).toNat ++ [⌊windowMs⌋])

variable (hpoints : 1 ≤ points) (hwindow : 0 < windowMs)

include hwindow in
theorem seconds_of_window : ((⌊windowMs⌋ / 1000).toNat : ℤ) = ⌊windowMs⌋ / 1000 :=
  Int.toNat_of_nonneg (Int.ediv_nonneg (Int.floor_nonneg.mpr hwindow.le) (by norm_num))

include hwindow in
theorem mem_burst {t : ℤ} (h : t ∈ burst points windowMs) : 0 ≤ t ∧ t ≤ ⌊windowMs⌋ := by
  have hfloor : 0 ≤ ⌊windowMs⌋ := Int.floor_nonneg.mpr hwindow.le
  have hseconds := seconds_of_window hwindow
  rcases List.mem_append.mp h with h | h
  · obtain rfl := List.eq_of_mem_replicate h
    exact ⟨le_rfl, hfloor⟩
  rcases List.mem_append.mp h with h | h
  · have hmem := mem_everySecond h
    omega
  · obtain rfl := List.mem_singleton.mp h
    exact ⟨hfloor, le_rfl⟩

include hwindow in
theorem sorted_burst : (burst points windowMs).Pairwise (· ≤ ·) := by
  have hseconds := seconds_of_window hwindow
  refine List.pairwise_append.mpr ⟨List.pairwise_replicate.mpr (.inr le_rfl),
    List.pairwise_append.mpr
    ⟨sorted_everySecond _ _, List.pairwise_singleton _ _, fun t ht u hu => ?_⟩, fun t ht u hu => ?_⟩
  · obtain rfl := List.mem_singleton.mp hu
    have hmem := mem_everySecond ht
    omega
  · obtain rfl := List.eq_of_mem_replicate ht
    have hmem : u ∈ burst points windowMs := List.mem_append_right _ hu
    exact (mem_burst hwindow hmem).1

include hpoints hwindow in
/-- The requests that are allowed: all points, and one for each second of the window. -/
theorem le_allowedCount_burst :
    ⌊points + ⌊windowMs⌋ / 1000⌋ ≤
      (allowedCount (executions points (1 / 1000) none
        ((burst points windowMs).map fun time : ℤ => (time : ℚ))) : ℤ) := by
  obtain ⟨n, hn⟩ : ∃ n, ⌊points⌋₊ = n + 1 := Nat.exists_eq_succ_of_ne_zero
    (Nat.pos_iff_ne_zero.mp (Nat.floor_pos.mpr hpoints))
  have hfloor : (⌊points⌋₊ : ℚ) ≤ points := Nat.floor_le (by linarith)
  have hlt : points < ⌊points⌋₊ + 1 := Nat.lt_floor_add_one points
  have hone : (1 : ℚ) ≤ ⌊points⌋₊ := by exact_mod_cast Nat.floor_pos.mpr hpoints
  have hseconds := seconds_of_window hwindow
  set k := (⌊windowMs⌋ / 1000).toNat with hk
  have hstart : executions points (1 / 1000) none
    ((burst points windowMs).map fun time : ℤ => (time : ℚ)) =
      executions points (1 / 1000) (some ⟨points, 0⟩)
        (List.replicate ⌊points⌋₊ 0 ++ ((everySecond 0 k).map (fun time : ℤ => (time : ℚ)) ++
          [(⌊windowMs⌋ : ℚ)])) := by
    rw [burst, ← hk, hn, List.replicate_succ, List.replicate_succ]
    simp only [List.map_append, List.map_cons, List.map_replicate, List.map_nil, List.cons_append,
      Int.cast_zero]
    exact executions_none _
  obtain ⟨hfirst, hafter⟩ := executions_burst (1 / 1000) 0 ⌊points⌋₊ hfloor le_rfl
  have hrest : 0 ≤ points - ⌊points⌋₊ := by linarith
  have hroom : points - ⌊points⌋₊ + 1 ≤ points := by linarith
  obtain ⟨hsecond, hafter'⟩ := executions_everySecond 0 k hrest hroom
  have hwithin : 1000 * (k : ℤ) ≤ ⌊windowMs⌋ := by omega
  have hlast := executions_last (points - ⌊points⌋₊) hpoints hwithin
  push_cast at hafter' hlast
  rw [zero_add] at hafter'
  rw [hstart, executions_append, allowedCount_append, hfirst, hafter, executions_append,
    allowedCount_append]
  rw [Int.cast_zero] at hsecond
  rw [hsecond, hafter']
  push_cast
  -- what is left of the points and of the window makes one token at most
  have hrest : (⌊windowMs⌋ : ℚ) - 1000 * k < 1000 := by
    have hmod : ⌊windowMs⌋ - 1000 * k < 1000 := by omega
    exact_mod_cast hmod
  split at hlast
  next henough =>
    have hcast : (1 : ℤ) ≤ allowedCount (executions points (1 / 1000)
      (some ⟨points - ⌊points⌋₊, 1000 * k⟩)
      [(⌊windowMs⌋ : ℚ)]) := by exact_mod_cast hlast
    have hbound : ⌊points + ⌊windowMs⌋ / 1000⌋ < (⌊points⌋₊ : ℤ) + k + 2 := by
      apply Int.floor_lt.mpr
      push_cast
      linarith
    omega
  next hless =>
    have hbound : ⌊points + ⌊windowMs⌋ / 1000⌋ < (⌊points⌋₊ : ℤ) + k + 1 := by
      apply Int.floor_lt.mpr
      push_cast
      linarith
    omega

include hpoints hwindow in
/-- More than twice the points, when one token per second is more than the points per window. -/
theorem not_withinTwice (h : 2 * points < (⌊points + ⌊windowMs⌋ / 1000⌋ : ℚ)) :
    ¬ WithinTwice points windowMs := by
  have hfloor := Int.floor_le (points + ⌊windowMs⌋ / 1000)
  have hwhole := Int.floor_le windowMs
  have hseconds : 0 < windowMs / 1000 := by linarith
  have hone : ⌊points / (windowMs / 1000)⌋ < 1 := by
    rw [Int.floor_lt, Int.cast_one, div_lt_one hseconds]
    linarith
  have hrefill : defaultRefill points windowMs = 1 := max_eq_left (by exact_mod_cast (by omega))
  intro hwithin
  have hbound := hwithin "" "" (burst points windowMs) (sorted_burst hwindow) 0
  rw [zero_add, checks_eq_executions hpoints _ none (fun _ h => nomatch h) {} rfl, hrefill,
    allowedWithin_executions] at hbound
  · have hcount : (⌊points + ⌊windowMs⌋ / 1000⌋ : ℚ) ≤
      (allowedCount (executions points (1 / 1000) none
        ((burst points windowMs).map fun time : ℤ => (time : ℚ))) : ℕ) := by
      exact_mod_cast le_allowedCount_burst hpoints hwindow
    linarith
  · intro now hnow
    obtain ⟨time, htime, rfl⟩ := List.mem_map.mp hnow
    obtain ⟨hlo, hhi⟩ := mem_burst hwindow htime
    have hhi' : (time : ℚ) ≤ ⌊windowMs⌋ := by exact_mod_cast hhi
    exact ⟨by exact_mod_cast hlo, by linarith⟩

end EverySecond

/-! ## When the limit holds -/

/-- **When no interval of the window's length has more than twice the points**: the points, and the
whole seconds of the window, are within twice the points. -/
theorem within_twice_iff {points windowMs : ℚ} (hpoints : 1 ≤ points) (hwindow : 0 < windowMs) :
    WithinTwice points windowMs ↔ (⌊points + ⌊windowMs⌋ / 1000⌋ : ℚ) ≤ 2 * points := by
  constructor
  · intro hwithin
    by_contra hmore
    exact not_withinTwice hpoints hwindow (not_le.mp hmore) hwithin
  · intro h
    by_cases hone : ⌊points / (windowMs / 1000)⌋ < 1
    · exact within_of_floor hpoints hwindow hone h
    · exact within_of_refill hpoints hwindow (not_lt.mp hone)

/-- A hundred requests per minute. -/
theorem within_twice_minute : WithinTwice 100 60000 :=
  (within_twice_iff (by norm_num) (by norm_num)).mpr (by norm_num)

/-- **The default settings**, a hundred requests in fifteen minutes, allow a request every
second. -/
theorem within_twice_fails : ¬ WithinTwice 100 900000 :=
  not_withinTwice (by norm_num) (by norm_num) (by norm_num)

end RateLimit
