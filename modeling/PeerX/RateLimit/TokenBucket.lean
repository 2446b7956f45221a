import PeerX.Foundations.Metering
import Mathlib.Data.List.Chain
import Mathlib.Data.Rat.Floor

/-!
# Rate limits: the token bucket

The script of the token bucket reads the tokens of a key and the time of its last execution, adds
what has been refilled since, and takes the requested tokens when there are enough. It stores the
tokens, and the time that the caller sent. A time before the stored one refills nothing, but it is
stored all the same, so that the time between the two is refilled again by the next execution.

## Main results

* `allowed_le_of_sorted`: the bound for times that do not decrease
* `allowed_exceeds`: times that go back are refilled twice
* `spaced_allowed`: a client that waits for a token each time is never refused
-/

namespace RateLimit

open Metering

/-- The fields of a key. -/
structure Bucket where
  tokens : ℚ
  last : ℚ
deriving DecidableEq

/-- The reply of the script; `reset` is in seconds. -/
structure CheckResult where
  allowed : Bool
  remaining : ℚ
  reset : ℤ
deriving DecidableEq

variable (capacity refillPerMs : ℚ)

/-- The tokens after the refill. A key that does not exist is full. -/
def refilled (now : ℚ) (data : Option Bucket) : ℚ :=
  let tokens := data.elim capacity Bucket.tokens
  let last := data.elim now Bucket.last
  let delta := max 0 (now - last)
  min capacity (tokens + delta * refillPerMs)

/-- `tokenBucketLua`: the reply, and the fields of the key after it. -/
def tokenBucketLua (now requested : ℚ) (data : Option Bucket) : CheckResult × Bucket :=
  let tokens := refilled capacity refillPerMs now data
  if requested ≤ tokens then
    (⟨true, tokens - requested, 0⟩, ⟨tokens - requested, now⟩)
  else
    let reset := if 0 < refillPerMs then ⌈(requested - tokens) / refillPerMs / 1000⌉ else 1
    (⟨false, tokens, reset⟩, ⟨tokens, now⟩)

/-- The requests of one token at some times, with their answers. -/
def executions : Option Bucket → List ℚ → List (ℚ × Bool)
  | _, [] => []
  | data, now :: nows =>
    let execution := tokenBucketLua capacity refillPerMs now 1 data
    (now, execution.1.allowed) :: executions (some execution.2) nows

/-- The number of allowed requests. -/
def allowedCount (requests : List (ℚ × Bool)) : ℕ := requests.countP Prod.snd

variable {capacity refillPerMs} {now : ℚ} {data : Option Bucket} {bucket : Bucket}

theorem refilled_none (now : ℚ) : refilled capacity refillPerMs now none = capacity := by
  simp [refilled]

/-- What an execution does: the time is stored, and what is left and what is taken were there
after the refill. -/
theorem tokenBucketLua_spec (hcapacity : 0 ≤ refilled capacity refillPerMs now data) :
    let execution := tokenBucketLua capacity refillPerMs now 1 data
    execution.2.last = now ∧ 0 ≤ execution.2.tokens ∧
      execution.2.tokens + taken execution.1.allowed = refilled capacity refillPerMs now data := by
  unfold tokenBucketLua
  dsimp only
  split
  next henough => exact ⟨rfl, sub_nonneg.mpr henough, by simp [taken]⟩
  next => exact ⟨rfl, hcapacity, by simp [taken]⟩

theorem refilled_nonneg (now : ℚ) (hcapacity : 0 ≤ capacity) (hrefill : 0 ≤ refillPerMs)
    (htokens : ∀ bucket ∈ data, 0 ≤ bucket.tokens) : 0 ≤ refilled capacity refillPerMs now data := by
  cases data with
  | none => rwa [refilled_none]
  | some bucket =>
    have hdelta : 0 ≤ max 0 (now - bucket.last) * refillPerMs := mul_nonneg (le_max_left _ _) hrefill
    exact le_min hcapacity (add_nonneg (htokens bucket rfl) hdelta)

/-- A time that is not before the stored one refills the time between the two. -/
theorem refilled_le (hlast : bucket.last ≤ now) :
    refilled capacity refillPerMs now (some bucket) ≤ bucket.tokens + refillPerMs * (now - bucket.last) := by
  refine (min_le_right _ _).trans ?_
  change bucket.tokens + max 0 (now - bucket.last) * refillPerMs ≤ _
  rw [max_eq_right (sub_nonneg.mpr hlast), mul_comm]

/-- Executions at times that do not decrease are metered. -/
theorem metered_executions (hcapacity : 0 ≤ capacity) (hrefill : 0 ≤ refillPerMs) (htokens : 0 ≤ bucket.tokens)
    {nows : List ℚ} (hsorted : (bucket.last :: nows).Pairwise (· ≤ ·)) :
    Metered capacity refillPerMs bucket.tokens bucket.last
      (executions capacity refillPerMs (some bucket) nows) := by
  induction nows generalizing bucket with
  | nil => exact Metered.nil
  | cons now nows ih =>
    obtain ⟨hall, hrest⟩ := List.pairwise_cons.mp hsorted
    have hlast := hall now List.mem_cons_self
    have hbuckets : ∀ bucket' ∈ some bucket, 0 ≤ bucket'.tokens := fun _ h => Option.some.inj h ▸ htokens
    obtain ⟨hnow, hnonneg, htotal⟩ := tokenBucketLua_spec (refilled_nonneg now hcapacity hrefill hbuckets)
    refine Metered.cons hlast hnonneg ?_ ?_ ?_
    · rw [htotal]
      exact min_le_left _ _
    · rw [htotal]
      exact refilled_le hlast
    · have hmetered := ih hnonneg (hnow.symm ▸ hrest)
      rwa [hnow] at hmetered

/-- All requests of a run are in an interval that holds their times. -/
theorem allowedWithin_executions {lo hi : ℚ} {nows : List ℚ} (hnows : ∀ now ∈ nows, lo ≤ now ∧ now ≤ hi)
    (data : Option Bucket) :
    allowedWithin lo hi (executions capacity refillPerMs data nows) =
      allowedCount (executions capacity refillPerMs data nows) := by
  induction nows generalizing data with
  | nil => rfl
  | cons now nows ih =>
    obtain ⟨hnow, hrest⟩ := List.forall_mem_cons.mp hnows
    have hih := ih hrest (some (tokenBucketLua capacity refillPerMs now 1 data).2)
    unfold allowedWithin allowedCount at hih ⊢
    rw [executions, List.countP_cons, List.countP_cons, hih]
    simp [hnow]

/-- The smallest time of a run that is not empty. -/
def smallest (now : ℚ) (nows : List ℚ) : ℚ := nows.foldl min now

/-- The largest time of a run that is not empty. -/
def largest (now : ℚ) (nows : List ℚ) : ℚ := nows.foldl max now

theorem smallest_of_sorted {nows : List ℚ} (h : (now :: nows).Pairwise (· ≤ ·)) : smallest now nows = now := by
  induction nows with
  | nil => rfl
  | cons next nows ih =>
    obtain ⟨hall, hrest⟩ := List.pairwise_cons.mp h
    rw [smallest, List.foldl_cons, min_eq_left (hall next List.mem_cons_self)]
    exact ih (List.pairwise_cons.mpr ⟨fun t ht => hall t (List.mem_cons_of_mem _ ht), (List.pairwise_cons.mp hrest).2⟩)

theorem le_largest {nows : List ℚ} : ∀ t ∈ now :: nows, t ≤ largest now nows := by
  induction nows generalizing now with
  | nil =>
    intro t ht
    exact (List.mem_singleton.mp ht).le
  | cons next nows ih =>
    intro t ht
    rw [largest, List.foldl_cons]
    have hfirst := ih (max now next) List.mem_cons_self
    rcases List.mem_cons.mp ht with rfl | ht
    · exact (le_max_left _ _).trans hfirst
    rcases List.mem_cons.mp ht with rfl | ht
    · exact (le_max_right _ _).trans hfirst
    · exact ih t (List.mem_cons_of_mem _ ht)

variable (capacity refillPerMs) in
/-- The fields of the key after some executions. -/
def dataAfter : Option Bucket → List ℚ → Option Bucket
  | data, [] => data
  | data, now :: nows => dataAfter (some (tokenBucketLua capacity refillPerMs now 1 data).2) nows

theorem dataAfter_nonneg (hcapacity : 0 ≤ capacity) (hrefill : 0 ≤ refillPerMs) (nows : List ℚ)
    (htokens : ∀ bucket ∈ data, 0 ≤ bucket.tokens) :
    ∀ bucket ∈ dataAfter capacity refillPerMs data nows, 0 ≤ bucket.tokens := by
  induction nows generalizing data with
  | nil => exact htokens
  | cons now nows ih =>
    apply ih
    intro bucket hbucket
    obtain rfl := Option.some.inj hbucket
    exact (tokenBucketLua_spec (refilled_nonneg now hcapacity hrefill htokens)).2.1

theorem executions_append (data : Option Bucket) (nows nows' : List ℚ) :
    executions capacity refillPerMs data (nows ++ nows') = executions capacity refillPerMs data nows ++
      executions capacity refillPerMs (dataAfter capacity refillPerMs data nows) nows' := by
  induction nows generalizing data with
  | nil => rfl
  | cons now nows ih =>
    rw [List.cons_append, executions, executions, ih]
    rfl

theorem allowedCount_append (requests requests' : List (ℚ × Bool)) :
    allowedCount (requests ++ requests') = allowedCount requests + allowedCount requests' := List.countP_append

/-- Whatever is stored, the first execution of a run finds no more than a full bucket. -/
theorem metered_of_sorted (hcapacity : 0 ≤ capacity) (hrefill : 0 ≤ refillPerMs)
    (htokens : ∀ bucket ∈ data, 0 ≤ bucket.tokens) {nows : List ℚ} (hsorted : (now :: nows).Pairwise (· ≤ ·)) :
    Metered capacity refillPerMs capacity now (executions capacity refillPerMs data (now :: nows)) := by
  obtain ⟨hnow, hnonneg, htotal⟩ := tokenBucketLua_spec (refilled_nonneg now hcapacity hrefill htokens)
  have hfull : refilled capacity refillPerMs now data ≤ capacity := min_le_left _ _
  refine Metered.cons le_rfl hnonneg (htotal ▸ hfull) ?_ ?_
  · rw [htotal, sub_self, mul_zero, add_zero]
    exact hfull
  · have hmetered := metered_executions hcapacity hrefill hnonneg (hnow.symm ▸ hsorted)
    rwa [hnow] at hmetered

/-- **The bound for times that do not decrease**: whatever was executed before, the requests of a
run are within a full bucket and what is refilled between the smallest and the largest time. -/
theorem allowed_le_of_sorted (hcapacity : 0 < capacity) (hrefill : 0 < refillPerMs) (before : List ℚ) {nows : List ℚ}
    (hsorted : (now :: nows).Pairwise (· ≤ ·)) :
    (allowedCount (executions capacity refillPerMs (dataAfter capacity refillPerMs none before) (now :: nows)) : ℚ) ≤
      capacity + refillPerMs * (largest now nows - smallest now nows) := by
  have htokens := dataAfter_nonneg hcapacity.le hrefill.le before (fun _ h => nomatch h : ∀ bucket ∈ none, _)
  have hmetered := metered_of_sorted hcapacity.le hrefill.le htokens hsorted
  have hfirst : now ≤ largest now nows := le_largest now List.mem_cons_self
  have hbound := hmetered.allowedWithin_le hrefill.le hcapacity.le hcapacity.le hfirst hfirst
  rw [if_pos le_rfl, allowedWithin_executions fun t ht => ⟨?_, le_largest t ht⟩] at hbound
  · rwa [smallest_of_sorted hsorted]
  · rcases List.mem_cons.mp ht with rfl | ht
    · exact le_rfl
    · exact (List.pairwise_cons.mp hsorted).1 t ht

/-- Three requests, and the last one after a refill. -/
theorem allowed_le_of_sorted_three :
    (allowedCount (executions 2 (1 / 1000) (dataAfter 2 (1 / 1000) none []) [0, 0, 1000]) : ℚ) ≤
      2 + 1 / 1000 * (largest 0 [0, 1000] - smallest 0 [0, 1000]) :=
  allowed_le_of_sorted (by norm_num) (by norm_num) [] (by norm_num [List.pairwise_cons])

/-- **Times that go back are refilled twice**: the last of four requests is allowed by the same
millisecond as the second one. -/
theorem allowed_exceeds :
    allowedCount (executions 1 1 none [0, 1, 0, 1]) = 3 ∧
      ¬ (allowedCount (executions 1 1 none [0, 1, 0, 1]) : ℚ) ≤ 1 + 1 * (largest 0 [1, 0, 1] - smallest 0 [1, 0, 1]) := by
  have hcount : allowedCount (executions 1 1 none [0, 1, 0, 1]) = 3 := by decide +kernel
  have hlargest : largest 0 [1, 0, 1] = 1 := by decide +kernel
  have hsmallest : smallest 0 [1, 0, 1] = 0 := by decide +kernel
  refine ⟨hcount, ?_⟩
  rw [hcount, hlargest, hsmallest]
  norm_num

/-- A request after a refilled token is allowed. -/
theorem allowed_of_refilled (hcapacity : 1 ≤ capacity) (hrefill : 0 < refillPerMs) (htokens : 0 ≤ bucket.tokens)
    (hnow : bucket.last + 1 / refillPerMs ≤ now) :
    (tokenBucketLua capacity refillPerMs now 1 (some bucket)).1.allowed = true := by
  have hgained : 1 ≤ (now - bucket.last) * refillPerMs := by
    rw [← div_le_iff₀ hrefill]
    linarith
  have hdelta : 1 ≤ max 0 (now - bucket.last) * refillPerMs :=
    hgained.trans (mul_le_mul_of_nonneg_right (le_max_right _ _) hrefill.le)
  have henough : 1 ≤ refilled capacity refillPerMs now (some bucket) :=
    le_min hcapacity (hdelta.trans (le_add_of_nonneg_left htokens))
  rw [tokenBucketLua, if_pos henough]

/-- **A client that waits for a token each time is never refused**: whatever was executed before, as
long as the requests are one refill apart, all of them are allowed. -/
theorem spaced_allowed (hcapacity : 1 ≤ capacity) (hrefill : 0 < refillPerMs) (before : List ℚ) {nows : List ℚ}
    (hfirst : ∀ bucket ∈ dataAfter capacity refillPerMs none before, ∀ now ∈ nows.head?, bucket.last + 1 / refillPerMs ≤ now)
    (hspaced : nows.IsChain fun now next => now + 1 / refillPerMs ≤ next) :
    ∀ request ∈ executions capacity refillPerMs (dataAfter capacity refillPerMs none before) nows, request.2 = true := by
  have htokens := dataAfter_nonneg (zero_le_one.trans hcapacity) hrefill.le before (fun _ h => nomatch h : ∀ bucket ∈ none, _)
  generalize dataAfter capacity refillPerMs none before = data at hfirst htokens
  induction nows generalizing data with
  | nil => exact fun _ h => absurd h List.not_mem_nil
  | cons now nows ih =>
    have hallowed : (tokenBucketLua capacity refillPerMs now 1 data).1.allowed = true := by
      cases data with
      | none => rw [tokenBucketLua, refilled_none, if_pos hcapacity]
      | some bucket => exact allowed_of_refilled hcapacity hrefill (htokens bucket rfl) (hfirst bucket rfl now rfl)
    obtain ⟨hlast, hnonneg, -⟩ :=
      tokenBucketLua_spec (refilled_nonneg now (zero_le_one.trans hcapacity) hrefill.le htokens)
    refine List.forall_mem_cons.mpr ⟨hallowed, ih hspaced.tail _ ?_ ?_⟩
    · intro bucket hbucket next hnext
      obtain rfl := Option.some.inj hbucket
      rw [hlast]
      exact List.isChain_cons.mp hspaced |>.1 next hnext
    · exact fun bucket hbucket => Option.some.inj hbucket ▸ hnonneg

/-- After a burst that has emptied the bucket. -/
theorem spaced_allowed_after_burst :
    (executions 2 (1 / 1000) (dataAfter 2 (1 / 1000) none [0, 0]) [1000, 2000, 3500]).all Prod.snd :=
  List.all_eq_true.mpr <|
    spaced_allowed (by norm_num) (by norm_num) [0, 0] (by decide +kernel) (by simp [List.isChain_cons]; norm_num)

end RateLimit
