import PeerX.Foundations.JsMap
import PeerX.Foundations.Runs
import Mathlib.Algebra.Order.Field.Rat
import Mathlib.Data.List.Sort
import Mathlib.Logic.Function.Basic

/-!
# Queue: circuit breakers and failover

A service has a breaker. It is opened at a failure, is tried again when a time has passed, and is
closed at a success after that. A failure sets the number of successes to zero before the rate of
failures is computed, so the rate is 1; and a half-open breaker allows all requests.

A record for each service counts what has happened: the outcomes since its breaker was last closed
or reset, and the requests that a half-open breaker has allowed and that have no outcome yet.

A service may have several targets, in the order of their priorities. An operation is tried on the
available ones, until it succeeds on one of them; a target on which it fails is not tried again
until it is marked or registered anew.

## Main results

* `conforms_iff_mild`: the calls that conform
* `along_conforms_iff`: the runs that conform
* `refused_until_retry`: an open breaker allows no request before the time of the next try
* `getNextFailoverTarget_run`: the next target, after any calls
* `executeWithFailover_eq_pass`: an execution is a pass over the available targets
-/

namespace FaultTolerance

open Concurrency Relational

/-! ## The service -/

inductive CircuitBreakerState where
  | closed | opened | halfOpen
deriving DecidableEq

/-- `faultTolerance` of the configuration, as far as the breakers read it. -/
structure FaultToleranceConfig where
  enableCircuitBreaker : Bool
  circuitBreakerThreshold : ℚ
  circuitBreakerResetTimeoutMs : ℤ

/-- `DEFAULT_HORIZONTAL_SCALING_CONFIG`. -/
def defaultConfig : FaultToleranceConfig where
  enableCircuitBreaker := true
  circuitBreakerThreshold := 1 / 2
  circuitBreakerResetTimeoutMs := 60000

structure CircuitBreaker where
  state : CircuitBreakerState
  failureCount : ℕ
  successCount : ℕ
  lastFailureTime : Option ℤ
  lastStateChange : ℤ
  nextRetryTime : Option ℤ
deriving DecidableEq

/-- A breaker that `getCircuitBreaker` makes. -/
def CircuitBreaker.new (now : ℤ) : CircuitBreaker where
  state := .closed
  failureCount := 0
  successCount := 0
  lastFailureTime := none
  lastStateChange := now
  nextRetryTime := none

/-- `circuitBreakers`. -/
abbrev Breakers : Type := JsMap String CircuitBreaker

/-- `getCircuitBreaker`. Its caller puts the breaker into the map. -/
def getCircuitBreaker (breakers : Breakers) (serviceId : String) (now : ℤ) : CircuitBreaker :=
  (breakers.get serviceId).getD (.new now)

/-- `recordSuccess`, on a breaker. -/
def CircuitBreaker.recordSuccess (breaker : CircuitBreaker) (now : ℤ) : CircuitBreaker :=
  let breaker := { breaker with successCount := breaker.successCount + 1, failureCount := 0 }
  if breaker.state = .halfOpen then { breaker with state := .closed, lastStateChange := now }
    else breaker

def CircuitBreaker.failureRate (breaker : CircuitBreaker) : ℚ :=
  breaker.failureCount / (breaker.failureCount + breaker.successCount)

/-- The breaker is opened. -/
def CircuitBreaker.trip (breaker : CircuitBreaker) (config : FaultToleranceConfig) (now : ℤ) :
    CircuitBreaker :=
  { breaker with
    state := .opened, lastStateChange := now,
      nextRetryTime := some (now + config.circuitBreakerResetTimeoutMs) }

/-- `recordFailure`, on a breaker. -/
def CircuitBreaker.recordFailure (breaker : CircuitBreaker) (config : FaultToleranceConfig)
    (now : ℤ) : CircuitBreaker :=
  let breaker :=
    { breaker with
      failureCount := breaker.failureCount + 1, successCount := 0, lastFailureTime := some now }
  match breaker.state with
  | .closed => if config.circuitBreakerThreshold ≤ breaker.failureRate
    then breaker.trip config now else breaker
  | .halfOpen => breaker.trip config now
  | .opened => breaker

/-- The time of the next try has come. -/
def CircuitBreaker.mayRetry (breaker : CircuitBreaker) (now : ℤ) : Bool :=
  breaker.nextRetryTime.any fun nextRetryTime => decide (nextRetryTime ≤ now)

/-- `isRequestAllowed`, on a breaker. -/
def CircuitBreaker.isRequestAllowed (breaker : CircuitBreaker) (now : ℤ) : Bool × CircuitBreaker :=
  match breaker.state with
  | .closed => (true, breaker)
  | .opened =>
    if breaker.mayRetry now then (true, { breaker with state := .halfOpen, lastStateChange := now })
    else (false, breaker)
  | .halfOpen => (true, breaker)

/-- `resetCircuitBreaker`, on a breaker. -/
def CircuitBreaker.reset (breaker : CircuitBreaker) (now : ℤ) : CircuitBreaker :=
  { breaker with
    state := .closed, failureCount := 0, successCount := 0, lastStateChange := now,
      nextRetryTime := none }

/-- The calls of the service. -/
inductive BreakerCall where
  | isRequestAllowed | recordSuccess | recordFailure | resetCircuitBreaker
deriving DecidableEq

/-- A call, with its service and the clock. -/
structure BreakerEvent where
  serviceId : String
  call : BreakerCall
  now : ℤ
deriving DecidableEq

/-- A call: whether a request is allowed, and the breaker after it. When breakers are disabled,
a request is allowed without a look at the breaker. -/
def call (config : FaultToleranceConfig) (breaker : CircuitBreaker) (event : BreakerEvent) :
    Bool × CircuitBreaker :=
  match event.call with
  | .isRequestAllowed =>
    if config.enableCircuitBreaker then breaker.isRequestAllowed event.now else (true, breaker)
  | .recordSuccess => (false, breaker.recordSuccess event.now)
  | .recordFailure => (false, breaker.recordFailure config event.now)
  | .resetCircuitBreaker => (false, breaker.reset event.now)

/-! ## Runs -/

/-- What has happened at a service: the outcomes since its breaker was last closed or reset, and
the requests without an outcome that the half-open breaker has allowed. -/
structure Record where
  failures : ℕ
  successes : ℕ
  probes : ℕ
deriving DecidableEq

/-- The record after a call. -/
def Record.after (record : Record) (event : BreakerEvent) (before after : CircuitBreaker)
    (allowed : Bool) : Record :=
  match event.call with
  | .isRequestAllowed =>
    if allowed ∧ after.state = .halfOpen then
      { record with probes := record.probes + 1 } else record
  | .recordSuccess =>
    if before.state ≠ .closed ∧ after.state = .closed then ⟨0, 0, 0⟩
    else { record with successes := record.successes + 1, probes := 0 }
  | .recordFailure => { record with failures := record.failures + 1, probes := 0 }
  | .resetCircuitBreaker => ⟨0, 0, 0⟩

/-- The rate of the failures among the outcomes. -/
def Record.failureRate (record : Record) : ℚ :=
  record.failures / (record.failures + record.successes)

/-- The breakers, and the records of the services. -/
structure BreakerRun where
  breakers : Breakers
  records : String → Record

/-- Nothing has happened. -/
def BreakerRun.start : BreakerRun where
  breakers := JsMap.new
  records := fun _ => ⟨0, 0, 0⟩

namespace BreakerRun

variable (config : FaultToleranceConfig) (s : BreakerRun) (event : BreakerEvent)

/-- The breaker that a call meets. -/
def before : CircuitBreaker := getCircuitBreaker s.breakers event.serviceId event.now

/-- The breaker that a call leaves. -/
def after : CircuitBreaker := (call config (s.before event) event).2

/-- A request is allowed. -/
def allowed : Bool := (call config (s.before event) event).1

/-- The record that a call leaves. -/
def recordAfter : Record :=
  (s.records event.serviceId).after event (s.before event) (s.after config event)
    (s.allowed config event)

/-- One call. When breakers are disabled, a question whether a request is allowed makes no
breaker. -/
def step : BreakerRun where
  breakers :=
    if event.call = .isRequestAllowed ∧ config.enableCircuitBreaker = false then s.breakers
    else s.breakers.set event.serviceId (s.after config event)
  records := Function.update s.records event.serviceId (s.recordAfter config event)

end BreakerRun

/-! ## The design -/

/-- The design of a circuit breaker, for one call: it is opened only at a failure and only when
the rate of the failures has reached the threshold; while it is open, no request is allowed before
the time of the next try; and while it is half-open, there is at most one request without an
outcome. -/
structure Conforms (config : FaultToleranceConfig) (s : BreakerRun)
    (event : BreakerEvent) : Prop where
  opened_at_threshold : (s.before event).state = .closed → (s.after config event).state = .opened →
    event.call = .recordFailure ∧ config.circuitBreakerThreshold ≤
      (s.recordAfter config event).failureRate
  not_before_retry : (s.before event).state = .opened → s.allowed config event →
    ∃ nextRetryTime ∈ (s.before event).nextRetryTime, nextRetryTime ≤ event.now
  one_probe : (s.after config event).state = .halfOpen → (s.recordAfter config event).probes ≤ 1

/-- The calls at which the service follows the design: a half-open breaker is asked for no other
request; if breakers are disabled, an open one is asked only at the time of the next try; and a
closed breaker records a failure when the rate of the failures reaches the threshold, with this one,
or when the threshold is more than 1. -/
def Mild (config : FaultToleranceConfig) (s : BreakerRun) (event : BreakerEvent) : Prop :=
  match event.call with
  | .isRequestAllowed => (s.before event).state ≠ .halfOpen ∧
      (config.enableCircuitBreaker = false → (s.before event).state = .opened →
        (s.before event).mayRetry event.now)
  | .recordFailure => (s.before event).state = .closed → config.circuitBreakerThreshold ≤ 1 →
      config.circuitBreakerThreshold ≤
        { s.records event.serviceId with failures := (s.records event.serviceId).failures + 1 :
          Record }.failureRate
  | _ => True

/-! ## What each call does -/

section Calls

variable {config : FaultToleranceConfig} {breaker : CircuitBreaker} {now : ℤ}

/-- The rate at a failure is 1: the successes have just been set to zero. -/
theorem state_recordFailure : (breaker.recordFailure config now).state =
    if breaker.state = .closed ∧ 1 < config.circuitBreakerThreshold then .closed else .opened := by
  have hrate : ∀ b : CircuitBreaker, b.successCount = 0 → b.failureCount ≠ 0 →
      b.failureRate = 1 := by
    intro b hsuccess hfailure
    rw [CircuitBreaker.failureRate, hsuccess, Nat.cast_zero, add_zero]
    exact div_self (Nat.cast_ne_zero.mpr hfailure)
  unfold CircuitBreaker.recordFailure
  cases hstate : breaker.state with
  | closed =>
    simp only [hrate ⟨.closed, breaker.failureCount + 1, 0, some now, breaker.lastStateChange,
      breaker.nextRetryTime⟩ rfl
      (Nat.succ_ne_zero _), true_and]
    by_cases hthreshold : config.circuitBreakerThreshold ≤ 1
    · rw [if_pos hthreshold, if_neg (not_lt.mpr hthreshold)]
      rfl
    · rw [if_neg hthreshold, if_pos (not_le.mp hthreshold)]
  | opened => simp
  | halfOpen => simp [CircuitBreaker.trip]

theorem state_recordSuccess : (breaker.recordSuccess now).state =
    if breaker.state = .halfOpen then .closed else breaker.state := by
  unfold CircuitBreaker.recordSuccess
  split
  next h => rw [if_pos h]
  next h => rw [if_neg h]

theorem isRequestAllowed_fst : (breaker.isRequestAllowed now).1 ↔
    breaker.state = .opened → breaker.mayRetry now := by
  unfold CircuitBreaker.isRequestAllowed
  cases breaker.state with
  | closed => simp
  | opened => by_cases h : breaker.mayRetry now <;> simp [h]
  | halfOpen => simp

theorem isRequestAllowed_state : (breaker.isRequestAllowed now).2.state =
    if breaker.state = .opened ∧ breaker.mayRetry now then .halfOpen else breaker.state := by
  unfold CircuitBreaker.isRequestAllowed
  cases hstate : breaker.state with
  | closed => simp [hstate]
  | opened => by_cases h : breaker.mayRetry now <;> simp [h, hstate]
  | halfOpen => simp [hstate]

theorem mayRetry_iff : breaker.mayRetry now ↔
    ∃ nextRetryTime ∈ breaker.nextRetryTime, nextRetryTime ≤ now := by
  cases h : breaker.nextRetryTime <;> simp [CircuitBreaker.mayRetry, h]

end Calls

/-! ## The calls that conform -/

section Runs

variable {config : FaultToleranceConfig} {s : BreakerRun} {event : BreakerEvent}

/-- The requests without an outcome are those of a half-open breaker, which was asked for one at
least. -/
def Probed (s : BreakerRun) : Prop :=
  ∀ serviceId now, (getCircuitBreaker s.breakers serviceId now).state = .halfOpen ↔
    (s.records serviceId).probes ≠ 0

/-- The state of the breaker of a service after a call of it. -/
theorem state_getCircuitBreaker_step (now : ℤ) :
    (getCircuitBreaker (s.step config event).breakers event.serviceId now).state =
      (s.after config event).state := by
  rw [BreakerRun.step]
  by_cases hskip : event.call = .isRequestAllowed ∧ config.enableCircuitBreaker = false
  · -- nothing is looked up, so the breaker is the one before
    obtain ⟨hcall, hdisabled⟩ := hskip
    simp only [hcall, hdisabled, and_self, if_true, BreakerRun.after, call, BreakerRun.before,
      getCircuitBreaker]
    cases s.breakers.get event.serviceId <;> rfl
  · simp only [if_neg hskip, getCircuitBreaker, JsMap.get_set_self, Option.getD_some]

theorem getCircuitBreaker_step_of_ne {serviceId : String} (h : serviceId ≠ event.serviceId)
    (now : ℤ) :
    getCircuitBreaker (s.step config event).breakers serviceId now =
      getCircuitBreaker s.breakers serviceId now := by
  rw [BreakerRun.step]
  split
  · rfl
  · rw [getCircuitBreaker, JsMap.get_set_of_ne _ h, getCircuitBreaker]

theorem records_step_self : (s.step config event).records event.serviceId =
    s.recordAfter config event :=
  Function.update_self _ _ _

theorem records_step_of_ne {serviceId : String} (h : serviceId ≠ event.serviceId) :
    (s.step config event).records serviceId = s.records serviceId :=
  Function.update_of_ne h _ _

/-- The record after a call counts requests for a half-open breaker. -/
theorem probes_recordAfter (h : Probed s) :
    (s.after config event).state = .halfOpen ↔ (s.recordAfter config event).probes ≠ 0 := by
  have hbefore : (s.before event).state = .halfOpen ↔ (s.records event.serviceId).probes ≠ 0 :=
    h event.serviceId event.now
  cases hcall : event.call with
  | isRequestAllowed =>
    simp only [BreakerRun.recordAfter, BreakerRun.allowed, BreakerRun.after,
      Record.after, call, hcall]
    split
    · rw [isRequestAllowed_state]
      cases hstate : (s.before event).state with
      | closed => simpa [hstate] using hbefore
      | opened =>
        by_cases hretry : (s.before event).mayRetry event.now
        · simp [hretry, isRequestAllowed_fst]
        · simpa [hretry, hstate] using hbefore
      | halfOpen => simp [isRequestAllowed_fst, hstate]
    · by_cases hstate : (s.before event).state = .halfOpen
      · simp [hstate]
      · simpa [hstate] using hbefore
  | recordSuccess =>
    simp only [BreakerRun.recordAfter, BreakerRun.after, Record.after, call, hcall,
      state_recordSuccess]
    cases hstate : (s.before event).state <;> simp
  | recordFailure =>
    simp only [BreakerRun.recordAfter, BreakerRun.after, Record.after, call, hcall,
      state_recordFailure]
    split <;> simp
  | resetCircuitBreaker =>
    simp [BreakerRun.recordAfter, BreakerRun.after, Record.after, call, hcall, CircuitBreaker.reset]

theorem Probed.start : Probed .start := by
  intro serviceId now
  simp [BreakerRun.start, getCircuitBreaker, CircuitBreaker.new]

/-- Each call keeps the count of the requests without an outcome. -/
theorem Probed.step (h : Probed s) : Probed (s.step config event) := by
  intro serviceId now
  by_cases hid : serviceId = event.serviceId
  · subst hid
    rw [state_getCircuitBreaker_step, probes_recordAfter h, records_step_self]
  · rw [getCircuitBreaker_step_of_ne hid, h serviceId now, records_step_of_ne hid]

/-! ### Requests -/

section Requests

variable (hcall : event.call = .isRequestAllowed)

include hcall

/-- The requests that are allowed: while a breaker is open, those at the time of the next
try. -/
theorem allowed_iff : s.allowed config event ↔
    (config.enableCircuitBreaker → (s.before event).state = .opened →
      (s.before event).mayRetry event.now) := by
  simp only [BreakerRun.allowed, call, hcall]
  split
  next henabled => rw [isRequestAllowed_fst, forall_prop_of_true henabled]
  next hdisabled => simp [hdisabled]

/-- A request that is allowed by an open breaker makes it half-open. -/
theorem state_after_request : (s.after config event).state =
    if config.enableCircuitBreaker ∧ (s.before event).state = .opened ∧
    (s.before event).mayRetry event.now then .halfOpen
    else (s.before event).state := by
  simp only [BreakerRun.after, call, hcall]
  split
  next henabled => simp only [isRequestAllowed_state, henabled, true_and]
  next hdisabled => simp only [hdisabled, false_and, if_false, Bool.false_eq_true]

theorem probes_after_request (hallowed : s.allowed config event)
    (hstate : (s.after config event).state = .halfOpen) :
    (s.recordAfter config event).probes = (s.records event.serviceId).probes + 1 := by
  simp only [BreakerRun.recordAfter, Record.after, hcall, if_pos (And.intro hallowed hstate)]

/-- The requests that conform. -/
theorem conforms_request_iff (h : Probed s) : Conforms config s event ↔ Mild config s event := by
  have hbefore : (s.before event).state = .halfOpen ↔ (s.records event.serviceId).probes ≠ 0 :=
    h event.serviceId event.now
  have hmild : Mild config s event ↔ (s.before event).state ≠ .halfOpen ∧
      (config.enableCircuitBreaker = false → (s.before event).state = .opened →
        (s.before event).mayRetry event.now) := by
    simp only [Mild, hcall]
  rw [hmild]
  constructor
  · rintro ⟨-, hretry, hprobe⟩
    constructor
    · intro hhalf
      -- the half-open breaker has allowed a request, and allows this one, too
      have hstate : (s.after config event).state = .halfOpen := by
        simp [state_after_request hcall, hhalf]
      have hallowed : s.allowed config event := (allowed_iff hcall).mpr fun _ hopen => by
        simp [hhalf] at hopen
      have hone := hprobe hstate
      rw [probes_after_request hcall hallowed hstate] at hone
      have hpos := hbefore.mp hhalf
      omega
    · intro hdisabled hopen
      exact mayRetry_iff.mpr
        (hretry hopen ((allowed_iff hcall).mpr fun henabled => by simp [hdisabled] at henabled))
  · rintro ⟨hhalf, hdisabled⟩
    have hzero : (s.records event.serviceId).probes = 0 := not_not.mp (mt hbefore.mpr hhalf)
    constructor
    · intro hclosed hopened
      simp [state_after_request hcall, hclosed] at hopened
    · intro hopen hallowed
      apply mayRetry_iff.mp
      cases henabled : config.enableCircuitBreaker with
      | true => exact (allowed_iff hcall).mp hallowed henabled hopen
      | false => exact hdisabled henabled hopen
    · intro hstate
      simp only [BreakerRun.recordAfter, Record.after, hcall]
      split
      · simp only [hzero]
        omega
      · omega

/-- An open breaker allows no request before the time of the next try, when breakers are
enabled. -/
theorem not_allowed_before_retry (henabled : config.enableCircuitBreaker)
    (hstate : (s.before event).state = .opened)
    (hretry : ∀ nextRetryTime ∈ (s.before event).nextRetryTime, event.now < nextRetryTime) :
    ¬ s.allowed config event := by
  intro hallowed
  obtain ⟨nextRetryTime, hmem, hle⟩ :=
    mayRetry_iff.mp ((allowed_iff hcall).mp hallowed henabled hstate)
  exact absurd (hretry nextRetryTime hmem) (not_lt.mpr hle)

end Requests

/-! ### Outcomes -/

/-- The failures that conform: those that open the breaker at the threshold. -/
theorem conforms_failure_iff (hcall : event.call = .recordFailure) : Conforms config s event ↔
    Mild config s event := by
  have hafter : (s.after config event).state =
      if (s.before event).state = .closed ∧ 1 < config.circuitBreakerThreshold then .closed
        else .opened := by
    simp only [BreakerRun.after, call, hcall, state_recordFailure]
  have hrate : (s.recordAfter config event).failureRate =
      { s.records event.serviceId with failures := (s.records event.serviceId).failures + 1 :
        Record }.failureRate := by
    simp only [BreakerRun.recordAfter, Record.after, hcall, Record.failureRate]
  simp only [Mild, hcall, ← hrate]
  constructor
  · intro hconforms hclosed hthreshold
    refine (hconforms.opened_at_threshold hclosed ?_).2
    rw [hafter, if_neg fun h => not_lt.mpr hthreshold h.2]
  · intro hmild
    constructor
    · intro hclosed hopened
      refine ⟨hcall, hmild hclosed ?_⟩
      rw [hafter] at hopened
      by_contra hlt
      rw [if_pos ⟨hclosed, not_le.mp hlt⟩] at hopened
      cases hopened
    · intro _ hallowed
      simp [BreakerRun.allowed, call, hcall] at hallowed
    · intro hhalf
      rw [hafter] at hhalf
      split at hhalf <;> cases hhalf

/-- A success, or a reset, always conforms: it does not open a breaker, and it leaves none
half-open. -/
theorem conforms_of_not_opened (hallowed : s.allowed config event = false)
    (hopened : (s.after config event).state = .opened → (s.before event).state = .opened)
    (hhalf : (s.after config event).state ≠ .halfOpen) : Conforms config s event where
  opened_at_threshold := by
    intro hclosed hafter
    rw [hopened hafter] at hclosed
    cases hclosed
  not_before_retry := by simp [hallowed]
  one_probe := fun hstate => absurd hstate hhalf

/-- **The calls that conform.** -/
theorem conforms_iff_mild (h : Probed s) : Conforms config s event ↔ Mild config s event := by
  cases hcall : event.call with
  | isRequestAllowed => exact conforms_request_iff hcall h
  | recordFailure => exact conforms_failure_iff hcall
  | recordSuccess =>
    have hafter : (s.after config event).state =
        if (s.before event).state = .halfOpen then .closed else (s.before event).state := by
      simp only [BreakerRun.after, call, hcall, state_recordSuccess]
    refine iff_of_true (conforms_of_not_opened ?_ ?_ ?_) (by simp only [Mild, hcall])
    · simp [BreakerRun.allowed, call, hcall]
    · rw [hafter]
      cases (s.before event).state <;> simp
    · rw [hafter]
      cases (s.before event).state <;> simp
  | resetCircuitBreaker =>
    refine iff_of_true (conforms_of_not_opened ?_ ?_ ?_) (by simp only [Mild, hcall])
    · simp [BreakerRun.allowed, call, hcall]
    · simp [BreakerRun.after, call, hcall, CircuitBreaker.reset]
    · simp [BreakerRun.after, call, hcall, CircuitBreaker.reset]

/-- **The runs that conform** are those of mild calls. -/
theorem along_conforms_iff (config : FaultToleranceConfig) (events : List BreakerEvent) :
    Along (BreakerRun.step config) (Conforms config) .start events ↔
      Along (BreakerRun.step config) (Mild config) .start events :=
  along_iff_along (I := Probed) (fun _ _ h => conforms_iff_mild h)
    (fun _ _ h _ => h.step) Probed.start

/-! ### The wait for the next try -/

/-- The breaker of a service is open until a time. -/
def Waits (serviceId : String) (retry : ℤ) (s : BreakerRun) : Prop :=
  ∃ breaker, s.breakers.get serviceId = some breaker ∧ breaker.state = .opened ∧
    breaker.nextRetryTime = some retry

/-- A call before that time, other than a reset, is not allowed and leaves the breaker
waiting. -/
theorem Waits.step {serviceId : String} {retry : ℤ} (henabled : config.enableCircuitBreaker)
    (h : Waits serviceId retry s)
    (hearly : event.serviceId = serviceId → event.now < retry ∧ event.call ≠ .resetCircuitBreaker) :
    Waits serviceId retry (s.step config event) ∧
    (event.serviceId = serviceId → ¬ s.allowed config event) := by
  obtain ⟨breaker, hget, hstate, hretry⟩ := h
  by_cases hid : event.serviceId = serviceId
  · obtain ⟨hnow, hreset⟩ := hearly hid
    have hbefore : s.before event = breaker := by
      rw [BreakerRun.before, getCircuitBreaker, hid, hget, Option.getD_some]
    have hmay : breaker.mayRetry event.now = false := by
      rw [CircuitBreaker.mayRetry, hretry, Option.any_some, decide_eq_false (not_le.mpr hnow)]
    have hafter : (s.after config event).state = .opened ∧
        (s.after config event).nextRetryTime = some retry := by
      rw [BreakerRun.after, hbefore]
      cases hcall : event.call with
      | isRequestAllowed =>
        simp [call, hcall, henabled, CircuitBreaker.isRequestAllowed, hstate, hmay, hretry]
      | recordSuccess => simp [call, hcall, CircuitBreaker.recordSuccess, hstate, hretry]
      | recordFailure => simp [call, hcall, CircuitBreaker.recordFailure, hstate, hretry]
      | resetCircuitBreaker => exact absurd hcall hreset
    refine ⟨⟨_, ?_, hafter⟩, fun _ hallowed => ?_⟩
    · simp [BreakerRun.step, henabled, hid]
    · cases hcall : event.call with
      | isRequestAllowed =>
        refine not_allowed_before_retry hcall henabled (hbefore ▸ hstate)
          (fun next hnext => ?_) hallowed
        rw [hbefore, hretry, Option.mem_some_iff] at hnext
        exact hnext ▸ hnow
      | _ => simp [BreakerRun.allowed, call, hcall] at hallowed
  · refine ⟨⟨breaker, ?_, hstate, hretry⟩, fun h => absurd h hid⟩
    rw [BreakerRun.step]
    split
    · exact hget
    · exact (JsMap.get_set_of_ne _ (Ne.symm hid) _).trans hget

/-- **An opened breaker refuses the requests of its service** up to the time of the next try,
whatever is called of it but a reset, and of the other services. -/
theorem refused_until_retry (henabled : config.enableCircuitBreaker) {failure : BreakerEvent}
    (hcall : failure.call = .recordFailure) (hbefore : (s.before failure).state ≠ .opened)
    (hafter : (s.after config failure).state = .opened) {events : List BreakerEvent}
    (hevents : ∀ event ∈ events, event.serviceId = failure.serviceId →
      event.now < failure.now + config.circuitBreakerResetTimeoutMs ∧
      event.call ≠ .resetCircuitBreaker) :
    Along (BreakerRun.step config) (fun s event => event.serviceId = failure.serviceId →
      ¬ s.allowed config event)
      (s.step config failure) events := by
  have hwaits : Waits failure.serviceId (failure.now + config.circuitBreakerResetTimeoutMs)
      (s.step config failure) := by
    refine ⟨s.after config failure, by simp [BreakerRun.step, hcall], hafter, ?_⟩
    simp only [BreakerRun.after, call, hcall, CircuitBreaker.recordFailure] at hafter ⊢
    cases hstate : (s.before failure).state with
    | closed =>
      simp only [hstate] at hafter ⊢
      split at hafter
      next hrate => rw [if_pos hrate]; rfl
      next => simp at hafter
    | opened => exact absurd hstate hbefore
    | halfOpen => rfl
  clear hbefore hafter
  generalize s.step config failure = s at hwaits
  induction events generalizing s with
  | nil => trivial
  | cons event events ih =>
    obtain ⟨hnext, hrefused⟩ := hwaits.step henabled (hevents event List.mem_cons_self)
    exact ⟨hrefused, ih (fun event h => hevents event (List.mem_cons_of_mem _ h)) _ hnext⟩

end Runs

/-- Three successes and a failure, and then, after the time of the next try, two requests. -/
def outage : List BreakerEvent :=
  [⟨"email", .recordSuccess, 0⟩, ⟨"email", .recordSuccess, 1⟩, ⟨"email", .recordSuccess, 2⟩,
    ⟨"email", .recordFailure, 3⟩, ⟨"email", .isRequestAllowed, 60003⟩,
      ⟨"email", .isRequestAllowed, 60004⟩]

/-- The failure opens the breaker at a rate of one in four, and the half-open breaker allows both
requests. -/
theorem outage_not_conforms :
    ¬ Conforms defaultConfig (run (BreakerRun.step defaultConfig) .start (outage.take 3))
    ⟨"email", .recordFailure, 3⟩ ∧
      ¬ Conforms defaultConfig (run (BreakerRun.step defaultConfig) .start (outage.take 5))
        ⟨"email", .isRequestAllowed, 60004⟩ ∧
      ¬ Along (BreakerRun.step defaultConfig) (Conforms defaultConfig) .start outage := by
  have hfailure : ¬ Conforms defaultConfig (run (BreakerRun.step defaultConfig) .start
    (outage.take 3))
      ⟨"email", .recordFailure, 3⟩ := by
    intro h
    have hrate := (h.opened_at_threshold (by decide) (by decide +kernel)).2
    revert hrate
    decide +kernel
  refine ⟨hfailure, fun h => ?_, fun h => hfailure h.2.2.2.1⟩
  have hprobes := h.one_probe (by decide +kernel)
  revert hprobes
  decide +kernel

/-- Requests before the time of the next try. -/
theorem refused_until_retry_outage : Along (BreakerRun.step defaultConfig)
    (fun s event => event.serviceId = "email" → ¬ s.allowed defaultConfig event)
    (BreakerRun.start.step defaultConfig ⟨"email", .recordFailure, 3⟩)
    [⟨"email", .isRequestAllowed, 60002⟩] :=
  @refused_until_retry defaultConfig .start rfl ⟨"email", .recordFailure, 3⟩ rfl (by decide)
    (by decide +kernel) _
    (by decide)

/-! ## Failover -/

section Failover

structure FailoverTarget where
  targetId : String
  priority : ℚ
  isAvailable : Bool
  consecutiveFailures : ℕ
deriving DecidableEq

/-- The failover targets of a service, in the order in which they are tried. -/
abbrev Targets : Type := Table FailoverTarget.targetId

theorem nodup_sort (targets : Targets) :
    ((targets.rows.insertionSort fun a b => a.priority ≤ b.priority).map
      FailoverTarget.targetId).Nodup :=
  ((List.perm_insertionSort _ _).map _).nodup_iff.mpr targets.nodup

/-- `registerFailoverTarget`. A target that was there is available again, and keeps its failures. -/
def registerFailoverTarget (targets : Targets) (targetId : String) (priority : ℚ) : Targets :=
  let saved := targets.save <|
    match targets.find targetId with
    | some existing => { existing with priority, isAvailable := true }
    | none => ⟨targetId, priority, true, 0⟩
  ⟨saved.rows.insertionSort fun a b => a.priority ≤ b.priority, nodup_sort saved⟩

def unregisterFailoverTarget (targets : Targets) (targetId : String) : Bool × Targets :=
  ((targets.find targetId).isSome, targets.erase targetId)

def getNextFailoverTarget (targets : Targets) : Option FailoverTarget :=
  targets.rows.find? FailoverTarget.isAvailable

/-- What a call of the operation changes of its target. -/
def FailoverTarget.mark (succeeded : Bool) (target : FailoverTarget) : FailoverTarget :=
  if succeeded then { target with isAvailable := true, consecutiveFailures := 0 }
  else { target with isAvailable := false, consecutiveFailures := target.consecutiveFailures + 1 }

def markTargetUnavailable (targets : Targets) (targetId : String) : Targets :=
  targets.modify targetId (.mark false)

def markTargetAvailable (targets : Targets) (targetId : String) : Targets :=
  targets.modify targetId (.mark true)

/-- `enableFailover` and `maxFailoverAttempts` of the configuration. -/
structure FailoverConfig where
  enableFailover : Bool
  maxFailoverAttempts : ℕ

variable {ε α : Type}

/-- What `executeWithFailover` throws: an error of the operation or of the fallback, or its own
one. -/
inductive FailoverError (ε : Type) : Type
  | thrown (error : ε)
  | message (text : String)

/-- What an execution does: its result, the targets it leaves, and its calls of the operation, with
their success. -/
structure Execution (ε α : Type) where
  result : Except ε α
  targets : Targets
  calls : List (String × Bool)

/-- The loop of `executeWithFailover`, with the attempts that are left and the last error. -/
def failoverAttempts (operation : ℕ → String → Except ε α) : ℕ → ℕ → Option ε → Targets →
    Execution (Option ε) α
  | 0, _, lastError, targets => ⟨.error lastError, targets, []⟩
  | left + 1, attempt, lastError, targets =>
    match getNextFailoverTarget targets with
    | none => ⟨.error lastError, targets, []⟩
    | some target =>
      match operation attempt target.targetId with
      | .ok result =>
        ⟨.ok result, markTargetAvailable targets target.targetId, [(target.targetId, true)]⟩
      | .error error =>
        let execution := failoverAttempts operation left (attempt + 1) (some error)
          (markTargetUnavailable targets target.targetId)
        { execution with calls := (target.targetId, false) :: execution.calls }

/-- What is returned after the loop. -/
def afterAttempts (serviceId : String) (fallback : Option (Except ε α)) :
    Except (Option ε) α → Except (FailoverError ε) α
  | .ok result => .ok result
  | .error lastError =>
    match fallback with
    | some returned => returned.mapError .thrown
    | none =>
      .error (lastError.elim (.message s!"All failover attempts failed for {serviceId}") .thrown)

/-- `executeWithFailover`, while nothing else happens to the targets. What the operation does may
depend on the number of the attempt. -/
def executeWithFailover (config : FailoverConfig) (serviceId : String)
    (operation : ℕ → String → Except ε α)
    (fallback : Option (Except ε α)) (targets : Targets) : Execution (FailoverError ε) α :=
  if config.enableFailover then
    let execution := failoverAttempts operation config.maxFailoverAttempts 0 none targets
    { execution with result := afterAttempts serviceId fallback execution.result }
  else
    let returned := operation 0 serviceId
    ⟨returned.mapError .thrown, targets, [(serviceId, returned.toOption.isSome)]⟩

/-- A pass over targets: each one is called once, in their order, up to the first success. -/
def pass (operation : ℕ → String → Except ε α) :
    ℕ → Option ε → List String → Except (Option ε) α × List (String × Bool)
  | _, lastError, [] => (.error lastError, [])
  | attempt, _, targetId :: rest =>
    match operation attempt targetId with
    | .ok result => (.ok result, [(targetId, true)])
    | .error error =>
      let passed := pass operation (attempt + 1) (some error) rest
      (passed.1, (targetId, false) :: passed.2)

/-- The ids of the available ones of some targets. -/
def available (targets : List FailoverTarget) : List String :=
  (targets.filter FailoverTarget.isAvailable).map FailoverTarget.targetId

/-- A target after calls of it and of others. -/
def FailoverTarget.after (calls : List (String × Bool)) (target : FailoverTarget) :
    FailoverTarget :=
  (calls.lookup target.targetId).elim target target.mark

variable {targets : Targets} {target : FailoverTarget} {targetId : String}

theorem targetId_mark (succeeded : Bool) (target : FailoverTarget) :
    (target.mark succeeded).targetId = target.targetId := by
  cases succeeded <;> rfl

theorem isAvailable_mark (succeeded : Bool) (target : FailoverTarget) :
    (target.mark succeeded).isAvailable = succeeded := by
  cases succeeded <;> rfl

theorem priority_mark (succeeded : Bool) (target : FailoverTarget) :
    (target.mark succeeded).priority = target.priority := by
  cases succeeded <;> rfl

theorem nodup_available (targets : Targets) : (available targets.rows).Nodup :=
  targets.nodup.sublist (List.filter_sublist.map _)

theorem head?_available (targets : Targets) :
    (available targets.rows).head? = (getNextFailoverTarget targets).map
      FailoverTarget.targetId := by
  rw [available, List.head?_map, List.head?_filter, getNextFailoverTarget]

/-- A target that has failed is not available any more. -/
theorem available_markTargetUnavailable (targets : Targets) (targetId : String) :
    available (markTargetUnavailable targets targetId).rows =
      (available targets.rows).filter fun id => id ≠ targetId := by
  rw [markTargetUnavailable, Table.rows_modify (targetId_mark false)]
  induction targets.rows with
  | nil => rfl
  | cons t rows ih =>
    by_cases hid : t.targetId = targetId <;> cases havailable : t.isAvailable <;>
      simpa [available, hid, havailable, isAvailable_mark, targetId_mark] using ih

/-- A target after a call of it or of another one, and further calls of others. -/
theorem after_cons {calls : List (String × Bool)} (h : calls.lookup targetId = none)
    (succeeded : Bool)
    (t : FailoverTarget) : t.after ((targetId, succeeded) :: calls) =
      (if t.targetId = targetId then t.mark succeeded else t).after calls := by
  by_cases hid : t.targetId = targetId
  · subst hid
    rw [if_pos rfl, FailoverTarget.after, FailoverTarget.after, List.lookup_cons_self,
      targetId_mark, h]
    rfl
  · rw [if_neg hid, FailoverTarget.after, FailoverTarget.after, List.lookup_cons,
      beq_eq_false_iff_ne.mpr hid]

/-- The calls of a pass are those of the first targets, up to one of them. -/
theorem map_fst_pass (operation : ℕ → String → Except ε α) (attempt : ℕ) (lastError : Option ε)
    (ids : List String) :
    (pass operation attempt lastError ids).2.map Prod.fst <+: ids := by
  induction ids generalizing attempt lastError with
  | nil => exact List.prefix_rfl
  | cons targetId rest ih =>
    rw [pass]
    split
    next => exact List.prefix_append [targetId] rest
    next error _ => exact (List.prefix_cons_inj targetId).mpr (ih (attempt + 1) (some error))

/-- The loop is a pass over the available targets, and marks those that it calls. -/
theorem failoverAttempts_eq_pass (operation : ℕ → String → Except ε α) (left attempt : ℕ)
    (lastError : Option ε) (targets : Targets) :
    let execution := failoverAttempts operation left attempt lastError targets
    (execution.result, execution.calls) = pass operation attempt lastError
      ((available targets.rows).take left) ∧
      execution.targets.rows = targets.rows.map (FailoverTarget.after execution.calls) := by
  induction left generalizing attempt lastError targets with
  | zero => exact ⟨rfl, (List.map_id' _).symm⟩
  | succ left ih =>
    have hhead := head?_available targets
    rw [failoverAttempts]
    cases hnext : getNextFailoverTarget targets with
    | none =>
      rw [hnext, Option.map_none, List.head?_eq_none_iff] at hhead
      rw [hhead]
      exact ⟨rfl, (List.map_id' _).symm⟩
    | some target =>
      rw [hnext, Option.map_some, List.head?_eq_some_iff] at hhead
      obtain ⟨rest, havailable⟩ := hhead
      rw [havailable, List.take_succ_cons, pass]
      dsimp only
      cases operation attempt target.targetId with
      | ok result =>
        refine ⟨rfl, (Table.rows_modify (targetId_mark true) _).trans ?_⟩
        exact List.map_congr_left fun t _ => (@after_cons _ [] rfl true t).symm
      | error error =>
        dsimp only
        obtain ⟨hpass, hrows⟩ :=
          ih (attempt + 1) (some error) (markTargetUnavailable targets target.targetId)
        have hnodup := List.nodup_cons.mp (havailable ▸ nodup_available targets)
        have hrest : available (markTargetUnavailable targets target.targetId).rows = rest := by
          rw [available_markTargetUnavailable, havailable, List.filter_cons_of_neg (by simp)]
          exact List.filter_eq_self.mpr fun id hid => decide_eq_true fun heq => hnodup.1 (heq ▸ hid)
        rw [hrest] at hpass
        obtain ⟨hresult, hcalls⟩ := Prod.mk.inj hpass
        -- the target is not called again
        have hlookup : (failoverAttempts operation left (attempt + 1) (some error)
            (markTargetUnavailable targets target.targetId)).calls.lookup
              target.targetId = none := by
          refine List.lookup_eq_none_iff.mpr fun call hcall => bne_iff_ne.mpr fun heq => hnodup.1 ?_
          rw [hcalls] at hcall
          exact heq ▸ List.take_subset _ _ ((map_fst_pass ..).subset (List.mem_map_of_mem hcall))
        refine ⟨Prod.ext hresult (congrArg (List.cons _) hcalls), ?_⟩
        rw [hrows, markTargetUnavailable, Table.rows_modify (targetId_mark false), List.map_map]
        exact List.map_congr_left fun t _ => (after_cons hlookup false t).symm

/-- **An execution is a pass over the available targets**, in their order and as many as there are
attempts. Each one is called at most once; those that fail are unavailable afterwards, the one that
succeeds has no failures, and the others are as before. -/
theorem executeWithFailover_eq_pass {config : FailoverConfig} (henabled : config.enableFailover)
    (serviceId : String) (operation : ℕ → String → Except ε α) (fallback : Option (Except ε α))
    (targets : Targets) :
    let execution := executeWithFailover config serviceId operation fallback targets
    let ids := (available targets.rows).take config.maxFailoverAttempts
    execution.result = afterAttempts serviceId fallback (pass operation 0 none ids).1 ∧
      execution.calls = (pass operation 0 none ids).2 ∧
      execution.calls.map Prod.fst <+: ids ∧ (execution.calls.map Prod.fst).Nodup ∧
      execution.targets.rows = targets.rows.map (FailoverTarget.after execution.calls) := by
  dsimp only
  obtain ⟨hpass, hrows⟩ :=
    failoverAttempts_eq_pass operation config.maxFailoverAttempts 0 none targets
  obtain ⟨hresult, hcalls⟩ := Prod.mk.inj hpass
  have hordered :=
    map_fst_pass operation 0 none ((available targets.rows).take config.maxFailoverAttempts)
  rw [executeWithFailover, if_pos henabled]
  refine ⟨congrArg (afterAttempts serviceId fallback) hresult, hcalls, hcalls ▸ hordered,
    hcalls ▸ ?_, hrows⟩
  exact (hordered.sublist.trans (List.take_sublist _ _)).nodup (nodup_available targets)

/-- Two mail servers. -/
def mailServers : Targets :=
  registerFailoverTarget (registerFailoverTarget .empty "backup" 2) "smtp" 1

/-- The first server fails, and the second one sends the mail. -/
theorem executeWithFailover_eq_pass_mailServers :
    (executeWithFailover ⟨true, 3⟩ "email"
      (fun _ targetId => if targetId = "smtp" then .error 1 else .ok 2) none mailServers).calls =
    [("smtp", false), ("backup", true)] := by
  refine (@executeWithFailover_eq_pass ℕ ℕ ⟨true, 3⟩ rfl "email" _ none mailServers).2.1.trans ?_
  decide +kernel

/-- A call that changes the targets. An execution makes the two last ones. -/
inductive FailoverCall : Type
  | registerFailoverTarget (targetId : String) (priority : ℚ)
  | unregisterFailoverTarget (targetId : String)
  | markTargetUnavailable (targetId : String)
  | markTargetAvailable (targetId : String)

/-- The targets after a call. -/
def failoverStep (targets : Targets) : FailoverCall → Targets
  | .registerFailoverTarget targetId priority => registerFailoverTarget targets targetId priority
  | .unregisterFailoverTarget targetId => (unregisterFailoverTarget targets targetId).2
  | .markTargetUnavailable targetId => markTargetUnavailable targets targetId
  | .markTargetAvailable targetId => markTargetAvailable targets targetId

/-- The targets are in the order of their priorities. -/
def ByPriority (targets : Targets) : Prop :=
  targets.rows.Pairwise fun a b => a.priority ≤ b.priority

theorem ByPriority.modify (h : ByPriority targets) (succeeded : Bool) (targetId : String) :
    ByPriority (targets.modify targetId (.mark succeeded)) := by
  rw [ByPriority, Table.rows_modify (targetId_mark succeeded)]
  refine List.pairwise_map.mpr (List.Pairwise.imp (fun {a b} hab => ?_) h)
  split <;> split <;> simpa only [priority_mark] using hab

/-- The targets are in the order of their priorities, after any calls. -/
theorem byPriority_run (calls : List FailoverCall) :
    ByPriority (run failoverStep .empty calls) := by
  have hempty : ByPriority Table.empty := List.Pairwise.nil
  refine run_invariant' (fun targets call h => ?_) hempty calls
  cases call with
  | registerFailoverTarget targetId priority =>
    have htotal : Std.Total fun a b : FailoverTarget => a.priority ≤ b.priority :=
      ⟨fun a b => le_total a.priority b.priority⟩
    have htrans : IsTrans FailoverTarget fun a b => a.priority ≤ b.priority :=
      ⟨fun _ _ _ => le_trans⟩
    exact List.pairwise_insertionSort _ _
  | unregisterFailoverTarget targetId => exact List.Pairwise.filter _ h
  | markTargetUnavailable targetId => exact h.modify false targetId
  | markTargetAvailable targetId => exact h.modify true targetId

/-- **The next target is an available one of the least priority**, after any calls, in any order. -/
theorem getNextFailoverTarget_run (calls : List FailoverCall) :
    let targets := run failoverStep .empty calls
    match getNextFailoverTarget targets with
    | none => ∀ t ∈ targets.rows, t.isAvailable = false
    | some target => target ∈ targets.rows ∧ target.isAvailable ∧
        ∀ t ∈ targets.rows, t.isAvailable → target.priority ≤ t.priority := by
  intro targets
  have hsorted : ByPriority targets := byPriority_run calls
  cases hfind : getNextFailoverTarget targets with
  | none => simpa [getNextFailoverTarget] using hfind
  | some target =>
    obtain ⟨havailable, before, rest, heq, hbefore⟩ := List.find?_eq_some_iff_append.mp hfind
    rw [ByPriority, heq] at hsorted
    refine ⟨List.mem_of_find?_eq_some hfind, havailable, fun t ht htavailable => ?_⟩
    rw [heq, List.mem_append, List.mem_cons] at ht
    rcases ht with hb | rfl | hr
    · simpa [htavailable] using hbefore t hb
    · exact le_rfl
    · exact (List.pairwise_cons.mp (List.pairwise_append.mp hsorted).2.1).1 t hr

end Failover

end FaultTolerance
