import PeerX.Foundations.JsMap
import PeerX.Foundations.Runs
import Mathlib.Algebra.Order.Floor.Semifield
import Mathlib.Data.Rat.Floor
import Mathlib.Algebra.Order.BigOperators.Group.List

/-!
# Queue: the manager of the workers

The manager scales the workers of the queues. The numbers of a scaling event are computed from the
number of the counted workers (active, idle or busy) and from the bounds of the pool. New workers
are added one by one. Of the workers, only idle ones are removed, and if the number to remove is
negative, the array of them is cut at its end.

## Main results

* `Keyed.step`: each worker is listed under its own id
* `truthful_iff_feasible`: the steps whose events tell the truth
* `addsUp_iff`, `sharesFit_exact_iff`: when the shares of the queues add up
* `truthful_and_addsUp_iff`: both, over runs
-/

namespace Workers

open Concurrency Relational

/-! ## The service -/

/-- `workerPool` of the configuration, as far as scaling reads it. -/
structure WorkerPool where
  minWorkers : ℕ
  maxWorkers : ℕ
  scaleUpStep : ℕ
  scaleDownStep : ℕ

/-- The pool of `DEFAULT_HORIZONTAL_SCALING_CONFIG`. -/
def defaultPool : WorkerPool where
  minWorkers := 2
  maxWorkers := 100
  scaleUpStep := 5
  scaleDownStep := 2

/-- `status` of a worker. -/
inductive WorkerStatus where
  | active | idle | busy | unhealthy | offline
deriving DecidableEq

structure WorkerNode where
  workerId : String
  hostname : String
  pid : ℤ
  status : WorkerStatus
  capacity : ℚ
  currentLoad : ℚ
  lastHeartbeat : ℤ
deriving DecidableEq

/-- `type` of a scaling event. -/
inductive ScalingType where
  | scaleUp | scaleDown
deriving DecidableEq

structure ScalingEvent where
  timestamp : ℤ
  type : ScalingType
  queueName : String
  previousWorkers : ℕ
  newWorkers : ℚ
  reason : String
deriving DecidableEq

/-- `QueueWorkerManagerService`. -/
structure WorkerManager where
  workers : JsMap String WorkerNode
  workerIdCounter : ℕ
  scalingHistory : List ScalingEvent
  lastScaleUpTime : JsMap String ℤ
  lastScaleDownTime : JsMap String ℤ

def WorkerManager.new : WorkerManager where
  workers := JsMap.new
  workerIdCounter := 0
  scalingHistory := []
  lastScaleUpTime := JsMap.new
  lastScaleDownTime := JsMap.new

namespace WorkerManager

/-- The id of the `n`-th worker. -/
def workerIdOf (hostname : String) (pid : ℤ) (n : ℕ) : String :=
  "worker-" ++ hostname ++ "-" ++ pid.repr ++ "-" ++ n.repr

def registerWorker (s : WorkerManager) (hostname : String) (pid : ℤ) (capacity : ℚ) (now : ℤ) :
    WorkerManager :=
  let workerId := workerIdOf hostname pid (s.workerIdCounter + 1)
  { s with
    workerIdCounter := s.workerIdCounter + 1
    workers := s.workers.set workerId ⟨workerId, hostname, pid, .active, capacity, 0, now⟩ }

def unregisterWorker (s : WorkerManager) (workerId : String) : Bool × WorkerManager :=
  if s.workers.has workerId then (true, { s with workers := s.workers.delete workerId })
    else (false, s)

/-- A worker that is listed is changed. -/
def updateWorker (s : WorkerManager) (workerId : String) (change : WorkerNode → WorkerNode) :
    Bool × WorkerManager :=
  match s.workers.get workerId with
  | some worker => (true, { s with workers := s.workers.set workerId (change worker) })
  | none => (false, s)

def updateWorkerHeartbeat (s : WorkerManager) (workerId : String) (now : ℤ) :
    Bool × WorkerManager :=
  s.updateWorker workerId fun worker => { worker with lastHeartbeat := now }

/-- The status of a worker with a load. -/
def statusOf (capacity currentLoad : ℚ) : WorkerStatus :=
  if capacity ≤ currentLoad then .busy else if 0 < currentLoad then .active else .idle

def updateWorkerLoad (s : WorkerManager) (workerId : String) (currentLoad : ℚ) :
    Bool × WorkerManager :=
  s.updateWorker workerId fun worker =>
    { worker with currentLoad, status := statusOf worker.capacity currentLoad }

/-- The workers that `getActiveWorkersCount` counts. -/
def isCounted (worker : WorkerNode) : Bool :=
  worker.status = .active || worker.status = .idle || worker.status = .busy

def getActiveWorkersCount (s : WorkerManager) : ℕ := (s.workers.values.filter isCounted).length

def checkWorkerHealth (s : WorkerManager) (now : ℤ) : WorkerManager :=
  { s with
    workers := s.workers.mapValues fun worker =>
      if 30000 < now - worker.lastHeartbeat ∧ worker.status ≠ .offline
        then { worker with status := .unhealthy }
      else worker }

/-- A number of workers registered one after the other. -/
def registerWorkers (s : WorkerManager) (hostname : String) (pid : ℤ) (capacity : ℚ) (now : ℤ) :
    ℕ → WorkerManager
  | 0 => s
  | n + 1 =>
    registerWorkers (s.registerWorker hostname pid capacity now) hostname pid capacity now n

/-- `scaleUp`, in the process `pid`. The loop runs as long as its counter is less than the
number to add. -/
def scaleUp (pool : WorkerPool) (pid : ℤ) (s : WorkerManager) (queueName : String)
    (count : Option ℚ) (now : ℤ) :
    ScalingEvent × WorkerManager :=
  let currentWorkers := s.getActiveWorkersCount
  let newWorkers := min (currentWorkers + count.getD pool.scaleUpStep) pool.maxWorkers
  let actualAdded := newWorkers - currentWorkers
  let grown := s.registerWorkers ("auto-" ++ queueName) pid 10 now ⌈actualAdded⌉₊
  let event : ScalingEvent :=
    { timestamp := now, type := .scaleUp, queueName, previousWorkers := currentWorkers, newWorkers
      reason := "Auto-scaled up by " ++ toString actualAdded ++ " workers" }
  (event, { grown with
    scalingHistory := grown.scalingHistory ++
      [event], lastScaleUpTime := grown.lastScaleUpTime.set queueName now })

/-- `slice(0, stop)`: a stop that is negative counts from the end. -/
def sliceTo {α : Type} (l : List α) (stop : ℚ) : List α :=
  if 0 ≤ stop then l.take ⌊stop⌋₊ else l.take (l.length - ⌊-stop⌋₊)

def scaleDown (pool : WorkerPool) (s : WorkerManager) (queueName : String) (count : Option ℚ)
    (now : ℤ) :
    ScalingEvent × WorkerManager :=
  let currentWorkers := s.getActiveWorkersCount
  let newWorkers := max (currentWorkers - count.getD pool.scaleDownStep) pool.minWorkers
  let actualRemoved := currentWorkers - newWorkers
  let idleWorkers :=
    sliceTo (s.workers.values.filter fun worker => worker.status = .idle) actualRemoved
  let shrunk := idleWorkers.foldl (fun s worker => (s.unregisterWorker worker.workerId).2) s
  let event : ScalingEvent :=
    { timestamp := now, type := .scaleDown, queueName, previousWorkers := currentWorkers, newWorkers
      reason := "Auto-scaled down by " ++ toString actualRemoved ++ " workers" }
  (event, { shrunk with
    scalingHistory := shrunk.scalingHistory ++
      [event], lastScaleDownTime := shrunk.lastScaleDownTime.set queueName now })

end WorkerManager

/-! ## Rebalancing -/

/-- How results of arithmetic are rounded: a number that is not negative stays so. -/
structure Arithmetic where
  round : ℚ → ℚ
  round_nonneg : ∀ a, 0 ≤ a → 0 ≤ round a

/-- No rounding. -/
def Arithmetic.exact : Arithmetic where
  round := id
  round_nonneg := fun _ h => h

/-- `totalWorkers * proportion`. -/
def exactShare (arithmetic : Arithmetic) (totalWorkers totalWaiting waiting : ℕ) : ℚ :=
  arithmetic.round (totalWorkers * arithmetic.round (waiting / totalWaiting))

/-- `workersForQueue`. `Math.round` rounds a half up. -/
def workersForQueue (arithmetic : Arithmetic) (totalWorkers totalWaiting waiting : ℕ) : ℤ :=
  max 1 ⌊exactShare arithmetic totalWorkers totalWaiting waiting + 1 / 2⌋

/-- The jobs that wait in all queues. -/
def totalWaiting (queueMetrics : JsMap String ℕ) : ℕ := queueMetrics.values.sum

/-- `rebalanceWorkers`: the distribution, if jobs wait. -/
def rebalanceWorkers (arithmetic : Arithmetic) (s : WorkerManager) (queueMetrics : JsMap String ℕ) :
    Option (JsMap String ℤ) :=
  if totalWaiting queueMetrics = 0 then none
  else some (queueMetrics.entries.foldl (fun distribution entry => distribution.set entry.1
    (workersForQueue arithmetic s.getActiveWorkersCount (totalWaiting queueMetrics) entry.2))
      JsMap.new)

/-! ## Runs -/

/-- A call of the manager. The counts are not negative. -/
inductive WorkerEvent where
  | registerWorker (hostname : String) (pid : ℤ) (capacity : ℚ) (now : ℤ)
  | unregisterWorker (workerId : String)
  | updateWorkerHeartbeat (workerId : String) (now : ℤ)
  | updateWorkerLoad (workerId : String) (currentLoad : ℚ)
  | checkWorkerHealth (now : ℤ)
  | scaleUp (queueName : String) (count : Option NNRat) (now : ℤ)
  | scaleDown (queueName : String) (count : Option NNRat) (now : ℤ)

/-- One call: its scaling event, and the manager after it. -/
def perform (pool : WorkerPool) (pid : ℤ) (s : WorkerManager) :
    WorkerEvent → Option ScalingEvent × WorkerManager
  | .registerWorker hostname pid capacity now => (none, s.registerWorker hostname pid capacity now)
  | .unregisterWorker workerId => (none, (s.unregisterWorker workerId).2)
  | .updateWorkerHeartbeat workerId now => (none, (s.updateWorkerHeartbeat workerId now).2)
  | .updateWorkerLoad workerId currentLoad => (none, (s.updateWorkerLoad workerId currentLoad).2)
  | .checkWorkerHealth now => (none, s.checkWorkerHealth now)
  | .scaleUp queueName count now =>
    let (event, s) := s.scaleUp pool pid queueName (count.map (↑)) now
    (some event, s)
  | .scaleDown queueName count now =>
    let (event, s) := s.scaleDown pool queueName (count.map (↑)) now
    (some event, s)

/-- The manager after a call. -/
def step (pool : WorkerPool) (pid : ℤ) (s : WorkerManager) (e : WorkerEvent) : WorkerManager :=
  (perform pool pid s e).2

/-- The scaling event of a call tells the truth: it has the number of the counted workers after
the call, and says how many workers there are more or less. Scaling up does not raise the count
above the maximum, and scaling down does not lower it below the minimum. -/
structure Truthful (pool : WorkerPool) (pid : ℤ) (s : WorkerManager) (e : WorkerEvent) : Prop where
  count_eq : ∀ event ∈ (perform pool pid s e).1,
    event.newWorkers = (step pool pid s e).getActiveWorkersCount
  change_eq : ∀ event ∈ (perform pool pid s e).1,
    event.newWorkers - event.previousWorkers = (step pool pid s e).workers.size - s.workers.size
  not_above : ∀ queueName count now, e = .scaleUp queueName count now →
    (step pool pid s e).getActiveWorkersCount ≤ pool.maxWorkers ∨
      (step pool pid s e).getActiveWorkersCount ≤ s.getActiveWorkersCount
  not_below : ∀ queueName count now, e = .scaleDown queueName count now →
    pool.minWorkers ≤ (step pool pid s e).getActiveWorkersCount ∨
      s.getActiveWorkersCount ≤ (step pool pid s e).getActiveWorkersCount

/-- A whole number. -/
def IsWhole (a : ℚ) : Prop := ∃ n : ℕ, a = n

/-- The idle workers. -/
def idleCount (s : WorkerManager) : ℕ :=
  (s.workers.values.filter fun worker => worker.status = .idle).length

/-- The steps that can be carried out as they are computed: the count of the workers is within
the bounds, the number to add or to remove is whole, and there are enough idle workers to remove. -/
def Feasible (pool : WorkerPool) (s : WorkerManager) : WorkerEvent → Prop
  | .scaleUp _ count _ =>
    let count : ℚ := (count.map (↑)).getD pool.scaleUpStep
    s.getActiveWorkersCount ≤ pool.maxWorkers ∧
      (IsWhole count ∨ (pool.maxWorkers - s.getActiveWorkersCount : ℚ) ≤ count)
  | .scaleDown _ count _ =>
    let count : ℚ := (count.map (↑)).getD pool.scaleDownStep
    pool.minWorkers ≤ s.getActiveWorkersCount ∧
      min count (s.getActiveWorkersCount - pool.minWorkers) ≤ idleCount s ∧
      (IsWhole count ∨ (s.getActiveWorkersCount - pool.minWorkers : ℚ) ≤ count)
  | _ => True

/-! ## Ids -/

theorem eq_of_append_repr_eq {before before' : List Char} {m n : ℕ}
    (h : before ++ '-' :: Nat.toDigits 10 m = before' ++ '-' :: Nat.toDigits 10 n) : m = n := by
  have hdigits : ∀ (l : List Char) (k : ℕ),
      ((l ++ '-' :: Nat.toDigits 10 k).reverse.takeWhile fun c => c ≠ '-') =
        (Nat.toDigits 10 k).reverse := by
    intro l k
    have hall : ∀ c ∈ (Nat.toDigits 10 k).reverse, decide (c ≠ '-') = true := by
      intro c hc
      have hdigit := Nat.isDigit_of_mem_toDigits (by decide) (by decide) (List.mem_reverse.mp hc)
      apply decide_eq_true
      rintro rfl
      revert hdigit
      decide
    rw [List.reverse_append, List.reverse_cons, List.append_assoc,
      List.takeWhile_append_of_pos hall]
    simp
  have hreverse :=
    (hdigits before m).symm.trans ((congrArg _ (congrArg List.reverse h)).trans (hdigits before' n))
  rw [← Nat.ofDigitChars_ten_toDigits (n := m), List.reverse_inj.mp hreverse,
    Nat.ofDigitChars_ten_toDigits]

theorem eq_of_workerIdOf_eq {hostname hostname' : String} {pid pid' : ℤ} {m n : ℕ}
    (h : WorkerManager.workerIdOf hostname pid m = WorkerManager.workerIdOf hostname' pid' n) :
    m = n := by
  have hchars := congrArg String.toList h
  simp only [WorkerManager.workerIdOf, String.toList_append, Nat.toList_repr] at hchars
  have hsplit : ("worker-" ++ hostname ++ "-" ++ pid.repr).toList ++ '-' :: Nat.toDigits 10 m =
      ("worker-" ++ hostname' ++ "-" ++ pid'.repr).toList ++ '-' :: Nat.toDigits 10 n := by
    simpa [String.toList_append] using hchars
  exact eq_of_append_repr_eq hsplit

/-- Each worker is listed under its own id, and the number of its id has been issued. -/
structure Keyed (s : WorkerManager) : Prop where
  workerId_eq : ∀ k worker, s.workers.get k = some worker → worker.workerId = k
  issued : ∀ k, s.workers.has k → ∃ hostname pid, ∃ n ≤ s.workerIdCounter,
    k = WorkerManager.workerIdOf hostname pid n

namespace Keyed

variable {s : WorkerManager}

theorem new : Keyed WorkerManager.new where
  workerId_eq := by simp [WorkerManager.new]
  issued := by simp [WorkerManager.new, JsMap.has]

theorem fresh (h : Keyed s) (hostname : String) (pid : ℤ) :
    ¬ s.workers.has (WorkerManager.workerIdOf hostname pid (s.workerIdCounter + 1)) := by
  intro hhas
  obtain ⟨hostname', pid', n, hn, hid⟩ := h.issued _ hhas
  have hlast := eq_of_workerIdOf_eq hid
  omega

/-- Keys that were there, with workers of the same ids. -/
theorem of_workers {s' : WorkerManager} (h : Keyed s)
    (hcounter : s'.workerIdCounter = s.workerIdCounter)
    (hworkers : ∀ k worker', s'.workers.get k = some worker' →
      ∃ worker, s.workers.get k = some worker ∧ worker.workerId = worker'.workerId) : Keyed s' where
  workerId_eq := by
    intro k worker' hget
    obtain ⟨worker, hworker, hid⟩ := hworkers k worker' hget
    rw [← hid, h.workerId_eq k worker hworker]
  issued := by
    intro k hhas
    obtain ⟨worker', hget⟩ := Option.isSome_iff_exists.mp hhas
    obtain ⟨worker, hworker, -⟩ := hworkers k worker' hget
    rw [hcounter]
    exact h.issued k (Option.isSome_iff_exists.mpr ⟨worker, hworker⟩)

theorem registerWorker (h : Keyed s) (hostname : String) (pid : ℤ) (capacity : ℚ) (now : ℤ) :
    Keyed (s.registerWorker hostname pid capacity now) where
  workerId_eq := by
    intro k worker hget
    simp only [WorkerManager.registerWorker, JsMap.get_set] at hget
    split at hget
    next hk => obtain rfl := Option.some.inj hget; exact hk.symm
    next => exact h.workerId_eq k worker hget
  issued := by
    intro k hhas
    simp only [WorkerManager.registerWorker, JsMap.has, JsMap.get_set] at hhas
    split at hhas
    next hk => exact ⟨hostname, pid, _, le_rfl, hk⟩
    next =>
      obtain ⟨hostname', pid', n, hn, hid⟩ := h.issued k hhas
      exact ⟨hostname', pid', n, Nat.le_succ_of_le hn, hid⟩

theorem delete (h : Keyed s) (workerId : String) :
    Keyed { s with workers := s.workers.delete workerId } := by
  refine h.of_workers rfl ?_
  intro k worker hget
  simp only [JsMap.get_delete] at hget
  split at hget
  next => contradiction
  next => exact ⟨worker, hget, rfl⟩

theorem deleteAll (h : Keyed s) (workerIds : List String) :
    Keyed { s with workers := s.workers.deleteAll workerIds } := by
  refine h.of_workers rfl ?_
  intro k worker hget
  simp only [JsMap.get_deleteAll] at hget
  split at hget
  next => contradiction
  next => exact ⟨worker, hget, rfl⟩

theorem updateWorker (h : Keyed s) (workerId : String) {change : WorkerNode → WorkerNode}
    (hchange : ∀ worker, (change worker).workerId = worker.workerId) :
    Keyed (s.updateWorker workerId change).2 := by
  cases hget : s.workers.get workerId with
  | none => simpa only [WorkerManager.updateWorker, hget] using h
  | some worker =>
    simp only [WorkerManager.updateWorker, hget]
    refine h.of_workers rfl ?_
    intro k worker' hworker'
    rw [JsMap.get_set] at hworker'
    split at hworker'
    next hk =>
      subst hk
      obtain rfl := Option.some.inj hworker'
      exact ⟨worker, hget, (hchange worker).symm⟩
    next => exact ⟨worker', hworker', rfl⟩

theorem checkWorkerHealth (h : Keyed s) (now : ℤ) : Keyed (s.checkWorkerHealth now) := by
  refine h.of_workers rfl ?_
  intro k worker' hget
  rw [WorkerManager.checkWorkerHealth, JsMap.get_mapValues, Option.map_eq_some_iff] at hget
  obtain ⟨worker, hworker, rfl⟩ := hget
  refine ⟨worker, hworker, ?_⟩
  split <;> rfl

theorem registerWorkers (h : Keyed s) (hostname : String) (pid : ℤ) (capacity : ℚ) (now : ℤ)
    (n : ℕ) :
    Keyed (s.registerWorkers hostname pid capacity now n) := by
  induction n generalizing s with
  | zero => exact h
  | succ n ih => exact ih (h.registerWorker hostname pid capacity now)

end Keyed

/-! ## What scaling does -/

namespace WorkerManager

variable {s : WorkerManager}

theorem getActiveWorkersCount_eq (s : WorkerManager) :
    s.getActiveWorkersCount = (s.workers.entries.filter fun entry => isCounted entry.2).length := by
  rw [getActiveWorkersCount, JsMap.values, List.filter_map, List.length_map]
  rfl

theorem count_registerWorker (h : Keyed s) (hostname : String) (pid : ℤ) (capacity : ℚ) (now : ℤ) :
    (s.registerWorker hostname pid capacity now).getActiveWorkersCount =
      s.getActiveWorkersCount + 1 := by
  rw [getActiveWorkersCount_eq, getActiveWorkersCount_eq, registerWorker,
    JsMap.entries_set_of_not_has (h.fresh hostname pid), List.filter_append, List.length_append]
  rfl

theorem size_registerWorker (h : Keyed s) (hostname : String) (pid : ℤ) (capacity : ℚ) (now : ℤ) :
    (s.registerWorker hostname pid capacity now).workers.size = s.workers.size + 1 :=
  JsMap.size_set_of_not_has (h.fresh hostname pid)

theorem count_registerWorkers (h : Keyed s) (hostname : String) (pid : ℤ) (capacity : ℚ) (now : ℤ)
    (n : ℕ) :
    (s.registerWorkers hostname pid capacity now n).getActiveWorkersCount =
      s.getActiveWorkersCount + n := by
  induction n generalizing s with
  | zero => rfl
  | succ n ih =>
    rw [registerWorkers, ih (h.registerWorker hostname pid capacity now), count_registerWorker h]
    omega

theorem size_registerWorkers (h : Keyed s) (hostname : String) (pid : ℤ) (capacity : ℚ) (now : ℤ)
    (n : ℕ) :
    (s.registerWorkers hostname pid capacity now n).workers.size = s.workers.size + n := by
  induction n generalizing s with
  | zero => rfl
  | succ n ih =>
    rw [registerWorkers, ih (h.registerWorker hostname pid capacity now), size_registerWorker h]
    omega

theorem unregisterWorker_snd (s : WorkerManager) (workerId : String) :
    (s.unregisterWorker workerId).2 = { s with workers := s.workers.delete workerId } := by
  unfold unregisterWorker
  split
  next => rfl
  next h => rw [JsMap.delete_of_not_has h]

theorem foldl_unregisterWorker (s : WorkerManager) (l : List WorkerNode) :
    l.foldl (fun s worker => (s.unregisterWorker worker.workerId).2) s =
      { s with workers := s.workers.deleteAll (l.map WorkerNode.workerId) } := by
  induction l generalizing s with
  | nil => rfl
  | cons worker l ih => rw [List.foldl_cons, ih, unregisterWorker_snd]; rfl

theorem sliceTo_sublist {α : Type} (l : List α) (stop : ℚ) : (sliceTo l stop).Sublist l := by
  unfold sliceTo
  split <;> exact List.take_sublist _ _

theorem sliceTo_map {α β : Type} (f : α → β) (l : List α) (stop : ℚ) :
    sliceTo (l.map f) stop = (sliceTo l stop).map f := by
  unfold sliceTo
  split <;> simp [List.map_take]

theorem length_sliceTo_of_nonneg {α : Type} (l : List α) {stop : ℚ} (h : 0 ≤ stop) :
    (sliceTo l stop).length = min ⌊stop⌋₊ l.length := by
  rw [sliceTo, if_pos h, List.length_take]

/-- The workers that are removed, with their keys. -/
def removed (s : WorkerManager) (actualRemoved : ℚ) : List (String × WorkerNode) :=
  sliceTo (s.workers.entries.filter fun entry => entry.2.status = .idle) actualRemoved

theorem removed_sublist (s : WorkerManager) (actualRemoved : ℚ) :
    (s.removed actualRemoved).Sublist s.workers.entries :=
  (sliceTo_sublist _ _).trans List.filter_sublist

theorem idle_of_removed {actualRemoved : ℚ} {entry : String × WorkerNode}
    (h : entry ∈ s.removed actualRemoved) :
    entry.2.status = .idle := by
  have hmem := (sliceTo_sublist _ _).subset h
  simpa using (List.mem_filter.mp hmem).2

theorem idleCount_eq (s : WorkerManager) :
    idleCount s = (s.workers.entries.filter fun entry => entry.2.status = .idle).length := by
  rw [idleCount, JsMap.values, List.filter_map, List.length_map]
  rfl

theorem workers_scaleDown (h : Keyed s) (pool : WorkerPool) (queueName : String) (count : Option ℚ)
    (now : ℤ) :
    (s.scaleDown pool queueName count now).2.workers =
      s.workers.deleteAll ((s.removed (s.getActiveWorkersCount -
        max (s.getActiveWorkersCount - count.getD pool.scaleDownStep) pool.minWorkers)).map
          Prod.fst) := by
  -- each worker that is removed is listed under its own id
  have hids : ∀ a : ℚ, (sliceTo (s.workers.values.filter fun worker => worker.status = .idle) a).map
      WorkerNode.workerId = (s.removed a).map Prod.fst := by
    intro a
    rw [JsMap.values, List.filter_map, sliceTo_map, List.map_map]
    apply List.map_congr_left
    intro entry hentry
    have hmem := (s.removed_sublist a).subset hentry
    exact h.workerId_eq entry.1 entry.2 (JsMap.mem_entries.mp hmem)
  simp only [scaleDown, foldl_unregisterWorker, hids]

theorem count_deleteAll (s : WorkerManager) (a : ℚ) :
    ({ s with workers := s.workers.deleteAll ((s.removed a).map Prod.fst) } :
      WorkerManager).getActiveWorkersCount +
      (s.removed a).length = s.getActiveWorkersCount := by
  rw [getActiveWorkersCount_eq, getActiveWorkersCount_eq]
  apply JsMap.length_filter_deleteAll (s.removed_sublist a)
  intro entry hentry
  simp [isCounted, idle_of_removed hentry]

theorem size_deleteAll (s : WorkerManager) (a : ℚ) :
    (s.workers.deleteAll ((s.removed a).map Prod.fst)).size +
    (s.removed a).length = s.workers.size := by
  have h := JsMap.length_filter_deleteAll (m := s.workers) (s.removed_sublist a)
      (p := fun _ => true) (fun _ _ => rfl)
  rwa [List.filter_true, List.filter_true] at h

end WorkerManager

theorem Keyed.step {s : WorkerManager} (h : Keyed s) (pool : WorkerPool) (pid : ℤ)
    (e : WorkerEvent) :
    Keyed (step pool pid s e) := by
  cases e with
  | registerWorker hostname pid capacity now => exact h.registerWorker hostname pid capacity now
  | unregisterWorker workerId =>
    have hafter := h.delete workerId
    rwa [← s.unregisterWorker_snd] at hafter
  | updateWorkerHeartbeat workerId now => exact h.updateWorker workerId fun _ => rfl
  | updateWorkerLoad workerId currentLoad => exact h.updateWorker workerId fun _ => rfl
  | checkWorkerHealth now => exact h.checkWorkerHealth now
  | scaleUp queueName count now =>
    refine (h.registerWorkers ("auto-" ++ queueName) pid 10 now _).of_workers rfl ?_
    exact fun k worker hget => ⟨worker, hget, rfl⟩
  | scaleDown queueName count now =>
    simp only [Workers.step, perform, WorkerManager.scaleDown, WorkerManager.foldl_unregisterWorker]
    exact (h.deleteAll _).of_workers rfl fun k worker hget => ⟨worker, hget, rfl⟩

/-! ## Events that tell the truth -/

theorem isWhole_iff_ceil (a : ℚ) : IsWhole a ↔ a = ⌈a⌉₊ := by
  constructor
  · rintro ⟨n, rfl⟩
    rw [Nat.ceil_natCast]
  · exact fun heq => ⟨_, heq⟩

/-- A number that is cut at a distance is whole if the distance is not negative and the number is
whole, or cut. -/
theorem isWhole_min_iff (k : ℚ) (upper lower : ℕ) :
    IsWhole (min k (upper - lower)) ↔ lower ≤ upper ∧ (IsWhole k ∨ (upper - lower : ℚ) ≤ k) := by
  constructor
  · rintro ⟨n, hn⟩
    have hdistance : (lower : ℚ) ≤ upper := by
      have hle := hn.symm.le.trans (min_le_right k _)
      have hn0 : (0 : ℚ) ≤ n := n.cast_nonneg
      linarith
    refine ⟨Nat.cast_le.mp hdistance, (le_total k (upper - lower)).imp_left fun hle => ⟨n, ?_⟩⟩
    rwa [min_eq_left hle] at hn
  · rintro ⟨hle, hcount⟩
    have hcut : ((upper - lower : ℕ) : ℚ) = upper - lower := Nat.cast_sub hle
    rcases le_total k (upper - lower) with hmin | hmin
    · rw [min_eq_left hmin]
      rcases hcount with hwhole | hge
      · exact hwhole
      · exact ⟨upper - lower, (hcut.trans (hge.antisymm hmin)).symm⟩
    · exact ⟨upper - lower, by rw [min_eq_right hmin, hcut]⟩

theorem add_cut_sub (c k upper : ℚ) : min (c + k) upper - c = min k (upper - c) := by
  rcases le_total (c + k) upper with h | h
  · rw [min_eq_left h, min_eq_left (by linarith), add_sub_cancel_left]
  · rw [min_eq_right h, min_eq_right (by linarith)]

theorem sub_sub_cut (c k lower : ℚ) : c - max (c - k) lower = min k (c - lower) := by
  rcases le_total (c - k) lower with h | h
  · rw [max_eq_right h, min_eq_right (by linarith)]
  · rw [max_eq_left h, min_eq_left (by linarith), sub_sub_cancel]

variable {pool : WorkerPool} {pid : ℤ} {s : WorkerManager}

/-- Scaling up tells the truth when the number to add is whole. -/
theorem truthful_scaleUp_iff (h : Keyed s) (queueName : String) (count : Option NNRat) (now : ℤ) :
    Truthful pool pid s (.scaleUp queueName count now) ↔
      Feasible pool s (.scaleUp queueName count now) := by
  set k : ℚ := (count.map (↑)).getD pool.scaleUpStep
  set current := s.getActiveWorkersCount
  set newWorkers : ℚ := min (current + k) pool.maxWorkers with hnew
  have hcount : (step pool pid s (.scaleUp queueName count now)).getActiveWorkersCount =
      current + ⌈newWorkers - current⌉₊ :=
    WorkerManager.count_registerWorkers h _ _ _ _ _
  have hsize : (step pool pid s (.scaleUp queueName count now)).workers.size =
      s.workers.size + ⌈newWorkers - current⌉₊ :=
    WorkerManager.size_registerWorkers h _ _ _ _ _
  -- a worker is registered for each started unit: the two agree on whole numbers only
  have hfeasible : Feasible pool s (.scaleUp queueName count now) ↔
      newWorkers - current = ⌈newWorkers - current⌉₊ := by
    rw [← isWhole_iff_ceil, hnew, add_cut_sub, isWhole_min_iff]
    rfl
  rw [hfeasible]
  constructor
  · intro htruthful
    have hevent : newWorkers =
        (step pool pid s (.scaleUp queueName count now)).getActiveWorkersCount :=
      htruthful.count_eq _ rfl
    rw [hcount, Nat.cast_add] at hevent
    exact sub_eq_of_eq_add' hevent
  · intro hwhole
    have hevent : newWorkers =
        (step pool pid s (.scaleUp queueName count now)).getActiveWorkersCount := by
      rw [hcount, Nat.cast_add]
      exact eq_add_of_sub_eq' hwhole
    refine ⟨?_, ?_, ?_, fun _ _ _ heq => by contradiction⟩
    · rintro event ⟨⟩
      exact hevent
    · rintro event ⟨⟩
      rw [hsize, Nat.cast_add, add_sub_cancel_left]
      exact hwhole
    · intro _ _ _ _
      left
      rw [← Nat.cast_le (α := ℚ), ← hevent, hnew]
      exact min_le_right _ _

/-- As many workers are removed as there are to be, when the number is whole and so many are
idle. -/
theorem WorkerManager.eq_length_removed_iff (s : WorkerManager) (k : ℚ) (upper lower : ℕ) :
    min k (upper - lower) = (s.removed (min k (upper - lower))).length ↔
      lower ≤ upper ∧ min k (upper - lower) ≤ idleCount s ∧
      (IsWhole k ∨ (upper - lower : ℚ) ≤ k) := by
  have hwhole := isWhole_min_iff k upper lower
  set out : ℚ := min k (upper - lower)
  have hlength : 0 ≤ out → (s.removed out).length = min ⌊out⌋₊ (idleCount s) := by
    intro hout
    rw [WorkerManager.removed, WorkerManager.length_sliceTo_of_nonneg _ hout,
      WorkerManager.idleCount_eq]
  constructor
  · intro heq
    have hout : 0 ≤ out := heq ▸ Nat.cast_nonneg _
    obtain ⟨hle, hcount⟩ := hwhole.mp ⟨_, heq⟩
    refine ⟨hle, ?_, hcount⟩
    rw [heq, hlength hout, Nat.cast_le]
    exact min_le_right _ _
  · rintro ⟨hle, hidle, hcount⟩
    obtain ⟨n, hn⟩ := hwhole.mpr ⟨hle, hcount⟩
    have hout : 0 ≤ out := hn ▸ Nat.cast_nonneg _
    rw [hn, Nat.cast_le] at hidle
    rw [hlength hout, hn, Nat.floor_natCast, min_eq_left hidle]

/-- Scaling down tells the truth when the number to remove is whole and so many workers are
idle. -/
theorem truthful_scaleDown_iff (h : Keyed s) (queueName : String) (count : Option NNRat) (now : ℤ) :
    Truthful pool pid s (.scaleDown queueName count now) ↔
      Feasible pool s (.scaleDown queueName count now) := by
  set k : ℚ := (count.map (↑)).getD pool.scaleDownStep
  set current := s.getActiveWorkersCount with hcurrent
  set newWorkers : ℚ := max (current - k) pool.minWorkers with hnew
  set out := s.removed (current - newWorkers)
  have hworkers : (step pool pid s (.scaleDown queueName count now)).workers =
      s.workers.deleteAll (out.map Prod.fst) :=
    WorkerManager.workers_scaleDown h pool queueName _ now
  have hcount : (step pool pid s (.scaleDown queueName count now)).getActiveWorkersCount +
      out.length = current := by
    rw [hcurrent, ← WorkerManager.count_deleteAll s (current - newWorkers),
      WorkerManager.getActiveWorkersCount,
      hworkers]
    rfl
  have hsize : (step pool pid s (.scaleDown queueName count now)).workers.size + out.length =
      s.workers.size := by
    rw [hworkers]
    exact WorkerManager.size_deleteAll s _
  -- the requested number is cut by the minimum, and the removed workers are counted
  have hfeasible : Feasible pool s (.scaleDown queueName count now) ↔
      current - newWorkers = out.length := by
    have hremoved := s.eq_length_removed_iff k current pool.minWorkers
    have hcut : current - newWorkers = min k (current - pool.minWorkers) := sub_sub_cut _ _ _
    change _ ↔ (current - newWorkers : ℚ) = (s.removed (current - newWorkers)).length
    rw [hcut]
    exact hremoved.symm
  have hbefore : (current : ℚ) =
      (step pool pid s (.scaleDown queueName count now)).getActiveWorkersCount + out.length := by
    rw [← hcount, Nat.cast_add]
  rw [hfeasible]
  constructor
  · intro htruthful
    have hevent : newWorkers =
        (step pool pid s (.scaleDown queueName count now)).getActiveWorkersCount :=
      htruthful.count_eq _ rfl
    rw [hbefore, hevent, add_sub_cancel_left]
  · intro hout
    have hevent : newWorkers =
        (step pool pid s (.scaleDown queueName count now)).getActiveWorkersCount := by
      linarith
    refine ⟨?_, ?_, fun _ _ _ heq => by contradiction, ?_⟩
    · rintro event ⟨⟩
      exact hevent
    · rintro event ⟨⟩
      rw [← hsize, Nat.cast_add, sub_add_cancel_left, ← hout]
      exact (neg_sub _ _).symm
    · intro _ _ _ _
      left
      rw [← Nat.cast_le (α := ℚ), ← hevent, hnew]
      exact le_max_right _ _

/-- **The steps whose events tell the truth.** -/
theorem truthful_iff_feasible (h : Keyed s) (e : WorkerEvent) : Truthful pool pid s e ↔
    Feasible pool s e := by
  cases e with
  | scaleUp queueName count now => exact truthful_scaleUp_iff h queueName count now
  | scaleDown queueName count now => exact truthful_scaleDown_iff h queueName count now
  | _ => exact iff_of_true ⟨by simp [perform], by simp [perform], by simp, by simp⟩ trivial

/-! ## Shares -/

/-- The whole part of a queue's share. -/
def wholeShare (arithmetic : Arithmetic) (totalWorkers totalWaiting waiting : ℕ) : ℕ :=
  ⌊exactShare arithmetic totalWorkers totalWaiting waiting⌋₊

/-- The share of a queue is raised when it is less than one worker, or has half a worker over
its whole part. -/
def isRaised (arithmetic : Arithmetic) (totalWorkers totalWaiting waiting : ℕ) : Bool :=
  exactShare arithmetic totalWorkers totalWaiting waiting < 1 ∨
    1 / 2 ≤ Int.fract (exactShare arithmetic totalWorkers totalWaiting waiting)

/-- The shares fit: jobs wait in no queue, or there are fewer workers than queues, or as many
queues have a raised share as there are workers left over by the whole parts. -/
def SharesFit (arithmetic : Arithmetic) (totalWorkers : ℕ) (queueMetrics : JsMap String ℕ) : Prop :=
  let total := totalWaiting queueMetrics
  total = 0 ∨ totalWorkers < queueMetrics.size ∨
    (queueMetrics.values.filter (isRaised arithmetic totalWorkers total)).length +
      (queueMetrics.values.map (wholeShare arithmetic totalWorkers total)).sum = totalWorkers

/-- The distribution adds up to the number of the counted workers, if there are as many as
queues. -/
def AddsUp (arithmetic : Arithmetic) (s : WorkerManager) (queueMetrics : JsMap String ℕ) : Prop :=
  queueMetrics.size ≤ s.getActiveWorkersCount →
    ∀ distribution ∈ rebalanceWorkers arithmetic s queueMetrics,
    distribution.values.sum = s.getActiveWorkersCount

theorem exactShare_nonneg (arithmetic : Arithmetic) (totalWorkers totalWaiting waiting : ℕ) :
    0 ≤ exactShare arithmetic totalWorkers totalWaiting waiting := by
  apply arithmetic.round_nonneg
  apply mul_nonneg totalWorkers.cast_nonneg
  apply arithmetic.round_nonneg
  positivity

/-- A number that is not negative is rounded to its whole part, or to the next number. -/
theorem max_one_floor_add_half {a : ℚ} (h : 0 ≤ a) :
    max 1 ⌊a + 1 / 2⌋ = (if a < 1 ∨ 1 / 2 ≤ Int.fract a then 1 else 0) + (⌊a⌋₊ : ℤ) := by
  rw [Int.natCast_floor_eq_floor h]
  have hsplit : (⌊a⌋ : ℚ) + Int.fract a = a := Int.floor_add_fract a
  have hfract : Int.fract a < 1 := Int.fract_lt_one a
  have hwhole : 0 ≤ ⌊a⌋ := Int.floor_nonneg.mpr h
  by_cases hhalf : 1 / 2 ≤ Int.fract a
  · have hfloor : ⌊a + 1 / 2⌋ = ⌊a⌋ + 1 := by
      rw [Int.floor_eq_iff]
      push_cast
      constructor <;> linarith
    rw [hfloor, if_pos (.inr hhalf)]
    omega
  · have hfloor : ⌊a + 1 / 2⌋ = ⌊a⌋ := by
      rw [Int.floor_eq_iff]
      have hfract0 := Int.fract_nonneg a
      constructor <;> linarith
    rw [hfloor]
    by_cases hone : a < 1
    · rw [if_pos (.inl hone), (Int.floor_eq_zero_iff.mpr ⟨h, hone⟩)]
      rfl
    · have hfloor1 : 1 ≤ ⌊a⌋ := Int.le_floor.mpr (by simpa using hone)
      rw [if_neg (not_or_intro hone hhalf)]
      omega

theorem workersForQueue_eq (arithmetic : Arithmetic) (totalWorkers totalWaiting waiting : ℕ) :
    workersForQueue arithmetic totalWorkers totalWaiting waiting =
      (if isRaised arithmetic totalWorkers totalWaiting waiting then 1 else 0) +
        (wholeShare arithmetic totalWorkers totalWaiting waiting : ℤ) := by
  have h := max_one_floor_add_half (exactShare_nonneg arithmetic totalWorkers totalWaiting waiting)
  simpa only [workersForQueue, isRaised, wholeShare, decide_eq_true_eq] using h

/-- The distribution adds up to the whole parts and the raised shares. -/
theorem sum_workersForQueue (arithmetic : Arithmetic) (totalWorkers totalWaiting : ℕ)
    (waitings : List ℕ) :
    (waitings.map (workersForQueue arithmetic totalWorkers totalWaiting)).sum =
      ((waitings.filter (isRaised arithmetic totalWorkers totalWaiting)).length +
        (waitings.map (wholeShare arithmetic totalWorkers totalWaiting)).sum : ℕ) := by
  induction waitings with
  | nil => rfl
  | cons waiting waitings ih =>
    rw [List.map_cons, List.sum_cons, ih, workersForQueue_eq, List.filter_cons, List.map_cons,
      List.sum_cons]
    split <;> push_cast [List.length_cons] <;> ring

theorem values_distribution (arithmetic : Arithmetic) (totalWorkers totalWaiting : ℕ)
    (queueMetrics : JsMap String ℕ) :
    (queueMetrics.entries.foldl (fun distribution entry => distribution.set entry.1
        (workersForQueue arithmetic totalWorkers totalWaiting entry.2))
        (JsMap.new : JsMap String ℤ)).values =
      queueMetrics.values.map (workersForQueue arithmetic totalWorkers totalWaiting) := by
  rw [JsMap.values, JsMap.entries_foldl_set _ queueMetrics.nodup_keys
    (by simp [JsMap.has]), JsMap.values]
  simp [Function.comp_def]

/-- **The distribution adds up exactly if the shares fit.** -/
theorem addsUp_iff (arithmetic : Arithmetic) (s : WorkerManager) (queueMetrics : JsMap String ℕ) :
    AddsUp arithmetic s queueMetrics ↔
      SharesFit arithmetic s.getActiveWorkersCount queueMetrics := by
  rw [AddsUp, SharesFit, rebalanceWorkers]
  by_cases hwaiting : totalWaiting queueMetrics = 0
  · simp [hwaiting]
  by_cases hqueues : s.getActiveWorkersCount < queueMetrics.size
  · simp [hqueues, Nat.not_le.mpr hqueues]
  simp only [hwaiting, hqueues, if_false, false_or, Nat.not_lt.mp hqueues, true_imp_iff,
    Option.mem_def,
    Option.some.injEq, forall_eq']
  rw [values_distribution, sum_workersForQueue, Nat.cast_inj]

/-! ### Shares without rounding -/

theorem wholeShare_exact (totalWorkers totalWaiting waiting : ℕ) :
    wholeShare .exact totalWorkers totalWaiting waiting =
      totalWorkers * waiting / totalWaiting := by
  rw [← Nat.floor_div_eq_div (K := ℚ), Nat.cast_mul, mul_div_assoc]
  rfl

theorem isRaised_exact {totalWaiting : ℕ} (h : totalWaiting ≠ 0) (totalWorkers waiting : ℕ) :
    isRaised .exact totalWorkers totalWaiting waiting =
      decide (totalWorkers * waiting < totalWaiting ∨
        totalWaiting ≤ 2 * (totalWorkers * waiting % totalWaiting)) := by
  have hshare : exactShare .exact totalWorkers totalWaiting waiting =
      ((totalWorkers * waiting : ℕ) : ℚ) / (totalWaiting : ℕ) := by
    rw [Nat.cast_mul, mul_div_assoc]
    rfl
  have hpos : (0 : ℚ) < totalWaiting := by exact_mod_cast Nat.pos_of_ne_zero h
  rw [isRaised, hshare, decide_eq_decide, div_lt_one hpos, Nat.cast_lt,
    Int.fract_div_natCast_eq_div_natCast_mod,
    div_le_div_iff₀ two_pos hpos]
  refine or_congr_right ?_
  rw [one_mul, mul_comm _ (2 : ℚ)]
  exact_mod_cast Iff.rfl

/-- The remainders of the shares, and their whole parts. -/
theorem sum_share_remainders (totalWorkers totalWaiting : ℕ) (waitings : List ℕ) :
    totalWaiting * (waitings.map fun waiting => totalWorkers * waiting / totalWaiting).sum +
      (waitings.map fun waiting => totalWorkers * waiting % totalWaiting).sum =
        totalWorkers * waitings.sum := by
  induction waitings with
  | nil => rfl
  | cons waiting waitings ih =>
    have hdivision := Nat.div_add_mod (totalWorkers * waiting) totalWaiting
    simp only [List.map_cons, List.sum_cons, Nat.mul_add]
    omega

/-- **Without rounding, the shares fit** when the remainders of all shares make up one worker for
each share that is raised. -/
theorem sharesFit_exact_iff (totalWorkers : ℕ) (queueMetrics : JsMap String ℕ) :
    SharesFit .exact totalWorkers queueMetrics ↔
      totalWaiting queueMetrics = 0 ∨ totalWorkers < queueMetrics.size ∨
        totalWaiting queueMetrics * (queueMetrics.values.filter fun waiting =>
            totalWorkers * waiting < totalWaiting queueMetrics ∨
              totalWaiting queueMetrics ≤ 2 *
                (totalWorkers * waiting % totalWaiting queueMetrics)).length =
          (queueMetrics.values.map fun waiting =>
            totalWorkers * waiting % totalWaiting queueMetrics).sum := by
  rw [SharesFit]
  refine or_congr_right' fun hwaiting => or_congr_right ?_
  have hsum := sum_share_remainders totalWorkers (totalWaiting queueMetrics) queueMetrics.values
  rw [← totalWaiting, mul_comm totalWorkers] at hsum
  rw [show wholeShare .exact totalWorkers (totalWaiting queueMetrics) = _ from
    funext fun _ => wholeShare_exact _ _ _,
    show isRaised .exact totalWorkers (totalWaiting queueMetrics) = _ from
      funext fun _ => isRaised_exact hwaiting _ _]
  rw [← Nat.mul_right_inj hwaiting, ← hsum, Nat.mul_add]
  omega

/-- **What the manager says of its workers is true exactly along the runs whose steps can be carried
out**, and its distribution of the workers adds up exactly when the shares fit. -/
theorem truthful_and_addsUp_iff (pool : WorkerPool) (pid : ℤ) (arithmetic : Arithmetic)
    (events : List WorkerEvent) (queueMetrics : JsMap String ℕ) :
    (Along (step pool pid) (Truthful pool pid) .new events ↔
      Along (step pool pid) (Feasible pool) .new events) ∧
      (AddsUp arithmetic (run (step pool pid) .new events) queueMetrics ↔
        SharesFit arithmetic
        (run (step pool pid) .new events).getActiveWorkersCount queueMetrics) := by
  constructor
  · apply along_iff_along (I := Keyed)
    · exact fun s e h => truthful_iff_feasible h e
    · exact fun s e h _ => h.step pool pid e
    · exact Keyed.new
  · exact addsUp_iff arithmetic _ queueMetrics

/-- Five active workers, as scaling up registers them. -/
def fiveActive : WorkerManager := run (step defaultPool 1) .new [.scaleUp "copy-trading" none 0]

/-- **Active workers are not removed**, though the event says so, and half a worker is rounded up
for both queues. -/
theorem active_workers_kept :
    ¬ Along (step defaultPool 1) (Truthful defaultPool 1) .new
        [.scaleUp "copy-trading" none 0, .scaleDown "copy-trading" none 0] ∧
      ¬ AddsUp .exact fiveActive ((JsMap.new.set "copy-trading" 1).set "settlement" 1) := by
  constructor
  · intro h
    have hevent := h.2.1.count_eq _ rfl
    revert hevent
    decide +kernel
  · rw [addsUp_iff, sharesFit_exact_iff]
    decide +kernel

end Workers
