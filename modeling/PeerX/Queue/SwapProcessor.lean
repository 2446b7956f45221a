import PeerX.Foundations.Guards
import Mathlib.Data.Rat.Defs
import Mathlib.Algebra.Order.Ring.Rat

/-!
# Queue: the swap processor

A worker of the `swaps` queue executes the swaps of a job, each under its idempotency marker: it
claims the marker, swaps, reports its progress, and releases the marker when one of these throws.
Bull starts another attempt of a job that failed or stalled. Any number of attempts run, one step
after the other; an attempt that stops for ever is a crash.
-/

namespace Queue

open Concurrency

structure SingleSwapJobData where
  swapId : String
  userId : ℕ
  fromAsset : String
  amount : ℚ
  poolId : Option ℕ := none
  minAmountOut : Option ℚ := none
deriving DecidableEq

/-- A leg of a multi-leg swap. -/
structure SwapLeg where
  fromAsset : String
  amount : ℚ
  poolId : Option ℕ := none
  minAmountOut : Option ℚ := none
deriving DecidableEq

/-- The data of a multi-leg swap. -/
structure MultiLegSwapJobData where
  swapId : String
  userId : ℕ
  legs : List SwapLeg
deriving DecidableEq

/-- The data of a batch of swaps. -/
structure BatchSwapJobData where
  batchId : String
  swaps : List SingleSwapJobData
deriving DecidableEq

/-- A job of the queue, by the name of its handler. -/
inductive SwapJob : Type
  | single (data : SingleSwapJobData)
  | multiLeg (data : MultiLegSwapJobData)
  | batch (data : BatchSwapJobData)
deriving DecidableEq

/-- What `executeSwap` is called with: the id of the swap, and the call of
`LiquidityPoolService.swap`. -/
structure SwapCall where
  swapId : String
  userId : ℕ
  tokenIn : String
  amountIn : ℚ
  poolId : ℕ
  minAmountOut : Option ℚ
deriving DecidableEq

/-- The exceptions: `NonRetryableSwapError`, and the others. -/
inductive SwapError : Type
  | nonRetryable (message : String)
  | error (message : String)
deriving DecidableEq

def SwapError.message : SwapError → String
  | .nonRetryable message => message
  | .error message => message

/-- The steps of a worker: `job.progress`, `SET NX` and `DEL` of a marker, and a swap. -/
abbrev SwapCommand := GuardCommand ℚ String SwapCall

/-- The programs of the workers. -/
abbrev SwapWorker (α : Type) := Worker ℚ String SwapCall SwapError α

/-- An executed step. -/
abbrev SwapEvent (ι : Type) := GuardEvent ℚ String SwapCall SwapError ι

/-- The marker of a swap. -/
def singleKey (swapId : String) : String := s!"swap:executed:{swapId}"

/-- The marker of a leg. -/
def legKey (swapId : String) (index : ℕ) : String := s!"swap:executed:{swapId}:leg:{index}"

/-- The id under which a leg is executed. -/
def legId (swapId : String) (index : ℕ) : String := s!"{swapId}:leg:{index}"

def progress (percent : ℚ) : SwapWorker Unit := work (.note percent)

/-- `claim`: `SET key 1 EX ttl NX`. -/
def claim (key : String) : SwapWorker Bool := work (.claim key)

def executeSwap (data : SwapCall) : SwapWorker Unit := work (.act data)

def requirePoolId : Option ℕ → SwapWorker ℕ
  | some poolId => pure poolId
  | none => throw (.nonRetryable ("Swap job is missing poolId; cannot resolve the AMM pool. " ++
      "Re-enqueue with poolId (and optionally minAmountOut) set."))

def processSingle (data : SingleSwapJobData) : SwapWorker Unit := do
  progress 10
  let claimed ← claim (singleKey data.swapId)
  if claimed then
    guarded (singleKey data.swapId)
      (do
        let poolId ← requirePoolId data.poolId
        executeSwap ⟨data.swapId, data.userId, data.fromAsset, data.amount, poolId, data.minAmountOut⟩
        progress 100)
      throw
  else
    progress 100

/-- The loop of `processMultiLeg`, from the leg with the index `i`. -/
def processLegs (swapId : String) (userId : ℕ) (count : ℕ) : ℕ → List SwapLeg → SwapWorker Unit
  | _, [] => pure ()
  | i, leg :: legs => do
    let claimed ← claim (legKey swapId i)
    if claimed then
      guarded (legKey swapId i)
        (do
          let poolId ← requirePoolId leg.poolId
          executeSwap
            ⟨legId swapId i, userId, leg.fromAsset, leg.amount, poolId, leg.minAmountOut⟩
          progress (5 + (i + 1) / count * 90))
        throw
      processLegs swapId userId count (i + 1) legs
    else
      processLegs swapId userId count (i + 1) legs

def processMultiLeg (data : MultiLegSwapJobData) : SwapWorker Unit := do
  progress 5
  processLegs data.swapId data.userId data.legs.length 0 data.legs
  progress 100

/-- The loop of `processBatch`: the messages of the swaps that failed. -/
def processSwaps (count : ℕ) : ℕ → List String → List SingleSwapJobData → SwapWorker (List String)
  | _, failures, [] => pure failures
  | attempted, failures, swap :: swaps => do
    let claimed ← claim (singleKey swap.swapId)
    if claimed then
      let failures ← guarded (singleKey swap.swapId)
        (do
          let poolId ← requirePoolId swap.poolId
          executeSwap
            ⟨swap.swapId, swap.userId, swap.fromAsset, swap.amount, poolId, swap.minAmountOut⟩
          progress (5 + ((attempted + 1 : ℕ) : ℚ) / count * 90)
          pure failures)
        (fun error => pure (failures ++ [s!"{swap.swapId}: {error.message}"]))
      processSwaps count (attempted + 1) failures swaps
    else
      processSwaps count attempted failures swaps

def processBatch (data : BatchSwapJobData) : SwapWorker Unit := do
  progress 5
  let failures ← processSwaps data.swaps.length 0 [] data.swaps
  if failures ≠ [] then
    throw (.error (s!"Batch {data.batchId}: {failures.length}/{data.swaps.length} swaps failed: " ++
      "; ".intercalate failures))
  else
    progress 100

/-- The handler of a job. -/
def SwapJob.process : SwapJob → SwapWorker Unit
  | .single data => processSingle data
  | .multiLeg data => processMultiLeg data
  | .batch data => processBatch data

/-- The ids of the swaps that a job contains. -/
def SwapJob.swapIds : SwapJob → List String
  | .single data => [data.swapId]
  | .multiLeg data => (List.range data.legs.length).map (legId data.swapId)
  | .batch data => data.swaps.map (·.swapId)

/-- The marker under which a swap is executed. -/
def SwapCall.key (data : SwapCall) : String := singleKey data.swapId

/-- The ids of the executed swaps, the newest first. -/
def executedIds {ι : Type} (es : List (SwapEvent ι)) : List String := (performed es).map (·.swapId)

/-- The machine of the workers, with the executed steps kept. -/
def swapMachine (ι : Type) : Machine SwapCommand (GuardCommand.Reply SwapError) ι
    (Markers String SwapError × List (SwapEvent ι)) :=
  (Machine.ofHandler serve).observed

/-- Attempts of jobs at the same time. Attempt `i` works on the job `jobs i`; attempts of one
job are those that are given the same job. -/
def processing {ι : Type} (jobs : ι → SwapJob) (d₀ : Markers String SwapError) :
    Config SwapCommand (GuardCommand.Reply SwapError) SwapError Unit ι
      (Markers String SwapError × List (SwapEvent ι)) :=
  ⟨(d₀, []), fun i => (jobs i).process⟩

/-- The attempt has completed its job. -/
def Completed {ι : Type} (c : Config SwapCommand (GuardCommand.Reply SwapError) SwapError Unit ι
    (Markers String SwapError × List (SwapEvent ι))) (i : ι) : Prop := (c.threads i).returned = true

instance {ι : Type} (c : Config SwapCommand (GuardCommand.Reply SwapError) SwapError Unit ι
    (Markers String SwapError × List (SwapEvent ι))) : DecidablePred (Completed c) :=
  fun _ => inferInstanceAs (Decidable (_ = true))

end Queue
