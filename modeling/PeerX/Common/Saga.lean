import Mathlib.Data.List.Perm.Basic
import Mathlib.Data.List.Induction
import Mathlib.Data.List.TakeWhile
import Mathlib.Logic.Function.Basic

/-!
# Common: sagas

A saga runs the actions of its steps, one after the other or in parallel, and keeps the values that
they return in a map under the names of the steps. When an action fails, the compensations are
called with the values of this map, in the reverse order of the steps: those of the steps before the
failure in a sequential saga, and those of all steps in a parallel one.
-/

namespace Saga

variable {V : Type}

/-! ## Steps -/

/-- How a function goes. -/
inductive Outcome (α : Type) : Type
  | returns (value : α)
  | throws (message : String)
  | timesOut
deriving DecidableEq

def executeWithTimeout {α : Type} : Outcome α → Except String α
  | .returns value => .ok value
  | .throws message => .error message
  | .timesOut => .error "Saga step timed out after 30000ms"

/-- `SagaStep`. The compensation is called with a value, or with `undefined`. -/
structure SagaStep (V : Type) where
  name : String
  action : Outcome V
  compensation : Option (Option V → Outcome Unit) := none

structure SagaResult where
  success : Bool
  completedSteps : List String
  failedStep : Option String := none
  error : Option String := none
  compensatedSteps : List String
  totalSteps : ℕ
deriving DecidableEq

/-- A call of a compensation: the position of its step, and the value that it is called with. -/
structure Invocation (V : Type) where
  position : ℕ
  stepResult : Option V
deriving DecidableEq

/-- A step with its position. -/
abbrev Numbered (V : Type) := SagaStep V × ℕ

/-- The map of the step results. -/
abbrev StepResults (V : Type) := String → Option V

/-- The value of an action that completes. -/
def SagaStep.returned (step : SagaStep V) : Option V := (executeWithTimeout step.action).toOption

/-! ## Sagas -/

/-- `compensate`, on the steps in reverse order: the steps that are compensated, and the calls. -/
def compensateAll (stepResults : StepResults V) : List (Numbered V) → List String × List (Invocation V)
  | [] => ([], [])
  | (step, position) :: steps =>
    let later := compensateAll stepResults steps
    match step.compensation with
    | none => later
    | some compensation =>
      let stepResult := stepResults step.name
      match executeWithTimeout (compensation stepResult) with
      | .ok _ => (step.name :: later.1, ⟨position, stepResult⟩ :: later.2)
      | .error _ => (later.1, ⟨position, stepResult⟩ :: later.2)

def compensate (completedSteps : List (Numbered V)) (stepResults : StepResults V) :
    List String × List (Invocation V) :=
  compensateAll stepResults completedSteps.reverse

/-- `stepResults.set`, for an action that has completed. -/
def setResult (stepResults : StepResults V) (step : SagaStep V) : StepResults V :=
  match step.returned with
  | some value => Function.update stepResults step.name (some value)
  | none => stepResults

/-- The steps of a saga from one of them on, after some have completed. -/
def runSteps (totalSteps : ℕ) :
    List (Numbered V) → List (Numbered V) → StepResults V → SagaResult × List (Invocation V)
  | completed, [], _ =>
    ({ success := true, completedSteps := completed.map (·.1.name), compensatedSteps := [], totalSteps }, [])
  | completed, (step, position) :: steps, stepResults =>
    match executeWithTimeout step.action with
    | .ok _ => runSteps totalSteps (completed ++ [(step, position)]) steps (setResult stepResults step)
    | .error message =>
      let compensated := compensate completed stepResults
      ({ success := false, completedSteps := completed.map (·.1.name), failedStep := some step.name,
         error := some message, compensatedSteps := compensated.1, totalSteps }, compensated.2)

/-- `executeSaga`: the result, and the calls of compensations. -/
def executeSaga (steps : List (SagaStep V)) : SagaResult × List (Invocation V) :=
  runSteps steps.length [] steps.zipIdx fun _ => none

/-- The order in which the actions of parallel steps come to their end. -/
structure Finishing (steps : List (SagaStep V)) where
  order : List (SagaStep V)
  perm : order.Perm steps

/-- The map of the step results after some actions. -/
def resultsOf (order : List (SagaStep V)) : StepResults V := order.foldl setResult fun _ => none

/-- `executeParallelSteps`: the result, and the calls of compensations. -/
def executeParallelSteps (steps : List (SagaStep V)) (finishing : Finishing steps) :
    SagaResult × List (Invocation V) :=
  let completedSteps := (steps.filter fun step => step.returned.isSome).map SagaStep.name
  match steps.find? fun step => step.returned.isNone with
  | none => ({ success := true, completedSteps, compensatedSteps := [], totalSteps := steps.length }, [])
  | some failed =>
    let compensated := compensate steps.zipIdx (resultsOf finishing.order)
    ({ success := false, completedSteps, failedStep := some failed.name,
       error := match executeWithTimeout failed.action with
         | .ok _ => none
         | .error message => some message
       compensatedSteps := compensated.1, totalSteps := steps.length }, compensated.2)

/-! ## The property -/

/-- The call of the compensation of a step that has completed, with its own value. -/
def ownInvocation (step : Numbered V) : Option (Invocation V) :=
  if step.1.compensation.isSome then step.1.returned.map fun value => ⟨step.2, some value⟩ else none

/-- The steps of a sequential saga whose actions complete. -/
def completedSteps (steps : List (SagaStep V)) : List (Numbered V) :=
  steps.zipIdx.takeWhile fun step => step.1.returned.isSome

/-- The completed steps are compensated: when the saga fails, the calls are those of the
completed steps, each once, in reverse order and with its own value; when it succeeds, there are
none. -/
def Compensates (completed : List (Numbered V)) (saga : SagaResult × List (Invocation V)) : Prop :=
  if saga.1.success then saga.2 = [] else saga.2 = completed.reverse.filterMap ownInvocation

/-- The value of the last action with a name that has completed. -/
def lastReturned (name : String) (order : List (SagaStep V)) : Option V :=
  ((order.filter (·.name = name)).filterMap SagaStep.returned).getLast?

/-! ## Calls of compensations -/

/-- The call of the compensation of a step, with the value of the map. -/
def invocation (stepResults : StepResults V) (step : Numbered V) : Option (Invocation V) :=
  if step.1.compensation.isSome then some ⟨step.2, stepResults step.1.name⟩ else none

/-- Every compensation is called, whether or not others fail. -/
theorem compensateAll_snd (stepResults : StepResults V) (steps : List (Numbered V)) :
    (compensateAll stepResults steps).2 = steps.filterMap (invocation stepResults) := by
  induction steps with
  | nil => rfl
  | cons step steps ih =>
    obtain ⟨step, position⟩ := step
    rw [compensateAll, List.filterMap_cons, ← ih]
    unfold invocation
    cases step.compensation with
    | none => rfl
    | some compensation =>
      dsimp only
      split <;> rfl

theorem resultsOf_eq (order : List (SagaStep V)) (name : String) : resultsOf order name = lastReturned name order := by
  induction order using List.reverseRecOn with
  | nil => rfl
  | append_singleton order step ih =>
    rw [resultsOf, List.foldl_append, List.foldl_cons, List.foldl_nil]
    change setResult (resultsOf order) step name = _
    unfold setResult lastReturned at *
    rw [List.filter_append, List.filterMap_append]
    by_cases hname : step.name = name
    · cases hreturned : step.returned with
      | none => simp [hname, hreturned, ih]
      | some value => simp [hname, hreturned]
    · cases hreturned : step.returned with
      | none => simp [hname, ih]
      | some value => simp [hname, Function.update_of_ne (Ne.symm hname), ih]

theorem filterMap_eq_iff {α β : Type} {f g : α → Option β} {l : List α} (h : ∀ x ∈ l, f x = none → g x = none) :
    l.filterMap f = l.filterMap g ↔ ∀ x ∈ l, f x = g x := by
  refine ⟨?_, List.filterMap_congr⟩
  induction l with
  | nil => simp
  | cons x l ih =>
    obtain ⟨hx, hl⟩ := List.forall_mem_cons.mp h
    have hlength : (l.filterMap g).length ≤ (l.filterMap f).length := by
      rw [List.length_filterMap_eq_countP, List.length_filterMap_eq_countP]
      refine List.countP_mono_left fun y hy hsome => ?_
      cases hf : f y with
      | some b => rfl
      | none => simp [hl y hy hf] at hsome
    intro heq
    rw [List.filterMap_cons, List.filterMap_cons] at heq
    refine List.forall_mem_cons.mpr ?_
    cases hf : f x with
    | none =>
      have hg := hx hf
      rw [hf, hg] at heq
      exact ⟨hg.symm, ih hl heq⟩
    | some a =>
      cases hg : g x with
      | none =>
        -- the second list is too short
        rw [hf, hg] at heq
        have hlonger := congrArg List.length heq
        simp only [List.length_cons] at hlonger
        omega
      | some b =>
        rw [hf, hg] at heq
        obtain ⟨rfl, hrest⟩ := List.cons.inj heq
        exact ⟨rfl, ih hl hrest⟩

/-- The calls are the own ones of the completed steps when every step with a compensation has
completed, and the map holds its value. -/
theorem invocations_eq_iff (stepResults : StepResults V) (steps : List (Numbered V)) :
    (compensate steps stepResults).2 = steps.reverse.filterMap ownInvocation ↔
      ∀ step ∈ steps, step.1.compensation.isSome → step.1.returned.isSome ∧ stepResults step.1.name = step.1.returned := by
  rw [compensate, compensateAll_snd, filterMap_eq_iff]
  · simp only [List.mem_reverse]
    refine forall₂_congr fun step _ => ?_
    unfold invocation ownInvocation
    split
    next hsome =>
      rw [forall_prop_of_true hsome]
      cases step.1.returned <;> simp
    next hnone => simp [hnone]
  · intro step _ hnone
    unfold invocation at hnone
    unfold ownInvocation
    split at hnone
    next => cases hnone
    next h => exact if_neg h

/-! ## Sequential sagas -/

theorem returned_eq_some {step : SagaStep V} {value : V} (h : executeWithTimeout step.action = .ok value) :
    step.returned = some value := by
  rw [SagaStep.returned, h]
  rfl

theorem returned_eq_none {step : SagaStep V} {message : String}
    (h : executeWithTimeout step.action = .error message) : step.returned = none := by
  rw [SagaStep.returned, h]
  rfl

/-- The run of a sequential saga: it fails at the first action that does not complete, and the
steps before it are compensated. -/
theorem runSteps_spec (totalSteps : ℕ) (completed steps : List (Numbered V)) (order : List (SagaStep V)) :
    let run := runSteps totalSteps completed steps (resultsOf order)
    let before := steps.takeWhile fun step => step.1.returned.isSome
    (run.1.success = true ∧ run.2 = [] ∧ before = steps) ∨
      (run.1.success = false ∧ before ≠ steps ∧
        run.2 = (compensate (completed ++ before) (resultsOf (order ++ before.map Prod.fst))).2) := by
  induction steps generalizing completed order with
  | nil => exact .inl ⟨rfl, rfl, rfl⟩
  | cons step steps ih =>
    obtain ⟨step, position⟩ := step
    dsimp only
    rw [runSteps]
    cases haction : executeWithTimeout step.action with
    | error message =>
      have hnone := returned_eq_none haction
      right
      simp [hnone]
    | ok value =>
      have hsome := returned_eq_some haction
      -- the step has completed: its value goes into the map, and the others follow
      have hset : setResult (resultsOf order) step = resultsOf (order ++ [step]) := by
        rw [resultsOf, resultsOf, List.foldl_append]
        rfl
      have htake : ((step, position) :: steps).takeWhile (fun step => step.1.returned.isSome) =
          (step, position) :: steps.takeWhile fun step => step.1.returned.isSome := by
        rw [List.takeWhile_cons_of_pos]
        rw [hsome]
        rfl
      rw [htake, hset]
      rcases ih (completed ++ [(step, position)]) (order ++ [step]) with ⟨hsuccess, hnone, hall⟩ | ⟨hfail, hnot, hcalls⟩
      · exact .inl ⟨hsuccess, hnone, congrArg _ hall⟩
      · refine .inr ⟨hfail, fun heq => hnot (List.cons.inj heq).2, ?_⟩
        rw [List.append_assoc, List.append_assoc] at hcalls
        exact hcalls

/-- When a sequential saga compensates its completed steps: when it fails, each of them that has
a compensation has returned the value of the last one with its name. -/
theorem executeSaga_compensates_iff (steps : List (SagaStep V)) :
    Compensates (completedSteps steps) (executeSaga steps) ↔
      ((∃ step ∈ steps, step.returned = none) → ∀ step ∈ completedSteps steps, step.1.compensation.isSome →
        lastReturned step.1.name ((completedSteps steps).map Prod.fst) = step.1.returned) := by
  have hcompleted : ∀ step ∈ completedSteps steps, step.1.returned.isSome := by
    intro step hstep
    have hsome := List.mem_takeWhile_imp hstep
    exact hsome
  have hfails : completedSteps steps ≠ steps.zipIdx ↔ ∃ step ∈ steps, step.returned = none := by
    rw [completedSteps, Ne, List.takeWhile_eq_self_iff]
    simp only [not_forall, Option.not_isSome_iff_eq_none, exists_prop]
    constructor
    · rintro ⟨step, hstep, hnone⟩
      exact ⟨step.1, List.fst_mem_of_mem_zipIdx hstep, hnone⟩
    · rintro ⟨step, hstep, hnone⟩
      obtain ⟨position, hlt, rfl⟩ := List.mem_iff_getElem.mp hstep
      exact ⟨(steps[position], position), List.mem_zipIdx_iff_getElem?.mpr (by simp), hnone⟩
  rcases runSteps_spec steps.length [] steps.zipIdx [] with ⟨hsuccess, hnone, hall⟩ | ⟨hfail, hnot, hcalls⟩
  · refine iff_of_true ?_ fun h => absurd hall (hfails.mpr h)
    unfold Compensates
    rw [if_pos (show (executeSaga steps).1.success = true from hsuccess)]
    exact hnone
  · rw [forall_prop_of_true (hfails.mp hnot)]
    unfold Compensates
    rw [if_neg (by rw [show (executeSaga steps).1.success = false from hfail]; decide)]
    change (runSteps _ _ _ (resultsOf [])).2 = _ ↔ _
    rw [hcalls, List.nil_append, List.nil_append]
    refine (invocations_eq_iff _ _).trans (forall₃_congr fun step hstep _ => ?_)
    rw [resultsOf_eq, and_iff_right (hcompleted step hstep)]
    rfl

/-! ## Parallel sagas -/

/-- The steps of a parallel saga whose actions complete. -/
def completedInParallel (steps : List (SagaStep V)) : List (Numbered V) :=
  steps.zipIdx.filter fun step => step.1.returned.isSome

/-- The own calls of the completed steps are those of all steps. -/
theorem filterMap_completed (steps : List (SagaStep V)) :
    (completedInParallel steps).reverse.filterMap ownInvocation = steps.zipIdx.reverse.filterMap ownInvocation := by
  rw [completedInParallel, ← List.filter_reverse, List.filterMap_filter]
  refine List.filterMap_congr fun step _ => ?_
  split
  next => rfl
  next hnone =>
    rw [Option.not_isSome_iff_eq_none] at hnone
    simp [ownInvocation, hnone]

/-- When a parallel saga compensates its completed steps: when it fails, every step with a
compensation has completed, and has returned the value of the last one with its name. -/
theorem executeParallelSteps_compensates_iff (steps : List (SagaStep V)) (finishing : Finishing steps) :
    Compensates (completedInParallel steps) (executeParallelSteps steps finishing) ↔
      ((∃ step ∈ steps, step.returned = none) → ∀ step ∈ steps, step.compensation.isSome →
        step.returned.isSome ∧ lastReturned step.name finishing.order = step.returned) := by
  unfold executeParallelSteps Compensates
  cases hfind : steps.find? (fun step => step.returned.isNone) with
  | none =>
    have hall : ¬ ∃ step ∈ steps, step.returned = none := by
      rintro ⟨step, hstep, hnone⟩
      have hnot := List.find?_eq_none.mp hfind step hstep
      simp [hnone] at hnot
    exact iff_of_true rfl fun h => absurd h hall
  | some failed =>
    have hnone := List.find?_some hfind
    have hfails : ∃ step ∈ steps, step.returned = none :=
      ⟨failed, List.mem_of_find?_eq_some hfind, Option.isNone_iff_eq_none.mp hnone⟩
    rw [forall_prop_of_true hfails]
    change (compensate steps.zipIdx (resultsOf finishing.order)).2 = _ ↔ _
    rw [filterMap_completed, invocations_eq_iff]
    simp only [resultsOf_eq]
    constructor
    · intro h step hstep hsome
      obtain ⟨position, hlt, rfl⟩ := List.mem_iff_getElem.mp hstep
      exact h (steps[position], position) (List.mem_zipIdx_iff_getElem?.mpr (by simp)) hsome
    · intro h step hstep hsome
      exact h step.1 (List.fst_mem_of_mem_zipIdx hstep) hsome

/-! ## Both kinds of sagas -/

/-- **When sagas compensate exactly their completed steps**, for all steps and all outcomes. -/
theorem compensates_iff (steps : List (SagaStep V)) (finishing : Finishing steps) :
    (Compensates (completedSteps steps) (executeSaga steps) ↔
      ((∃ step ∈ steps, step.returned = none) → ∀ step ∈ completedSteps steps, step.1.compensation.isSome →
        lastReturned step.1.name ((completedSteps steps).map Prod.fst) = step.1.returned)) ∧
    (Compensates (completedInParallel steps) (executeParallelSteps steps finishing) ↔
      ((∃ step ∈ steps, step.returned = none) → ∀ step ∈ steps, step.compensation.isSome →
        step.returned.isSome ∧ lastReturned step.name finishing.order = step.returned)) :=
  ⟨executeSaga_compensates_iff steps, executeParallelSteps_compensates_iff steps finishing⟩

/-- A step with a compensation that goes through. -/
def compensated (name : String) (action : Outcome ℕ) : SagaStep ℕ where
  name := name
  action := action
  compensation := some fun _ => .returns ()

/-- Two transfers of one name, and one that fails. -/
def transfers : List (SagaStep ℕ) :=
  [compensated "transfer" (.returns 1), compensated "transfer" (.returns 2), compensated "notify" (.throws "down")]

/-- **Sagas compensate other steps, with other values**: the first transfer is compensated with the
value of the second one, and in parallel the step that has failed is compensated, too. -/
theorem compensates_others :
    (executeSaga transfers).2 = [⟨1, some 2⟩, ⟨0, some 2⟩] ∧
      (executeParallelSteps transfers ⟨transfers, List.Perm.refl _⟩).2 = [⟨2, none⟩, ⟨1, some 2⟩, ⟨0, some 2⟩] ∧
      ¬ Compensates (completedSteps transfers) (executeSaga transfers) ∧
      ¬ Compensates (completedInParallel transfers) (executeParallelSteps transfers ⟨transfers, List.Perm.refl _⟩) := by
  have hsequential : (executeSaga transfers).2 = [⟨1, some 2⟩, ⟨0, some 2⟩] := rfl
  have hparallel : (executeParallelSteps transfers ⟨transfers, List.Perm.refl _⟩).2 =
      [⟨2, none⟩, ⟨1, some 2⟩, ⟨0, some 2⟩] := rfl
  refine ⟨hsequential, hparallel, fun h => ?_, fun h => ?_⟩
  · have hown : (executeSaga transfers).2 = [⟨1, some 2⟩, ⟨0, some 1⟩] := h
    rw [hsequential] at hown
    simp at hown
  · have hown : (executeParallelSteps transfers ⟨transfers, List.Perm.refl _⟩).2 = [⟨1, some 2⟩, ⟨0, some 1⟩] := h
    rw [hparallel] at hown
    simp at hown

end Saga
