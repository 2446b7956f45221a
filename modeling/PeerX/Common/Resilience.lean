import PeerX.Foundations.Program
import PeerX.Foundations.Runs
import Mathlib.Logic.Function.Basic

/-!
# Common: circuit breakers and bulkheads

`CircuitBreakerService` keeps a breaker for each name, around the function of the first `register`
under the name. `execute` receives a function as well: it is called when no breaker has the name,
and ignored otherwise. `BulkheadService` limits how many functions run at a time, and answers for a
function that takes too long; the function itself runs on.

The breakers are those of a library, which is known by what it promises (`Opossum`).
-/

namespace Resilience

open Concurrency

variable {C : Type} {R : C → Type} {ε A α : Type}

inductive CircuitState : Type
  | closed
  | opened
  | halfOpen
deriving DecidableEq

/-- The breakers of the library, by what `fire` promises: around which function, in which state
of the circuit, and whether the timer of the breaker ends first. A closed breaker calls its
function, an open one does not, and none does anything else. -/
structure Opossum (R : C → Type) (ε A α : Type) where
  fire : (A → Prog C R ε α) → CircuitState → Bool → A → Prog C R ε α
  fire_closed : ∀ action args, fire action .closed false args = action args
  fire_opened : ∀ action timedOut args, ∃ e, fire action .opened timedOut args = .fail e
  fire_cases : ∀ action state timedOut args, fire action state timedOut args = action args ∨
    (∃ e, fire action state timedOut args = .fail e) ∨
    ∃ e, fire action state timedOut args = action args >>= fun _ => .fail e

/-- The documented breaker, with the errors it throws. -/
def Opossum.documented (openError timeoutError : ε) : Opossum R ε A α where
  fire action state timedOut args :=
    if state = .opened then .fail openError
    else if timedOut then action args >>= fun _ => .fail timeoutError
    else action args
  fire_closed action args := by simp
  fire_opened action timedOut args := ⟨openError, if_pos rfl⟩
  fire_cases action state timedOut args := by
    by_cases hopen : state = .opened
    · exact .inr (.inl ⟨openError, if_pos hopen⟩)
    · cases timedOut with
      | false => exact .inl (by simp [hopen])
      | true => exact .inr (.inr ⟨timeoutError, by simp [hopen]⟩)

/-- The breakers: the function that each one was made for. -/
abbrev Breakers (R : C → Type) (ε A α : Type) := String → Option (A → Prog C R ε α)

/-- `register`. A name that is taken keeps its breaker. The function is returned as it is. -/
def register (breakers : Breakers R ε A α) (fn : A → Prog C R ε α) (name : String) :
    (A → Prog C R ε α) × Breakers R ε A α :=
  if (breakers name).isSome then (fn, breakers)
  else (fn, Function.update breakers name (some fn))

/-- `execute`, when the breaker of the name is in the given state. An error is logged and thrown
again. -/
def execute (opossum : Opossum R ε A α) (breakers : Breakers R ε A α) (state : CircuitState)
    (timedOut : Bool) (name : String) (fn : A → Prog C R ε α) (args : A) : Prog C R ε α :=
  match breakers name with
  -- executing without protection
  | none => fn args
  -- the function of the call is not used
  | some action => opossum.fire action state timedOut args

/-- The calls of the service. `reset` closes a breaker, and `resetAll` every breaker. -/
inductive ServiceCall (R : C → Type) (ε A α : Type) : Type
  | register (fn : A → Prog C R ε α) (name : String)
  | execute (name : String) (fn : A → Prog C R ε α) (args : A)
  | reset (name : String)
  | resetAll

/-- The breakers after a call: only `register` changes them. -/
def after (breakers : Breakers R ε A α) : ServiceCall R ε A α → Breakers R ε A α
  | .register fn name => (register breakers fn name).2
  | _ => breakers

/-- The breakers after the calls. -/
def breakersAfter (calls : List (ServiceCall R ε A α)) : Breakers R ε A α := run after (fun _ => none) calls

/-- The function of the first `register` under the name. -/
def registered (calls : List (ServiceCall R ε A α)) (name : String) : Option (A → Prog C R ε α) :=
  calls.findSome? fun
    | .register fn name' => if name' = name then some fn else none
    | _ => none

theorem after_apply (breakers : Breakers R ε A α) (call : ServiceCall R ε A α) (name : String) :
    after breakers call name = (breakers name).or (registered [call] name) := by
  cases call with
  | register fn name' =>
    show (register breakers fn name').2 name = _
    unfold register
    by_cases hname : name' = name
    · subst hname
      cases hb : breakers name' with
      | none => simp [registered]
      | some action => simp [hb]
    · have hne : name ≠ name' := fun e => hname e.symm
      cases hb : (breakers name').isSome <;> simp [registered, hname, hne]
  | execute | reset | resetAll => exact (Option.or_none).symm

theorem run_after (calls : List (ServiceCall R ε A α)) (breakers : Breakers R ε A α) (name : String) :
    run after breakers calls name = (breakers name).or (registered calls name) := by
  induction calls generalizing breakers with
  | nil => exact (Option.or_none).symm
  | cons call calls ih =>
    -- a name that is taken keeps its function, so the first of the calls decides
    rw [run_cons, ih, after_apply, Option.or_assoc]
    congr 1
    simp only [registered, List.findSome?_cons, List.findSome?_nil]
    split <;> simp_all

/-- A breaker is made for the function of the first `register`, whatever is called
afterwards. -/
theorem breakers_after (calls : List (ServiceCall R ε A α)) (name : String) :
    breakersAfter calls name = registered calls name := run_after calls _ name

section Execute

variable {opossum : Opossum R ε A α} {breakers : Breakers R ε A α} {name : String}
  {fn action : A → Prog C R ε α} {args : A}

theorem execute_unregistered (state : CircuitState) (timedOut : Bool) (h : breakers name = none) :
    execute opossum breakers state timedOut name fn args = fn args := by
  unfold execute
  rw [h]

theorem execute_registered (state : CircuitState) (timedOut : Bool) (h : breakers name = some action) :
    execute opossum breakers state timedOut name fn args =
      opossum.fire action state timedOut args := by
  unfold execute
  rw [h]

/-- The protected call behaves as the unprotected one exactly when the breaker, if there is one,
was made for a function that does. -/
theorem execute_eq_iff (calls : List (ServiceCall R ε A α)) :
    execute opossum (breakersAfter calls) .closed false name fn args = fn args ↔
      ∀ action, registered calls name = some action → action args = fn args := by
  cases hname : registered calls name with
  | none =>
    rw [execute_unregistered _ _ ((breakers_after calls name).trans hname)]
    exact iff_of_true rfl fun action h => by cases h
  | some action =>
    rw [execute_registered _ _ ((breakers_after calls name).trans hname), opossum.fire_closed]
    constructor
    · rintro h action' ⟨⟩
      exact h
    · exact fun h => h action rfl

/-- An open breaker calls no function. -/
theorem execute_opened (calls : List (ServiceCall R ε A α)) (timedOut : Bool)
    (h : (registered calls name).isSome) :
    ∃ e, execute opossum (breakersAfter calls) .opened timedOut name fn args = .fail e := by
  obtain ⟨action, haction⟩ := Option.isSome_iff_exists.mp h
  rw [execute_registered _ _ ((breakers_after calls name).trans haction)]
  exact opossum.fire_opened action timedOut args

end Execute

/-- `BulkheadConfig`, without its name. -/
structure BulkheadConfig where
  maxConcurrent : ℕ
  maxQueueSize : Option ℕ := none
  timeout : Option ℕ := none
deriving DecidableEq

abbrev Bulkheads := String → Option BulkheadConfig

namespace Bulkhead

/-- `createBulkhead`. A name that is taken keeps its bulkhead. -/
def createBulkhead (bulkheads : Bulkheads) (name : String) (config : BulkheadConfig) : Bulkheads :=
  if (bulkheads name).isSome then bulkheads else Function.update bulkheads name (some config)

/-- `createTimeoutPromise`: the time after which the promise is rejected, if it ever is. -/
def timeoutOf (bulkheads : Bulkheads) (name : String) : Option ℕ :=
  ((bulkheads name).bind (·.timeout)).filter (0 < ·)

/-- The outcome of a program, as a value. -/
def settle (p : Prog C R ε α) : Prog C R ε (Except ε α) :=
  tryCatch (Except.ok <$> p) fun e => pure (.error e)

/-- `execute`, with the function and the question whether the timer ends first. A function that
lost the race runs on, so its commands are issued in either case; what the others do meanwhile does
not depend on them. -/
def execute (bulkheads : Bulkheads) (name : String) (fn : Prog C R ε α) (timer : Prog C R ε Bool)
    (timeoutError : ℕ → ε) : Prog C R ε α :=
  match timeoutOf bulkheads name with
  | none => fn
  | some timeoutMs => do
    let settled ← settle fn
    -- the race is decided by the timer, and its loser is not stopped
    if ← timer then throw (timeoutError timeoutMs)
    else match settled with
      | .ok a => return a
      | .error e => throw e

theorem eval_settle {σ : Type} (h : (c : C) → σ → R c × σ) (p : Prog C R ε α) (s : σ) :
    (settle p).eval h s = (.ok (p.eval h s).1, (p.eval h s).2) := by
  rw [settle, Prog.eval_tryCatch, Prog.eval_map]
  rcases p.eval h s with ⟨e | a, s'⟩ <;> rfl

end Bulkhead

end Resilience
