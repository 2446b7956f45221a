import Mathlib.Data.List.Basic

/-!
# Runs of a step function

A system is a step function on states; a run is a list of events. `Along P` says that every event
of the run meets `P` in the state it is applied to, and `Throughout Q` that every state of the run
meets `Q`. One induction turns what a step preserves into what a run preserves.

## Main results

* `run_invariant`: a property preserved by every step that meets `P` holds after every run that
  meets `P`
* `throughout_of_invariant`: it holds in every state on the way
* `throughout_iff_along`: it holds in every state exactly when every step meets `P`
* `run_iff_along`: it holds in the last state exactly when every step meets a condition
-/

namespace Concurrency

variable {σ ε : Type}

/-- The state reached from `s` by the events `es`. -/
def run (step : σ → ε → σ) (s : σ) (es : List ε) : σ := es.foldl step s

/-- Every event of the run meets `P` in the state before it. -/
def Along (step : σ → ε → σ) (P : σ → ε → Prop) : σ → List ε → Prop
  | _, [] => True
  | s, e :: es => P s e ∧ Along step P (step s e) es

/-- Every state of the run meets `Q`, the first and the last included. -/
def Throughout (step : σ → ε → σ) (Q : σ → Prop) : σ → List ε → Prop
  | s, [] => Q s
  | s, e :: es => Q s ∧ Throughout step Q (step s e) es

instance decidableAlong (step : σ → ε → σ) (P : σ → ε → Prop) [∀ s e, Decidable (P s e)] :
    ∀ (s : σ) (es : List ε), Decidable (Along step P s es)
  | _, [] => inferInstanceAs (Decidable True)
  | s, e :: es =>
    have : Decidable (Along step P (step s e) es) := decidableAlong step P (step s e) es
    inferInstanceAs (Decidable (P s e ∧ Along step P (step s e) es))

variable {step : σ → ε → σ} {P : σ → ε → Prop} {I : σ → Prop}

@[simp] theorem run_nil (s : σ) : run step s [] = s := rfl

@[simp] theorem run_cons (s : σ) (e : ε) (es : List ε) :
    run step s (e :: es) = run step (step s e) es := rfl

@[simp] theorem along_nil (s : σ) : Along step P s [] := trivial

@[simp] theorem along_cons (s : σ) (e : ε) (es : List ε) :
    Along step P s (e :: es) ↔ P s e ∧ Along step P (step s e) es := Iff.rfl

theorem run_append (s : σ) (es es' : List ε) :
    run step s (es ++ es') = run step (run step s es) es' := List.foldl_append

theorem along_append (s : σ) (es es' : List ε) :
    Along step P s (es ++ es') ↔ Along step P s es ∧ Along step P (run step s es) es' := by
  induction es generalizing s with
  | nil => simp
  | cons e es ih => rw [List.cons_append, along_cons, along_cons, ih, run_cons, and_assoc]

theorem Along.and {P' : σ → ε → Prop} {s : σ} {es : List ε} (h : Along step P s es) (h' : Along step P' s es) :
    Along step (fun s e => P s e ∧ P' s e) s es := by
  induction es generalizing s with
  | nil => trivial
  | cons e es ih => exact ⟨⟨h.1, h'.1⟩, ih h.2 h'.2⟩

theorem along_of_forall (h : ∀ s e, P s e) (s : σ) (es : List ε) : Along step P s es := by
  induction es generalizing s with
  | nil => trivial
  | cons e es ih => exact ⟨h s e, ih _⟩

/-- Two conditions on the steps that agree while an invariant holds, which the second one
keeps. -/
theorem along_iff_along {P' : σ → ε → Prop} (hiff : ∀ s e, I s → (P s e ↔ P' s e))
    (hI : ∀ s e, I s → P' s e → I (step s e)) {s : σ} {es : List ε} (hs : I s) :
    Along step P s es ↔ Along step P' s es := by
  induction es generalizing s with
  | nil => exact Iff.rfl
  | cons e es ih =>
    rw [along_cons, along_cons, hiff s e hs]
    exact and_congr_right fun he => ih (hI s e hs he)

theorem along_true (s : σ) (es : List ε) : Along step (fun _ _ => True) s es :=
  along_of_forall (fun _ _ => trivial) s es

theorem along_of_mem {Q : ε → Prop} {es : List ε} (h : ∀ e ∈ es, Q e) (s : σ) : Along step (fun _ e => Q e) s es := by
  induction es generalizing s with
  | nil => trivial
  | cons e es ih => exact ⟨h e List.mem_cons_self, ih (fun e' he' => h e' (List.mem_cons_of_mem _ he')) _⟩

/-- **The invariant rule**: what every admitted step preserves, every admitted run preserves. -/
theorem run_invariant (hstep : ∀ s e, I s → P s e → I (step s e)) {s : σ} {es : List ε}
    (hs : I s) (hes : Along step P s es) : I (run step s es) := by
  induction es generalizing s with
  | nil => exact hs
  | cons e es ih => exact ih (hstep s e hs hes.1) hes.2

/-- The invariant rule without a condition on the steps. -/
theorem run_invariant' (hstep : ∀ s e, I s → I (step s e)) {s : σ} (hs : I s) (es : List ε) :
    I (run step s es) :=
  run_invariant (P := fun _ _ => True) (fun s e h _ => hstep s e h) hs (along_true s es)

theorem throughout_of_invariant (hstep : ∀ s e, I s → P s e → I (step s e)) {s : σ} {es : List ε}
    (hs : I s) (hes : Along step P s es) : Throughout step I s es := by
  induction es generalizing s with
  | nil => exact hs
  | cons e es ih => exact ⟨hs, ih (hstep s e hs hes.1) hes.2⟩

theorem Throughout.head {Q : σ → Prop} {s : σ} {es : List ε} (h : Throughout step Q s es) : Q s := by
  cases es with
  | nil => exact h
  | cons e es => exact h.1

/-- **A property of every state is a condition on the steps**, when a step into it is exactly one
that meets the condition. -/
theorem throughout_iff_along {Q : σ → Prop} (hI : ∀ s e, I s → I (step s e))
    (hiff : ∀ s e, I s → Q s → (Q (step s e) ↔ P s e)) {s : σ} {es : List ε} (hs : I s)
    (hQ : Q s) : Throughout step Q s es ↔ Along step P s es := by
  induction es generalizing s with
  | nil => exact iff_of_true hQ trivial
  | cons e es ih =>
    constructor
    · rintro ⟨-, h⟩
      have hQ' := h.head
      exact ⟨(hiff s e hs hQ).mp hQ', (ih (hI s e hs) hQ').mp h⟩
    · rintro ⟨hP, h⟩
      exact ⟨hQ, (ih (hI s e hs) ((hiff s e hs hQ).mpr hP)).mpr h⟩

/-- **A property of the last state is a condition on the steps**, when no step regains it. The steps
meet a condition under which an invariant is kept. -/
theorem run_iff_along {Q : σ → Prop} {C : σ → ε → Prop} (hI : ∀ s e, I s → P s e → I (step s e))
    (hiff : ∀ s e, I s → P s e → (Q (step s e) ↔ Q s ∧ C s e)) {s : σ} {es : List ε} (hs : I s)
    (hes : Along step P s es) : Q (run step s es) ↔ Q s ∧ Along step C s es := by
  induction es generalizing s with
  | nil => simp
  | cons e es ih => rw [run_cons, ih (hI s e hs hes.1) hes.2, hiff s e hs hes.1, along_cons, and_assoc]

theorem Throughout.last {Q : σ → Prop} {s : σ} {es : List ε} (hs : Throughout step Q s es) : Q (run step s es) := by
  induction es generalizing s with
  | nil => exact hs
  | cons e es ih => exact ih hs.2

theorem Throughout.mono {Q Q' : σ → Prop} (h : ∀ s, Q s → Q' s) {s : σ} {es : List ε}
    (hs : Throughout step Q s es) : Throughout step Q' s es := by
  induction es generalizing s with
  | nil => exact h s hs
  | cons e es ih => exact ⟨h s hs.1, ih hs.2⟩

end Concurrency
