import PeerX.Foundations.Fallible
import Mathlib.Data.Stream.Init

/-!
# Streams of fates

A service whose commands may throw at any time, for ever. The fates of all commands to come are a
stream. A command that throws at once does not reach the service; one that the service refuses
throws whatever its fate.

A program can run from one state to another when some fates lead there, whatever comes after them.
So the runs of parts are put together without their fates, and a part that leads back to its state
can run again and again.

## Main results

* `canRun_bind`, `canRun_issue`, `canRun_issue_throws`, `canRun_tryCatch`: the rules
* `eval_loop_of_cycle`: a loop whose passes lead back to their state does not end
* `eval_calm`: a program none of whose commands throws
-/

namespace Concurrency

open Stream' (cycle const cycle_eq append_append_stream)

variable {C : Type} {V : C → Type} {ε σ α β : Type}

/-- A service: the values and the effects of its commands. -/
structure Service (V : C → Type) (ε σ : Type) where
  value : σ → (c : C) → V c
  effect : σ → C → Except ε σ

/-- A state, and the fates of all commands to come. -/
structure Course (ε σ : Type) where
  state : σ
  fates : Stream' (Fate ε)

namespace Service

variable (service : Service V ε σ)

/-- The reply to a command, and the course after it. -/
def serve (c : C) (s : Course ε σ) : Except ε (V c) × Course ε σ :=
  match s.fates.head with
  | .throws e => (.error e, ⟨s.state, s.fates.tail⟩)
  | fate =>
    match service.effect s.state c with
    | .error e => (.error e, ⟨s.state, s.fates.tail⟩)
    | .ok state => (fate.reply (service.value s.state c), ⟨state, s.fates.tail⟩)

/-- The programs of a service. -/
abbrev Task (_ : Service V ε σ) (α : Type) := Prog C (fun c => Except ε (V c)) ε α

/-- A program can run from one state to another: some fates of its commands lead there, whatever
comes after. -/
def CanRun (p : service.Task α) (s : σ) (o : Except ε α) (s' : σ) : Prop :=
  ∃ fates : List (Fate ε), ∀ later : Stream' (Fate ε),
    p.eval service.serve ⟨s, fates ++ₛ later⟩ = (o, ⟨s', later⟩)

variable {service} {s s' s₁ : σ} {c : C}

theorem state_serve (service : Service V ε σ) (c : C) (course : Course ε σ) :
    (service.serve c course).2.state = course.state ∨ service.effect course.state c = .ok (service.serve c course).2.state := by
  unfold serve
  split
  · exact .inl rfl
  · cases heffect : service.effect course.state c with
    | error e => exact .inl rfl
    | ok state => exact .inr rfl

theorem serve_eq_ok {course : Course ε σ} {v : V c} (h : (service.serve c course).1 = .ok v) :
    service.value course.state c = v := by
  unfold serve at h
  split at h
  · cases h
  · cases heffect : service.effect course.state c with
    | error e =>
      rw [heffect] at h
      cases h
    | ok state =>
      rw [heffect] at h
      exact (Fate.reply_eq_ok.mp h).2

theorem canRun_ret (a : α) (s : σ) : service.CanRun (pure a) s (.ok a) s := ⟨[], fun _ => rfl⟩

theorem canRun_issue (h : service.effect s c = .ok s') :
    service.CanRun (issue c) s (.ok (service.value s c)) s' := by
  refine ⟨[.succeeds], fun later => ?_⟩
  have hserve : service.serve c ⟨s, [.succeeds] ++ₛ later⟩ = (.ok (service.value s c), ⟨s', later⟩) := by
    change (match service.effect s c with | .error e => _ | .ok state => _) = _
    rw [h]
    rfl
  rw [issue, Prog.eval_call, hserve]
  rfl

theorem canRun_issue_throws (c : C) (e : ε) (s : σ) : service.CanRun (issue c) s (.error e) s :=
  ⟨[.throws e], fun _ => rfl⟩

theorem canRun_bind {p : service.Task α} {f : α → service.Task β} {a : α} {o : Except ε β}
    (h : service.CanRun p s (.ok a) s₁) (h' : service.CanRun (f a) s₁ o s') : service.CanRun (p >>= f) s o s' := by
  obtain ⟨fates, hfates⟩ := h
  obtain ⟨fates', hfates'⟩ := h'
  refine ⟨fates ++ fates', fun later => ?_⟩
  rw [append_append_stream, Prog.eval_bind, hfates]
  exact hfates' later

theorem canRun_bind_error {p : service.Task α} {f : α → service.Task β} {e : ε} (h : service.CanRun p s (.error e) s') :
    service.CanRun (p >>= f) s (.error e) s' := by
  obtain ⟨fates, hfates⟩ := h
  refine ⟨fates, fun later => ?_⟩
  rw [Prog.eval_bind, hfates]

theorem canRun_tryCatch {p : service.Task α} {f : ε → service.Task α} {a : α} (h : service.CanRun p s (.ok a) s') :
    service.CanRun (tryCatch p f) s (.ok a) s' := by
  obtain ⟨fates, hfates⟩ := h
  refine ⟨fates, fun later => ?_⟩
  rw [Prog.eval_tryCatch, hfates]

theorem canRun_tryCatch_error {p : service.Task α} {f : ε → service.Task α} {e : ε} {o : Except ε α}
    (h : service.CanRun p s (.error e) s₁) (h' : service.CanRun (f e) s₁ o s') :
    service.CanRun (tryCatch p f) s o s' := by
  obtain ⟨fates, hfates⟩ := h
  obtain ⟨fates', hfates'⟩ := h'
  refine ⟨fates ++ fates', fun later => ?_⟩
  rw [append_append_stream, Prog.eval_tryCatch, hfates]
  exact hfates' later

/-- **A loop whose passes lead back to their state** does not end when their fates come again and
again. -/
theorem eval_loop_of_cycle {loop : ℕ → service.Task Bool} {fates : List (Fate ε)} (hne : fates ≠ [])
    (hzero : loop 0 = pure false)
    (hpass : ∀ n (later : Stream' (Fate ε)),
      (loop (n + 1)).eval service.serve ⟨s, fates ++ₛ later⟩ = (loop n).eval service.serve ⟨s, later⟩) (n : ℕ) :
    (loop n).eval service.serve ⟨s, cycle fates hne⟩ = (.ok false, ⟨s, cycle fates hne⟩) := by
  induction n with
  | zero =>
    rw [hzero]
    rfl
  | succ n ih => rw [← ih, ← hpass n, ← cycle_eq]

theorem serve_const (c : C) (s : σ) : service.serve c ⟨s, const .succeeds⟩ =
    match service.effect s c with
    | .error e => (.error e, ⟨s, const .succeeds⟩)
    | .ok s' => (.ok (service.value s c), ⟨s', const .succeeds⟩) := by
  unfold serve
  cases service.effect s c <;> rfl

/-- **A program none of whose commands throws**, against another model of the service. -/
theorem eval_calm (service : Service V ε σ) {τ : Type} (serve' : (c : C) → τ → Except ε (V c) × τ) (R : σ → τ → Prop)
    (hserve : ∀ c s t, R s t → (serve' c t).1 = (service.serve c ⟨s, const .succeeds⟩).1 ∧
      R (service.serve c ⟨s, const .succeeds⟩).2.state (serve' c t).2)
    (p : service.Task α) (s : σ) (t : τ) (h : R s t) :
    (p.eval serve' t).1 = (p.eval service.serve ⟨s, const .succeeds⟩).1 ∧
      (p.eval service.serve ⟨s, const .succeeds⟩).2.fates = const .succeeds ∧
      R (p.eval service.serve ⟨s, const .succeeds⟩).2.state (p.eval serve' t).2 := by
  induction p generalizing s t with
  | ret a => exact ⟨rfl, rfl, h⟩
  | fail e => exact ⟨rfl, rfl, h⟩
  | call c k ih =>
    obtain ⟨hreply, hstate⟩ := hserve c s t h
    have hcalm : (service.serve c ⟨s, const .succeeds⟩).2 =
        ⟨(service.serve c ⟨s, const .succeeds⟩).2.state, const .succeeds⟩ := by
      rw [serve_const]
      cases service.effect s c <;> rfl
    rw [Prog.eval_call, Prog.eval_call, hreply, hcalm]
    exact ih _ _ _ hstate

end Service

end Concurrency
