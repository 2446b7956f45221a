import PeerX.Foundations.Program
import Mathlib.Logic.Function.Basic
import Mathlib.Logic.Relation

/-!
# Interleavings of programs

A machine executes single commands on a shared state; a command that cannot run yet (it waits for a
lock) has no execution. A configuration is a shared state with one program per thread, and a
schedule lets one thread at a time execute its next command. A protocol states what every thread may
rely on and what it guarantees; `Protocol.Safe` is the weakest precondition of a program under
interference, and `Protocol.run_safe` carries it through every schedule of any number of threads.

Two programs whose commands interleave on a handler, outside any transaction, are serializable when
their conflicting commands come in one order: then the interleaving does what the programs do one
after the other, in that order. States are compared by an equivalence that the handler respects.

## Main definitions

* `Machine`, `Config`, `Config.step`, `Config.run`: commands, configurations and schedules
* `Machine.restrict M P`: the machine whose steps all meet `P`
* `Protocol`: an invariant, a rely and a guarantee for each thread, and a condition on each command
  about to be issued
* `Protocol.Safe`: the program meets the protocol from a state, and ends in `Q`
* `Protocol.SafeAtRest`, `Protocol.Delivers`: the program meets the protocol from every state at
  rest, and ends in one, with a result that meets a condition
* `Machine.ofHandler h`: the machine of a handler
* `Config.trace`, `Prog.trace`: the commands of a schedule, and of a program run alone
* `Commuting h Same Conflict`: commands that do not conflict commute
* `Precedes i j`: in the trace, no command of `j` conflicts with a later one of `i`

## Main results

* `Config.run_invariant`: what every step preserves, every schedule preserves
* `Protocol.safe_bind`, `Protocol.safe_tryCatch`, `Protocol.safe_mono`: the rules of the logic
* `Protocol.run_safe`: safe programs stay safe under every schedule
* `Protocol.AllSafe.step`: every step of safe threads meets the guarantee
* `Config.run_restrict`: a run whose steps all meet `P` is a run of the restricted machine
* `Commuting.eval_comm`: a command moves past a program it does not conflict with
* `Commuting.serial`: an interleaving with ordered conflicts is a serial run
-/

namespace Concurrency

variable {C : Type} {R : C → Type} {ε α β ι σ : Type}

/-- A machine: thread `i` executes the command `c` on the shared state, or is blocked. -/
structure Machine (C : Type) (R : C → Type) (ι σ : Type) where
  exec : ι → (c : C) → σ → Option (R c × σ)

/-- A shared state with one program for each thread. -/
structure Config (C : Type) (R : C → Type) (ε α ι σ : Type) where
  shared : σ
  threads : ι → Prog C R ε α

namespace Config

section Steps

variable [DecidableEq ι] (M : Machine C R ι σ)

/-- Thread `i` executes its next command, if it has one and is not blocked. -/
def step (i : ι) (c : Config C R ε α ι σ) : Option (Config C R ε α ι σ) :=
  match c.threads i with
  | .call cmd k =>
    (M.exec i cmd c.shared).map fun o => ⟨o.2, Function.update c.threads i (k o.1)⟩
  | _ => none

/-- The threads of the schedule take one step each, in order. -/
def run : List ι → Config C R ε α ι σ → Option (Config C R ε α ι σ)
  | [], c => some c
  | i :: is, c => (c.step M i).bind (run is)

variable {M}

theorem step_eq_some {i : ι} {c c' : Config C R ε α ι σ} :
    c.step M i = some c' ↔ ∃ cmd k r s, c.threads i = .call cmd k ∧
      M.exec i cmd c.shared = some (r, s) ∧ c' = ⟨s, Function.update c.threads i (k r)⟩ := by
  unfold step
  cases hp : c.threads i with
  | ret a => simp
  | fail e => simp
  | call cmd k =>
    constructor
    · intro h
      obtain ⟨⟨r, s⟩, he, rfl⟩ := Option.map_eq_some_iff.mp h
      exact ⟨cmd, k, r, s, rfl, he, rfl⟩
    · rintro ⟨cmd', k', r, s, he, hx, rfl⟩
      cases he
      simp [hx]

@[simp] theorem run_nil (c : Config C R ε α ι σ) : run M [] c = some c := rfl

theorem run_cons_eq_some {i : ι} {is : List ι} {c c' : Config C R ε α ι σ} :
    run M (i :: is) c = some c' ↔ ∃ c₁, c.step M i = some c₁ ∧ run M is c₁ = some c' := by
  simp [run, Option.bind_eq_some_iff]

theorem run_append (is js : List ι) (c : Config C R ε α ι σ) :
    run M (is ++ js) c = (run M is c).bind (run M js) := by
  induction is generalizing c with
  | nil => rfl
  | cons i is ih =>
    cases hs : c.step M i with
    | none => simp [run, hs]
    | some c₁ => simp [run, hs, ih]

/-- **The invariant rule for schedules.** -/
theorem run_invariant {I : Config C R ε α ι σ → Prop}
    (hstep : ∀ i c c', I c → c.step M i = some c' → I c') {is : List ι}
    {c c' : Config C R ε α ι σ} (hc : I c) (hr : run M is c = some c') : I c' := by
  induction is generalizing c with
  | nil => simpa [← (Option.some.inj hr)] using hc
  | cons i is ih =>
    obtain ⟨c₁, h₁, hr⟩ := run_cons_eq_some.mp hr
    exact ih (hstep i c c₁ hc h₁) hr

end Steps

end Config

section Restriction

open Classical in
/-- The machine that executes a command only in the states where `P` admits it. -/
noncomputable def Machine.restrict (M : Machine C R ι σ) (P : ι → C → σ → Prop) :
    Machine C R ι σ where
  exec i c s := if P i c s then M.exec i c s else none

/-- Every step of the schedule is admitted by `P`: the command about to be executed meets `P` in
the state it is executed in. -/
def Config.Admitted [DecidableEq ι] (M : Machine C R ι σ) (P : ι → C → σ → Prop) :
    List ι → Config C R ε α ι σ → Prop
  | [], _ => True
  | i :: is, c => (∀ cmd ∈ (c.threads i).next, P i cmd c.shared) ∧
      ∀ c' ∈ c.step M i, Admitted M P is c'

instance Config.decidableAdmitted [DecidableEq ι] (M : Machine C R ι σ) (P : ι → C → σ → Prop)
    [∀ i c s, Decidable (P i c s)] :
    ∀ (is : List ι) (c : Config C R ε α ι σ), Decidable (c.Admitted M P is)
  | [], _ => inferInstanceAs (Decidable True)
  | i :: is, c =>
    have : ∀ c' : Config C R ε α ι σ, Decidable (c'.Admitted M P is) := decidableAdmitted M P is
    inferInstanceAs (Decidable ((∀ cmd ∈ (c.threads i).next, P i cmd c.shared) ∧
      ∀ c' ∈ c.step M i, c'.Admitted M P is))

variable {M : Machine C R ι σ} {P : ι → C → σ → Prop}

theorem Machine.restrict_exec {i : ι} {c : C} {s : σ} {o : R c × σ}
    (h : (M.restrict P).exec i c s = some o) : P i c s ∧ M.exec i c s = some o := by
  simp only [Machine.restrict] at h
  split at h
  · next hP => exact ⟨hP, h⟩
  · simp at h

/-- **An admitted run** of the machine is a run of the restricted machine. -/
theorem Config.run_restrict [DecidableEq ι] {is : List ι} {c c' : Config C R ε α ι σ}
    (hr : c.run M is = some c') (ha : c.Admitted M P is) :
    c.run (M.restrict P) is = some c' := by
  induction is generalizing c with
  | nil => exact hr
  | cons i is ih =>
    obtain ⟨c₁, h₁, hr⟩ := run_cons_eq_some.mp hr
    refine run_cons_eq_some.mpr ⟨c₁, ?_, ih hr (ha.2 c₁ h₁)⟩
    obtain ⟨cmd, k, r, s, hk, he, rfl⟩ := step_eq_some.mp h₁
    have hP : P i cmd c.shared := ha.1 cmd (by rw [hk]; rfl)
    exact step_eq_some.mpr ⟨cmd, k, r, s, hk, by simp [Machine.restrict, hP, he], rfl⟩

/-- A run that is admitted by a condition is admitted by a weaker one. -/
theorem Config.Admitted.mono [DecidableEq ι] {P' : ι → C → σ → Prop}
    (hP : ∀ i c s, P i c s → P' i c s) {is : List ι} {c : Config C R ε α ι σ}
    (h : c.Admitted M P is) : c.Admitted M P' is := by
  induction is generalizing c with
  | nil => trivial
  | cons i is ih => exact ⟨fun cmd hcmd => hP _ _ _ (h.1 cmd hcmd), fun c' hc' => ih (h.2 c' hc')⟩

/-- Every run is admitted by a condition that always holds. -/
theorem Config.admitted_of_forall [DecidableEq ι] (hP : ∀ i c s, P i c s) (is : List ι)
    (c : Config C R ε α ι σ) : c.Admitted M P is := by
  induction is generalizing c with
  | nil => trivial
  | cons i is ih => exact ⟨fun _ _ => hP _ _ _, fun c' _ => ih c'⟩

end Restriction

/-- A rely/guarantee protocol for the threads of a machine. -/
structure Protocol (C ι σ : Type) where
  /-- Holds in every state between two commands. -/
  inv : σ → Prop
  /-- What the other threads may do to the state between two commands of a thread. -/
  rely : ι → σ → σ → Prop
  /-- What each command of a thread does to the state. -/
  guar : ι → σ → σ → Prop
  /-- Holds whenever a thread is about to issue a command. -/
  pre : ι → C → σ → Prop
  rely_refl : ∀ i s, rely i s s
  rely_trans : ∀ i s₁ s₂ s₃, rely i s₁ s₂ → rely i s₂ s₃ → rely i s₁ s₃
  guar_rely : ∀ i j s s', i ≠ j → inv s → inv s' → guar i s s' → rely j s s'

namespace Protocol

variable (T : Protocol C ι σ) (M : Machine C R ι σ) (i : ι)

/-- Safety under interference: from `s`, whatever the other threads do within the rely, each
command of the program meets the protocol, and the program ends in `Q`. -/
def Safe (Q : Except ε α → σ → Prop) : Prog C R ε α → σ → Prop
  | .ret a, s => Q (.ok a) s
  | .fail e, s => Q (.error e) s
  | .call c k, s => ∀ s₁, T.rely i s s₁ → T.inv s₁ → T.pre i c s₁ ∧
      ∀ r s₂, M.exec i c s₁ = some (r, s₂) → T.inv s₂ ∧ T.guar i s₁ s₂ ∧ Safe Q (k r) s₂

variable {T M i} {Q Q' : Except ε α → σ → Prop} {s s' : σ}

theorem safe_mono {p : Prog C R ε α} (hQ : ∀ o s, Q o s → Q' o s) (h : T.Safe M i Q p s) :
    T.Safe M i Q' p s := by
  induction p generalizing s with
  | ret a => exact hQ _ _ h
  | fail e => exact hQ _ _ h
  | call c k ih =>
    intro s₁ hr hi
    obtain ⟨hp, hx⟩ := h s₁ hr hi
    refine ⟨hp, fun r s₂ he => ?_⟩
    obtain ⟨h₁, h₂, h₃⟩ := hx r s₂ he
    exact ⟨h₁, h₂, ih r h₃⟩

theorem safe_bind {p : Prog C R ε α} {f : α → Prog C R ε β} {Q : Except ε β → σ → Prop}
    (h : T.Safe M i (fun o s => match o with
      | .ok a => T.Safe M i Q (f a) s
      | .error e => Q (.error e) s) p s) : T.Safe M i Q (p >>= f) s := by
  induction p generalizing s with
  | ret a => exact h
  | fail e => exact h
  | call c k ih =>
    intro s₁ hr hi
    obtain ⟨hp, hx⟩ := h s₁ hr hi
    refine ⟨hp, fun r s₂ he => ?_⟩
    obtain ⟨h₁, h₂, h₃⟩ := hx r s₂ he
    exact ⟨h₁, h₂, ih r h₃⟩

theorem safe_tryCatch {p : Prog C R ε α} {f : ε → Prog C R ε α}
    (h : T.Safe M i (fun o s => match o with
      | .ok a => Q (.ok a) s
      | .error e => T.Safe M i Q (f e) s) p s) : T.Safe M i Q (tryCatch p f) s := by
  induction p generalizing s with
  | ret a => exact h
  | fail e => exact h
  | call c k ih =>
    intro s₁ hr hi
    obtain ⟨hp, hx⟩ := h s₁ hr hi
    refine ⟨hp, fun r s₂ he => ?_⟩
    obtain ⟨h₁, h₂, h₃⟩ := hx r s₂ he
    exact ⟨h₁, h₂, ih r h₃⟩

theorem Safe.of_rely {p : Prog C R ε α} (hQ : ∀ o s s', Q o s → T.rely i s s' → Q o s')
    (h : T.Safe M i Q p s) (hr : T.rely i s s') : T.Safe M i Q p s' := by
  cases p with
  | ret a => exact hQ _ _ _ h hr
  | fail e => exact hQ _ _ _ h hr
  | call c k => exact fun s₁ hr₁ hi => h s₁ (T.rely_trans i _ _ _ hr hr₁) hi

/-- A program that is safe on a machine is safe when some commands are held back. -/
theorem Safe.restrict {P : ι → C → σ → Prop} {p : Prog C R ε α} (h : T.Safe M i Q p s) :
    T.Safe (M.restrict P) i Q p s := by
  induction p generalizing s with
  | ret a => exact h
  | fail e => exact h
  | call c k ih =>
    intro s₁ hr hi
    obtain ⟨hp, hx⟩ := h s₁ hr hi
    refine ⟨hp, fun r s₂ he => ?_⟩
    obtain ⟨h₁, h₂, h₃⟩ := hx r s₂ (Machine.restrict_exec he).2
    exact ⟨h₁, h₂, ih r h₃⟩

/-- A program that is safe is safe when one of its commands fails. -/
theorem Safe.failAt {p : Prog C R ε α} {e : ε} (hQ : ∀ s, Q (.error e) s) (h : T.Safe M i Q p s)
    (n : ℕ) : T.Safe M i Q (p.failAt e n) s := by
  induction p generalizing s n with
  | ret a =>
    cases n with
    | zero => exact hQ s
    | succ n => exact h
  | fail x =>
    cases n with
    | zero => exact hQ s
    | succ n => exact h
  | call c k ih =>
    cases n with
    | zero => exact hQ s
    | succ n =>
      intro s₁ hr hi
      obtain ⟨hp, hx⟩ := h s₁ hr hi
      refine ⟨hp, fun r s₂ he => ?_⟩
      obtain ⟨h₁, h₂, h₃⟩ := hx r s₂ he
      exact ⟨h₁, h₂, ih r h₃ n⟩

/-- The program is safe from every state in `rest`, and ends in one. -/
def SafeAtRest (T : Protocol C ι σ) (M : Machine C R ι σ) (rest : σ → Prop) (i : ι)
    (p : Prog C R ε α) : Prop :=
  ∀ s, rest s → T.Safe M i (fun _ s => rest s) p s

namespace SafeAtRest

variable {rest : σ → Prop}

theorem ret (a : α) : T.SafeAtRest M rest i (pure a : Prog C R ε α) := fun _ hs => hs

theorem bind {p : Prog C R ε α} {f : α → Prog C R ε β} (hp : T.SafeAtRest M rest i p)
    (hf : ∀ a, T.SafeAtRest M rest i (f a)) : T.SafeAtRest M rest i (p >>= f) := by
  intro s hs
  refine safe_bind (safe_mono (fun o s₁ h₁ => ?_) (hp s hs))
  cases o with
  | ok a => exact hf a s₁ h₁
  | error e => exact h₁

theorem tryCatch {p : Prog C R ε α} {f : ε → Prog C R ε α} (hp : T.SafeAtRest M rest i p)
    (hf : ∀ e, T.SafeAtRest M rest i (f e)) : T.SafeAtRest M rest i (tryCatch p f) := by
  intro s hs
  refine safe_tryCatch (safe_mono (fun o s₁ h₁ => ?_) (hp s hs))
  cases o with
  | ok a => exact h₁
  | error e => exact hf e s₁ h₁

end SafeAtRest

/-- The program is safe from every state in `rest`, ends in one, and its result meets `A`. -/
def Delivers (T : Protocol C ι σ) (M : Machine C R ι σ) (rest : σ → Prop) (i : ι) (A : α → Prop)
    (p : Prog C R ε α) : Prop :=
  ∀ s, rest s → T.Safe M i (fun o s => rest s ∧ ∀ a, o = .ok a → A a) p s

namespace Delivers

variable {rest : σ → Prop} {A : α → Prop} {B : β → Prop}

theorem ret {a : α} (ha : A a) : T.Delivers M rest i A (pure a : Prog C R ε α) := by
  rintro s hs
  refine ⟨hs, fun a' ha' => ?_⟩
  cases ha'
  exact ha

theorem fail (e : ε) : T.Delivers M rest i A (throw e : Prog C R ε α) :=
  fun _ hs => ⟨hs, fun _ ha => by cases ha⟩

theorem bind {p : Prog C R ε α} {f : α → Prog C R ε β} (hp : T.Delivers M rest i A p)
    (hf : ∀ a, A a → T.Delivers M rest i B (f a)) : T.Delivers M rest i B (p >>= f) := by
  intro s hs
  refine safe_bind (safe_mono (fun o s₁ h₁ => ?_) (hp s hs))
  cases o with
  | ok a => exact hf a (h₁.2 a rfl) s₁ h₁.1
  | error e => exact ⟨h₁.1, fun _ hb => by cases hb⟩

theorem tryCatch {p : Prog C R ε α} {f : ε → Prog C R ε α} (hp : T.Delivers M rest i A p)
    (hf : ∀ e, T.Delivers M rest i A (f e)) : T.Delivers M rest i A (tryCatch p f) := by
  intro s hs
  refine safe_tryCatch (safe_mono (fun o s₁ h₁ => ?_) (hp s hs))
  cases o with
  | ok a => exact h₁
  | error e => exact hf e s₁ h₁.1

end Delivers

section Schedules

variable {Q : ι → Except ε α → σ → Prop}

/-- The invariant holds, and every thread is safe from here. -/
def AllSafe (T : Protocol C ι σ) (M : Machine C R ι σ) (Q : ι → Except ε α → σ → Prop)
    (c : Config C R ε α ι σ) : Prop :=
  T.inv c.shared ∧ ∀ i, T.Safe M i (Q i) (c.threads i) c.shared

theorem AllSafe.step [DecidableEq ι] {c c' : Config C R ε α ι σ}
    (hQ : ∀ i o s s', Q i o s → T.rely i s s' → Q i o s')
    (h : AllSafe T M Q c) {i : ι} (hs : c.step M i = some c') :
    AllSafe T M Q c' ∧ T.guar i c.shared c'.shared := by
  obtain ⟨cmd, k, r, s, hk, he, rfl⟩ := Config.step_eq_some.mp hs
  have hi := h.2 i
  rw [hk] at hi
  obtain ⟨-, hx⟩ := hi c.shared (T.rely_refl i _) h.1
  obtain ⟨h₁, h₂, h₃⟩ := hx r s he
  refine ⟨⟨h₁, fun j => ?_⟩, h₂⟩
  by_cases hj : j = i
  · subst hj
    simpa using h₃
  · show T.Safe M j (Q j) (Function.update c.threads i (k r) j) s
    rw [Function.update_of_ne hj]
    exact (h.2 j).of_rely (hQ j) (T.guar_rely i j _ _ (Ne.symm hj) h.1 h₁ h₂)

/-- **Adequacy**: safe threads stay safe under every schedule. -/
theorem run_safe [DecidableEq ι] {c c' : Config C R ε α ι σ}
    (hQ : ∀ i o s s', Q i o s → T.rely i s s' → Q i o s')
    (h : AllSafe T M Q c) {is : List ι} (hr : c.run M is = some c') : AllSafe T M Q c' :=
  Config.run_invariant (fun _ _ _ hc hs => (hc.step hQ hs).1) h hr

/-- A thread about to issue a command meets the protocol's condition on it. -/
theorem AllSafe.pre {c : Config C R ε α ι σ} (h : AllSafe T M Q c) {i : ι} {cmd : C} {k : R cmd → Prog C R ε α}
    (hk : c.threads i = .call cmd k) : T.pre i cmd c.shared := by
  have hi := h.2 i
  rw [hk] at hi
  exact (hi c.shared (T.rely_refl i _) h.1).1

end Schedules

end Protocol

/-! ## Serial runs -/

/-- Commands answered one at a time by a handler. -/
def Machine.ofHandler (h : (c : C) → σ → R c × σ) : Machine C R ι σ where
  exec _ c s := some (h c s)

/-- The commands a schedule executes, with their threads. -/
def Config.trace [DecidableEq ι] (M : Machine C R ι σ) :
    List ι → Config C R ε α ι σ → List (ι × C)
  | [], _ => []
  | i :: is, c =>
    ((c.threads i).next.map fun cmd => (i, cmd)).toList ++
      ((c.step M i).map (Config.trace M is)).getD []

/-- The commands a program issues when it runs alone. -/
def Prog.trace (h : (c : C) → σ → R c × σ) : Prog C R ε α → σ → List C
  | .call c k, s => c :: (k (h c s).1).trace h (h c s).2
  | _, _ => []

/-- Commands that do not conflict commute: neither reply depends on the order, and the states
are the same. -/
structure Commuting (h : (c : C) → σ → R c × σ) (Same : σ → σ → Prop) (Conflict : C → C → Prop) :
    Prop where
  same : Equivalence Same
  congr : ∀ c s s', Same s s' → (h c s).1 = (h c s').1 ∧ Same (h c s).2 (h c s').2
  comm : ∀ a b s, ¬ Conflict a b → (h b (h a s).2).1 = (h b s).1 ∧
    (h a (h b s).2).1 = (h a s).1 ∧ Same (h b (h a s).2).2 (h a (h b s).2).2

/-- No command of `j` conflicts with a later command of `i`. -/
def Precedes (Conflict : C → C → Prop) (i j : ι) (trace : List (ι × C)) : Prop :=
  trace.Pairwise fun x y => x.1 = j → y.1 = i → ¬ Conflict x.2 y.2

instance [DecidableEq ι] (Conflict : C → C → Prop) [DecidableRel Conflict] (i j : ι)
    (trace : List (ι × C)) : Decidable (Precedes Conflict i j trace) :=
  inferInstanceAs (Decidable (List.Pairwise _ _))

namespace Commuting

variable {h : (c : C) → σ → R c × σ} {Same : σ → σ → Prop} {Conflict : C → C → Prop}

/-- A program does the same in states that are the same. -/
theorem eval_congr (H : Commuting h Same Conflict) {p : Prog C R ε α} {s s' : σ}
    (hs : Same s s') : (p.eval h s).1 = (p.eval h s').1 ∧
      Same (p.eval h s).2 (p.eval h s').2 ∧ p.trace h s = p.trace h s' := by
  induction p generalizing s s' with
  | ret a => exact ⟨rfl, hs, rfl⟩
  | fail e => exact ⟨rfl, hs, rfl⟩
  | call c k ih =>
    obtain ⟨hreply, hstate⟩ := H.congr c s s' hs
    obtain ⟨hresult, hend, htrace⟩ := ih (h c s).1 hstate
    simp only [Prog.eval_call, Prog.trace]
    rw [hreply] at hresult hend htrace
    refine ⟨?_, ?_, ?_⟩
    · rw [hreply]
      exact hresult
    · rw [hreply]
      exact hend
    · rw [hreply, htrace]

/-- **A command moves past a program** that it does not conflict with. -/
theorem eval_comm (H : Commuting h Same Conflict) {p : Prog C R ε α} {b : C} {s : σ}
    (hp : ∀ c ∈ p.trace h (h b s).2, ¬ Conflict b c) :
    (p.eval h s).1 = (p.eval h (h b s).2).1 ∧ (h b (p.eval h s).2).1 = (h b s).1 ∧
      Same (p.eval h (h b s).2).2 (h b (p.eval h s).2).2 ∧
      p.trace h s = p.trace h (h b s).2 := by
  induction p generalizing s with
  | ret a => exact ⟨rfl, rfl, H.same.refl _, rfl⟩
  | fail e => exact ⟨rfl, rfl, H.same.refl _, rfl⟩
  | call c k ih =>
    simp only [Prog.trace, List.forall_mem_cons] at hp
    obtain ⟨hc, hrest⟩ := hp
    obtain ⟨hreply, hreply', hstate⟩ := H.comm b c s hc
    -- after `c`, the command `b` leads to the same state as before it
    obtain ⟨hresult, hend, htrace⟩ := H.eval_congr (p := k (h c s).1) hstate
    rw [hreply, htrace] at hrest
    obtain ⟨ihresult, ihreply, ihend, ihtrace⟩ := ih (h c s).1 hrest
    simp only [Prog.eval_call, Prog.trace]
    rw [hreply]
    refine ⟨ihresult.trans hresult.symm, ihreply.trans hreply', H.same.trans hend ihend, ?_⟩
    rw [ihtrace, htrace]

variable [DecidableEq ι]

/-- **Ordered conflicts make a serial run**: an interleaving of two programs in which every
conflicting pair of commands has the one of `i` first does what `i` and then `j` do alone. -/
theorem serial (H : Commuting h Same Conflict) {i j : ι} (hij : i ≠ j) (hall : ∀ l, l = i ∨ l = j)
    {is : List ι} {c c' : Config C R ε α ι σ} {a b : α}
    (hr : c.run (Machine.ofHandler h) is = some c')
    (hord : Precedes Conflict i j (c.trace (Machine.ofHandler h) is))
    (hi : c'.threads i = .ret a) (hj : c'.threads j = .ret b) :
    ∃ s₁ s₂, (c.threads i).eval h c.shared = (.ok a, s₁) ∧
      (c.threads j).eval h s₁ = (.ok b, s₂) ∧ Same s₂ c'.shared ∧
      ∀ cmd ∈ (c.threads i).trace h c.shared, (i, cmd) ∈ c.trace (Machine.ofHandler h) is := by
  -- the schedule loses its first step; the rest already has a serial run
  induction is generalizing c with
  | nil =>
    obtain rfl := Option.some.inj hr
    rw [hi, hj]
    exact ⟨c.shared, c.shared, rfl, rfl, H.same.refl _, by simp [Prog.trace]⟩
  | cons l is ih =>
    obtain ⟨c₁, hstep, hr⟩ := Config.run_cons_eq_some.mp hr
    have htrace : c.trace (Machine.ofHandler h) (l :: is) =
        ((c.threads l).next.map fun cmd => (l, cmd)).toList ++
          c₁.trace (Machine.ofHandler h) is := by
      simp [Config.trace, hstep]
    rw [htrace] at hord ⊢
    obtain ⟨cmd, k, r, s, hl, hexec, rfl⟩ := Config.step_eq_some.mp hstep
    simp only [hl, Prog.next, Option.map_some, Option.toList_some, List.singleton_append] at hord ⊢
    -- `hfirst`: if `j` moves first, no later statement of `i` conflicts with it
    obtain ⟨hfirst, hord⟩ := List.pairwise_cons.mp hord
    obtain ⟨hreply, hstate⟩ := Prod.mk.inj (Option.some.inj hexec)
    subst hstate
    subst hreply
    obtain ⟨s₁, s₂, hevali, hevalj, hsame, hmem⟩ := ih hr hord
    rcases hall l with rfl | rfl
    · -- a step of `i` is a step of the serial run
      simp only [Function.update_self, Function.update_of_ne hij.symm] at hevali hevalj hmem
      refine ⟨s₁, s₂, by rw [hl]; exact hevali, hevalj, hsame, ?_⟩
      rw [hl]
      intro cmd' hcmd'
      rcases List.mem_cons.mp hcmd' with rfl | hcmd'
      · exact List.mem_cons_self
      · exact List.mem_cons_of_mem _ (hmem cmd' hcmd')
    · -- a step of `j` moves behind the rest of `i`
      simp only [Function.update_self, Function.update_of_ne hij] at hevali hevalj hmem
      obtain ⟨hresult, hreply, hend, htracei⟩ := H.eval_comm (p := c.threads i) (b := cmd)
        (s := c.shared) fun cmd' hcmd' => hfirst _ (hmem cmd' hcmd') rfl rfl
      rw [hevali] at hresult hend
      obtain ⟨hresult', hend', -⟩ := H.eval_congr (p := k (h cmd c.shared).1) hend
      rw [hevalj] at hresult' hend'
      refine ⟨((c.threads i).eval h c.shared).2,
        ((k (h cmd c.shared).1).eval h (h cmd ((c.threads i).eval h c.shared).2).2).2,
        Prod.ext hresult rfl, ?_, H.same.trans (H.same.symm hend') hsame, ?_⟩
      · rw [hl, Prog.eval_call, hreply]
        exact Prod.ext hresult'.symm rfl
      · rw [htracei]
        exact fun cmd' hcmd' => List.mem_cons_of_mem _ (hmem cmd' hcmd')

end Commuting

end Concurrency
