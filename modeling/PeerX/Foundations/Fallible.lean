import PeerX.Foundations.Chronicle

/-!
# Commands that may throw

A command of an external service goes through, throws, or throws although it was carried out. A
program issues such commands, and a thrown exception can be caught. A program keeps a rule when each
of its commands meets the rule next to the commands of its past, whatever they reply.

## Main definitions

* `Fate`: how a command goes
* `issue`: a command whose exception is thrown
* `Prog.Yields h p s Q`: the outcome and the last state of the program alone are in `Q`
* `Prog.Within S A`: the commands of the program meet `S`, and its result meets `A`
* `Prog.Keeps h rule i Q E`: the program keeps a rule, and ends in `Q` or with an exception in `E`
* `Prog.failAmong P e p n`: the program whose command number `n` among those of the kind `P` throws
  `e`

## Main results

* `yields_bind`, `yields_issue_bind`, `yields_tryCatch`: the rules for a program alone
* `Prog.Within.yields`, `Prog.Within.keeps`: what the commands of `S` preserve, and the rules that
  they meet
* `keeps_bind`, `keeps_issue`, `keeps_tryCatch`: the rules for programs
* `chronicle_of_keeps`: the executed commands of programs that keep their rules
* `failAmong_bind`, `eval_failAmong_zero`, `eval_failAmong_succ`: the first failing command, and the
  part before it
-/

namespace Concurrency

variable {C : Type} {V : C → Type} {ε α β ι σ : Type}

/-- How a command goes. A command that throws late was carried out all the same. -/
inductive Fate (ε : Type) : Type
  | succeeds
  | throws (e : ε)
  | throwsLate (e : ε)

namespace Fate

/-- The command goes through. -/
def succeeded : Fate ε → Bool
  | .succeeds => true
  | _ => false

/-- The command has its effect. -/
def carriedOut : Fate ε → Bool
  | .throws _ => false
  | _ => true

/-- The reply to a command whose value is `a`. -/
def reply (a : α) : Fate ε → Except ε α
  | .succeeds => .ok a
  | .throws e => .error e
  | .throwsLate e => .error e

theorem reply_eq_ok {f : Fate ε} {a b : α} : f.reply a = .ok b ↔ f = .succeeds ∧ a = b := by
  cases f <;> simp [reply]

theorem carriedOut_of_reply {f : Fate ε} {a b : α} (h : f.reply a = .ok b) : f.carriedOut = true := by
  obtain ⟨rfl, -⟩ := reply_eq_ok.mp h
  rfl

end Fate

/-! ## Programs -/

/-- The result or the exception of a command, as a program. -/
def Prog.ofExcept {R : C → Type} : Except ε α → Prog C R ε α
  | .ok a => .ret a
  | .error e => .fail e

/-- A program that returns its outcome, be it a result or an exception. -/
def Prog.attempt {R : C → Type} (p : Prog C R ε α) : Prog C R ε (Except ε α) :=
  tryCatch (Except.ok <$> p) fun e => pure (.error e)

/-- A command: its exception is thrown. -/
def issue (c : C) : Prog C (fun c => Except ε (V c)) ε (V c) := .call c Prog.ofExcept

/-- An executed command. -/
abbrev FallibleEvent (V : C → Type) (ε ι σ : Type) := Executed C (fun c => Except ε (V c)) ι σ

/-! ## A program alone -/

/-- The program alone yields `Q`: the outcome and the last state of its run from `s`. -/
def Prog.Yields {R : C → Type} (h : (c : C) → σ → R c × σ) (p : Prog C R ε α) (s : σ)
    (Q : Except ε α → σ → Prop) : Prop := Q (p.eval h s).1 (p.eval h s).2

section Yields

variable {h : (c : C) → σ → Except ε (V c) × σ} {s : σ} {Q Q' : Except ε β → σ → Prop}

theorem Prog.Yields.mono {p : Prog C (fun c => Except ε (V c)) ε β} (hp : p.Yields h s Q)
    (hQ : ∀ o s', Q o s' → Q' o s') : p.Yields h s Q' := hQ _ _ hp

theorem yields_ret {b : β} (hQ : Q (.ok b) s) :
    (pure b : Prog C (fun c => Except ε (V c)) ε β).Yields h s Q := hQ

theorem yields_throw {e : ε} (hQ : Q (.error e) s) :
    (throw e : Prog C (fun c => Except ε (V c)) ε β).Yields h s Q := hQ

/-- A sequence: the rest runs where the first part has ended. -/
theorem yields_bind {p : Prog C (fun c => Except ε (V c)) ε α}
    {f : α → Prog C (fun c => Except ε (V c)) ε β} {P : Except ε α → σ → Prop} (hp : p.Yields h s P)
    (hok : ∀ a s', P (.ok a) s' → (f a).Yields h s' Q) (herror : ∀ e s', P (.error e) s' → Q (.error e) s') :
    (p >>= f).Yields h s Q := by
  unfold Prog.Yields at hp ⊢
  rw [Prog.eval_bind]
  cases hrun : p.eval h s with
  | mk o s' =>
    rw [hrun] at hp
    cases o with
    | ok a => exact hok a s' hp
    | error e => exact herror e s' hp

theorem yields_tryCatch {p : Prog C (fun c => Except ε (V c)) ε β}
    {f : ε → Prog C (fun c => Except ε (V c)) ε β} {P : Except ε β → σ → Prop} (hp : p.Yields h s P)
    (hok : ∀ b s', P (.ok b) s' → Q (.ok b) s') (herror : ∀ e s', P (.error e) s' → (f e).Yields h s' Q) :
    (tryCatch p f).Yields h s Q := by
  unfold Prog.Yields at hp ⊢
  rw [Prog.eval_tryCatch]
  cases hrun : p.eval h s with
  | mk o s' =>
    rw [hrun] at hp
    cases o with
    | ok b => exact hok b s' hp
    | error e => exact herror e s' hp

theorem yields_issue_bind {c : C} {f : V c → Prog C (fun c => Except ε (V c)) ε β}
    (hok : ∀ v, (h c s).1 = .ok v → (f v).Yields h (h c s).2 Q)
    (herror : ∀ e, (h c s).1 = .error e → Q (.error e) (h c s).2) :
    (issue c >>= f).Yields h s Q := by
  change (Prog.ofExcept (h c s).1 >>= f).Yields h (h c s).2 Q
  cases hreply : (h c s).1 with
  | ok v => exact hok v hreply
  | error e => exact herror e hreply

theorem yields_issue {c : C} {Q : Except ε (V c) → σ → Prop} (hQ : Q (h c s).1 (h c s).2) :
    (issue c).Yields h s Q := by
  change (Prog.ofExcept (h c s).1).Yields h (h c s).2 Q
  cases hreply : (h c s).1 with
  | ok v =>
    rw [hreply] at hQ
    exact hQ
  | error e =>
    rw [hreply] at hQ
    exact hQ

theorem yields_attempt_bind {p : Prog C (fun c => Except ε (V c)) ε α}
    {f : Except ε α → Prog C (fun c => Except ε (V c)) ε β} {P : Except ε α → σ → Prop} (hp : p.Yields h s P)
    (hf : ∀ o s', P o s' → (f o).Yields h s' Q) : (p.attempt >>= f).Yields h s Q := by
  unfold Prog.Yields Prog.attempt at *
  rw [Prog.eval_bind, Prog.eval_tryCatch, Prog.eval_map]
  cases hrun : p.eval h s with
  | mk o s' =>
    rw [hrun] at hp
    cases o with
    | ok a => exact hf _ s' hp
    | error e => exact hf _ s' hp

end Yields

theorem eval_issue {h : (c : C) → σ → Except ε (V c) × σ} {c : C} {s s' : σ} {v : V c}
    (hreply : h c s = (.ok v, s')) : (issue c).eval h s = (.ok v, s') := by
  change (Prog.ofExcept (h c s).1).eval h (h c s).2 = _
  rw [hreply]
  rfl

/-- A command that replies, and the rest of the program. -/
theorem eval_issue_bind {h : (c : C) → σ → Except ε (V c) × σ} {c : C}
    {f : V c → Prog C (fun c => Except ε (V c)) ε β} {s s' : σ} {v : V c} (hreply : h c s = (.ok v, s')) :
    (issue c >>= f).eval h s = (f v).eval h s' := by
  rw [Prog.eval_bind, eval_issue hreply]

/-- A sequence that returns: its first command has replied. -/
theorem eval_issue_bind_ok {h : (c : C) → σ → Except ε (V c) × σ} {c : C}
    {f : V c → Prog C (fun c => Except ε (V c)) ε β} {s s' : σ} {b : β}
    (hrun : (issue c >>= f).eval h s = (.ok b, s')) :
    ∃ v, (h c s).1 = .ok v ∧ (f v).eval h (h c s).2 = (.ok b, s') := by
  change ((Prog.ofExcept (h c s).1 >>= f).eval h (h c s).2) = _ at hrun
  cases hreply : (h c s).1 with
  | ok v =>
    rw [hreply] at hrun
    exact ⟨v, rfl, hrun⟩
  | error e =>
    rw [hreply] at hrun
    cases hrun

/-! ## The commands of a program -/

/-- The program stays within `S`: every command that it can issue meets `S`, and its result
meets `A`. -/
def Prog.Within {R : C → Type} (S : C → Prop) (A : α → Prop) : Prog C R ε α → Prop
  | .ret a => A a
  | .fail _ => True
  | .call c k => S c ∧ ∀ r, (k r).Within S A

section Within

variable {S : C → Prop} {A : α → Prop} {B : β → Prop}

theorem within_ret {R : C → Type} {a : α} (ha : A a) : (pure a : Prog C R ε α).Within S A := ha

theorem within_throw {R : C → Type} (e : ε) : (throw e : Prog C R ε α).Within S A := trivial

theorem Prog.Within.mono {R : C → Type} {S' : C → Prop} {A' : α → Prop} {p : Prog C R ε α} (hp : p.Within S A)
    (hS : ∀ c, S c → S' c) (hA : ∀ a, A a → A' a) : p.Within S' A' := by
  induction p with
  | ret a => exact hA a hp
  | fail e => trivial
  | call c k ih => exact ⟨hS c hp.1, fun r => ih r (hp.2 r)⟩

theorem within_bind {R : C → Type} {p : Prog C R ε α} {f : α → Prog C R ε β} (hp : p.Within S A)
    (hf : ∀ a, A a → (f a).Within S B) : (p >>= f).Within S B := by
  induction p with
  | ret a => exact hf a hp
  | fail e => trivial
  | call c k ih => exact ⟨hp.1, fun r => ih r (hp.2 r)⟩

theorem within_issue {c : C} (hc : S c) :
    (issue c : Prog C (fun c => Except ε (V c)) ε (V c)).Within S fun _ => True := by
  refine ⟨hc, fun r => ?_⟩
  cases r with
  | ok v => trivial
  | error e => trivial

theorem within_issue_bind {c : C} {f : V c → Prog C (fun c => Except ε (V c)) ε β} (hc : S c)
    (hf : ∀ v, (f v).Within S B) : (issue c >>= f).Within S B :=
  within_bind (within_issue hc) fun v _ => hf v

/-- **A program within `S`, alone**: what each command of `S` preserves relates its first state to
its last. -/
theorem Prog.Within.yields {R : C → Type} {h : (c : C) → σ → R c × σ} {T : σ → σ → Prop} {p : Prog C R ε α} {s : σ}
    (hp : p.Within S A) (hrefl : ∀ s, T s s) (htrans : ∀ s₁ s₂ s₃, T s₁ s₂ → T s₂ s₃ → T s₁ s₃)
    (hstep : ∀ c s, S c → T s (h c s).2) : p.Yields h s fun o s' => T s s' ∧ ∀ a, o = .ok a → A a := by
  induction p generalizing s with
  | ret a =>
    refine ⟨hrefl s, fun b hb => ?_⟩
    cases hb
    exact hp
  | fail e => exact ⟨hrefl s, fun b hb => by cases hb⟩
  | call c k ih =>
    obtain ⟨htail, hresult⟩ := ih _ (hp.2 _) (s := (h c s).2)
    exact ⟨htrans _ _ _ (hstep c s hp.1) htail, hresult⟩

end Within

section Programs

variable {h : (c : C) → σ → Except ε (V c) × σ}
  {rule : C → List (FallibleEvent V ε ι σ) → Prop} {i : ι}
  {Q : β → List (FallibleEvent V ε ι σ) → Prop} {E : ε → List (FallibleEvent V ε ι σ) → Prop}
  {past : List (FallibleEvent V ε ι σ)}

/-- The program keeps a rule: each of its commands meets the rule next to its own past. -/
def Prog.Keeps (h : (c : C) → σ → Except ε (V c) × σ)
    (rule : C → List (FallibleEvent V ε ι σ) → Prop) (i : ι)
    (Q : α → List (FallibleEvent V ε ι σ) → Prop) (E : ε → List (FallibleEvent V ε ι σ) → Prop)
    (p : Prog C (fun c => Except ε (V c)) ε α) (past : List (FallibleEvent V ε ι σ)) : Prop :=
  p.ObeysExcept h (fun e past => rule e.command past) i Q E past

theorem Prog.Keeps.mono {Q Q' : α → List (FallibleEvent V ε ι σ) → Prop}
    {p : Prog C (fun c => Except ε (V c)) ε α} (hp : p.Keeps h rule i Q E past)
    (hQ : ∀ a past, Q a past → Q' a past) : p.Keeps h rule i Q' E past :=
  Prog.ObeysExcept.mono hp hQ fun _ _ h => h

/-- The commands before the program stay where they are. -/
theorem Prog.Keeps.suffix {Q : α → List (FallibleEvent V ε ι σ) → Prop}
    {p : Prog C (fun c => Except ε (V c)) ε α} (hp : p.Keeps h rule i Q E past) :
    p.Keeps h rule i (fun a past' => Q a past' ∧ past <:+ past') E past := Prog.ObeysExcept.suffix hp

theorem keeps_ret {Q : α → List (FallibleEvent V ε ι σ) → Prop} {a : α} (hQ : Q a past) :
    (pure a : Prog C (fun c => Except ε (V c)) ε α).Keeps h rule i Q E past := hQ

theorem keeps_throw {e : ε} (hE : E e past) :
    (throw e : Prog C (fun c => Except ε (V c)) ε β).Keeps h rule i Q E past := hE

theorem keeps_bind {p : Prog C (fun c => Except ε (V c)) ε α}
    {f : α → Prog C (fun c => Except ε (V c)) ε β}
    (hp : p.Keeps h rule i (fun a past => (f a).Keeps h rule i Q E past) E past) :
    (p >>= f).Keeps h rule i Q E past := Prog.obeysExcept_bind hp

theorem keeps_tryCatch {p : Prog C (fun c => Except ε (V c)) ε β}
    {f : ε → Prog C (fun c => Except ε (V c)) ε β}
    (hp : p.Keeps h rule i Q (fun e past => (f e).Keeps h rule i Q E past) past) :
    (tryCatch p f).Keeps h rule i Q E past := Prog.obeysExcept_tryCatch hp

theorem keeps_issue {c : C} {Q : V c → List (FallibleEvent V ε ι σ) → Prop} (hrule : rule c past)
    (hok : ∀ s v, Q v (⟨i, s, c, .ok v⟩ :: past)) (herror : ∀ s e, E e (⟨i, s, c, .error e⟩ :: past)) :
    (issue c).Keeps h rule i Q E past := by
  refine fun s => ⟨hrule, ?_⟩
  cases (h c s).1 with
  | ok v => exact hok s v
  | error e => exact herror s e

/-- A command that always replies its value, and the rest of the program. -/
theorem keeps_reply_bind {c : C} {f : V c → Prog C (fun c => Except ε (V c)) ε β} {value : σ → V c}
    (hvalue : ∀ s, (h c s).1 = .ok (value s)) (hrule : rule c past)
    (hok : ∀ s, (f (value s)).Keeps h rule i Q E (⟨i, s, c, .ok (value s)⟩ :: past)) :
    (issue c >>= f).Keeps h rule i Q E past := by
  refine keeps_bind fun s => ⟨hrule, ?_⟩
  rw [hvalue s]
  exact hok s

theorem keeps_issue_bind {c : C} {f : V c → Prog C (fun c => Except ε (V c)) ε β} (hrule : rule c past)
    (hok : ∀ s v, (f v).Keeps h rule i Q E (⟨i, s, c, .ok v⟩ :: past))
    (herror : ∀ s e, E e (⟨i, s, c, .error e⟩ :: past)) :
    (issue c >>= f).Keeps h rule i Q E past :=
  keeps_bind (keeps_issue hrule hok herror)

theorem keeps_map {p : Prog C (fun c => Except ε (V c)) ε α} {f : α → β}
    (hp : p.Keeps h rule i (fun a past => Q (f a) past) E past) : (f <$> p).Keeps h rule i Q E past := by
  rw [map_eq_pure_bind]
  exact keeps_bind hp

theorem keeps_attempt {p : Prog C (fun c => Except ε (V c)) ε α}
    {Q : Except ε α → List (FallibleEvent V ε ι σ) → Prop}
    (hp : p.Keeps h rule i (fun a past => Q (.ok a) past) (fun e past => Q (.error e) past) past) :
    p.attempt.Keeps h rule i Q E past :=
  keeps_tryCatch (keeps_map hp)

/-- **A program within `S`, among others**: its commands meet a rule that the commands of `S`
meet. -/
theorem Prog.Within.keeps {S : C → Prop} {A : α → Prop} {T : List (FallibleEvent V ε ι σ) → Prop}
    {p : Prog C (fun c => Except ε (V c)) ε α} (hp : p.Within S A) (hT : T past)
    (hrule : ∀ c past, S c → T past → rule c past)
    (hstep : ∀ (e : FallibleEvent V ε ι σ) past, S e.command → T past → T (e :: past)) :
    p.Keeps h rule i (fun a past => A a ∧ T past) (fun _ _ => True) past := by
  induction p generalizing past with
  | ret a => exact ⟨hp, hT⟩
  | fail e => trivial
  | call c k ih => exact fun s => ⟨hrule c past hp.1 hT, ih _ (hp.2 _) (hstep _ past hp.1 hT)⟩

/-- A program that keeps a rule obeys the rule of its own thread. -/
theorem Prog.Keeps.obeys {rules : ι → C → List (FallibleEvent V ε ι σ) → Prop}
    {Q : α → List (FallibleEvent V ε ι σ) → Prop} {p : Prog C (fun c => Except ε (V c)) ε α}
    (hp : p.Keeps h (rules i) i Q E past) :
    p.Obeys h (fun e past => rules e.thread e.command past) i Q past := by
  induction p generalizing past with
  | ret a => exact hp
  | fail e => trivial
  | call c k ih => exact fun s => ⟨(hp s).1, ih _ (hp s).2⟩

end Programs

/-- **The executed commands of programs that keep their rules**, and what holds when a program is
done. -/
theorem chronicle_of_keeps [DecidableEq ι] {h : (c : C) → σ → Except ε (V c) × σ}
    {rules : ι → C → List (FallibleEvent V ε ι σ) → Prop}
    {Q : ι → α → List (FallibleEvent V ε ι σ) → Prop}
    {p : ι → Prog C (fun c => Except ε (V c)) ε α} {d₀ : σ}
    {P : ι → C → σ × List (FallibleEvent V ε ι σ) → Prop} {is : List ι}
    {c : Config C (fun c => Except ε (V c)) ε α ι (σ × List (FallibleEvent V ε ι σ))}
    (hp : ∀ i, (p i).Keeps h (rules i) i (Q i) (fun _ _ => True) [])
    (hr : (⟨(d₀, []), p⟩ : Config _ _ ε α ι _).run (Machine.ofHandler h).observed is = some c)
    (ha : (⟨(d₀, []), p⟩ : Config _ _ ε α ι _).Admitted (Machine.ofHandler h).observed P is) :
    Chronicle h (fun e es => rules e.thread e.command (own e.thread es) ∧
        P e.thread e.command (e.before, es)) d₀ c.shared.1 c.shared.2 ∧
      ∀ i a, c.threads i = .ret a → Q i a (own i c.shared.2) := by
  have hobeys : ∀ i, (p i).Obeys h (fun e past => rules e.thread e.command past) i (Q i) [] :=
    fun i => (hp i).obeys
  obtain ⟨hc, hall⟩ := chronicle_of_run hobeys hr ha
  refine ⟨hc, fun i a ha => ?_⟩
  have hend := hall i
  rw [ha] at hend
  exact hend

/-! ## Failing commands of one kind -/

section Failing

variable {R : C → Type} {P : C → Bool} {e : ε}

namespace Prog

/-- The program with a failing command: number `n` among those of the kind `P`. -/
def failAmong (P : C → Bool) (e : ε) : Prog C R ε α → ℕ → Prog C R ε α
  | .ret a, _ => .ret a
  | .fail x, _ => .fail x
  | .call c k, n =>
    if P c then
      match n with
      | 0 => .fail e
      | n + 1 => .call c fun r => (k r).failAmong P e n
    else .call c fun r => (k r).failAmong P e n

@[simp] theorem failAmong_pure (a : α) (n : ℕ) : (pure a : Prog C R ε α).failAmong P e n = pure a := rfl

@[simp] theorem failAmong_throw (x : ε) (n : ℕ) : (throw x : Prog C R ε α).failAmong P e n = throw x := rfl

theorem failAmong_call_of_not {c : C} (hc : P c = false) (k : R c → Prog C R ε α) (n : ℕ) :
    (Prog.call c k).failAmong P e n = .call c fun r => (k r).failAmong P e n := by
  cases n <;> simp only [failAmong, hc, Bool.false_eq_true, if_false]

theorem failAmong_call_zero {c : C} (hc : P c = true) (k : R c → Prog C R ε α) :
    (Prog.call c k).failAmong P e 0 = .fail e := by
  rw [failAmong, if_pos hc]

theorem failAmong_call_succ {c : C} (hc : P c = true) (k : R c → Prog C R ε α) (n : ℕ) :
    (Prog.call c k).failAmong P e (n + 1) = .call c fun r => (k r).failAmong P e n := by
  rw [failAmong, if_pos hc]

/-- **The part before the first command of the kind** runs as before. -/
theorem failAmong_bind {A : α → Prop} {p : Prog C R ε α} (hp : p.Within (fun c => P c = false) A)
    (f : α → Prog C R ε β) (n : ℕ) : (p >>= f).failAmong P e n = p >>= fun a => (f a).failAmong P e n := by
  induction p with
  | ret a => rfl
  | fail x => rfl
  | call c k ih =>
    rw [call_bind, failAmong_call_of_not hp.1, call_bind]
    congr 1
    funext r
    exact ih r (hp.2 r)

theorem failAmong_map (f : α → β) (p : Prog C R ε α) (n : ℕ) :
    (f <$> p).failAmong P e n = f <$> p.failAmong P e n := by
  induction p generalizing n with
  | ret a => rfl
  | fail x => rfl
  | call c k ih =>
    rw [map_eq_pure_bind, call_bind, map_eq_pure_bind]
    cases hc : P c with
    | false =>
      rw [failAmong_call_of_not hc, failAmong_call_of_not hc, call_bind]
      congr 1
      funext r
      rw [← map_eq_pure_bind, ← map_eq_pure_bind]
      exact ih r n
    | true =>
      cases n with
      | zero => rw [failAmong_call_zero hc, failAmong_call_zero hc, fail_bind]
      | succ n =>
        rw [failAmong_call_succ hc, failAmong_call_succ hc, call_bind]
        congr 1
        funext r
        rw [← map_eq_pure_bind, ← map_eq_pure_bind]
        exact ih r n

section Eval

variable {h : (c : C) → σ → R c × σ} {s : σ} {c : C}

/-- **The first command of the kind fails.** -/
theorem eval_failAmong_zero (hc : P c = true) (f : R c → Prog C R ε α) :
    ((perform c >>= f).failAmong P e 0).eval h s = (.error e, s) := by
  rw [perform_bind, failAmong_call_zero hc]
  rfl

/-- **The first command of the kind goes through.** -/
theorem eval_failAmong_succ (hc : P c = true) (f : R c → Prog C R ε α) (n : ℕ) :
    ((perform c >>= f).failAmong P e (n + 1)).eval h s = ((f (h c s).1).failAmong P e n).eval h (h c s).2 := by
  rw [perform_bind, failAmong_call_succ hc]
  rfl

theorem eval_failAmong_of_not (hc : P c = false) (f : R c → Prog C R ε α) (n : ℕ) :
    ((perform c >>= f).failAmong P e n).eval h s = ((f (h c s).1).failAmong P e n).eval h (h c s).2 := by
  rw [perform_bind, failAmong_call_of_not hc]
  rfl

end Eval

end Prog

end Failing

end Concurrency
