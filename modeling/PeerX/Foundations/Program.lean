import Mathlib.Data.List.Basic
import Mathlib.Data.Set.Basic

/-!
# Programs over commands

A program issues commands one at a time and continues from their replies; it ends with a result or
with an exception. The same program is run in two ways: alone, by a handler that answers each
command from a state (`eval`, and `atomically`, which discards the writes of a failed program), or
one command at a time between the commands of other programs (`Foundations.Interleaving`).

## Main definitions

* `Prog C R ε α`: programs with commands `C`, replies `R`, exceptions `ε` and results `α`
* `Prog.eval h p s`: the run of `p` alone, each command answered by `h`
* `Prog.atomically h p s`: the same run, with the state restored when `p` fails
* `Prog.failAt e n p`: the program whose command number `n` fails
* `Prog.embed f reply e p`: the program with its commands named by `f`
* `Prog.Only S p`: every command the program can issue meets `S`
* `Contract`, `Prog.Informed T A p known`: what may be issued with some knowledge, and a program
  that keeps to it

## Main results

* `Prog.eval_bind`, `Prog.eval_bind_ok`: the run of a sequence
* `Prog.atomically_cases`: a program run atomically succeeds, or leaves the state alone
* `Prog.only_bind`, `Prog.only_embed`: what a sequence and an embedded program can issue
* `Prog.Informed.mono`, `Prog.informed_bind`: more knowledge, and a sequence
-/

namespace Concurrency

/-- Programs: a result, an exception, or a command with the rest of the program for each of its
replies. -/
inductive Prog (C : Type) (R : C → Type) (ε α : Type) : Type
  | ret (a : α)
  | fail (e : ε)
  | call (c : C) (k : R c → Prog C R ε α)

namespace Prog

variable {C : Type} {R : C → Type} {ε α β σ : Type}

/-- Sequencing: the rest runs on the result, and an exception skips it. -/
def bind : Prog C R ε α → (α → Prog C R ε β) → Prog C R ε β
  | .ret a, f => f a
  | .fail e, _ => .fail e
  | .call c k, f => .call c fun r => (k r).bind f

/-- Exception handling. The commands issued before the exception stay issued. -/
def handle : Prog C R ε α → (ε → Prog C R ε α) → Prog C R ε α
  | .ret a, _ => .ret a
  | .fail e, f => f e
  | .call c k, f => .call c fun r => (k r).handle f

instance : Monad (Prog C R ε) where
  pure := .ret
  bind := bind

instance : MonadExceptOf ε (Prog C R ε) where
  throw := .fail
  tryCatch := handle

/-- One command, answered by its reply. -/
def perform (c : C) : Prog C R ε (R c) := .call c .ret

@[simp] theorem ret_bind (a : α) (f : α → Prog C R ε β) : (Prog.ret a >>= f) = f a := rfl

@[simp] theorem fail_bind (e : ε) (f : α → Prog C R ε β) : (Prog.fail e >>= f) = .fail e := rfl

@[simp] theorem throw_bind (e : ε) (f : α → Prog C R ε β) :
    ((throw e : Prog C R ε α) >>= f) = throw e := rfl

@[simp] theorem call_bind (c : C) (k : R c → Prog C R ε α) (f : α → Prog C R ε β) :
    (Prog.call c k >>= f) = .call c fun r => k r >>= f := rfl

@[simp] theorem perform_bind (c : C) (f : R c → Prog C R ε β) :
    ((perform c : Prog C R ε (R c)) >>= f) = .call c f := rfl

theorem bind_assoc' {γ : Type} (p : Prog C R ε α) (f : α → Prog C R ε β) (g : β → Prog C R ε γ) :
    (p >>= f) >>= g = p >>= fun a => f a >>= g := by
  induction p with
  | ret a => rfl
  | fail e => rfl
  | call c k ih =>
    simp only [call_bind]
    congr 1
    funext r
    exact ih r

theorem bind_ret (p : Prog C R ε α) : p >>= Prog.ret = p := by
  induction p with
  | ret a => rfl
  | fail e => rfl
  | call c k ih =>
    simp only [call_bind]
    congr 1
    funext r
    exact ih r

instance : LawfulMonad (Prog C R ε) :=
  LawfulMonad.mk' _ bind_ret (fun _ _ => rfl) bind_assoc'

/-- The program with a failure: its command number `n` throws `e` instead, and so does its end
when it comes first. -/
def failAt (e : ε) : ℕ → Prog C R ε α → Prog C R ε α
  | 0, _ => .fail e
  | _ + 1, .ret a => .ret a
  | _ + 1, .fail x => .fail x
  | n + 1, .call c k => .call c fun r => (k r).failAt e n

/-- The program has ended with a result. -/
def returned : Prog C R ε α → Bool
  | .ret _ => true
  | _ => false

/-- The result of the program, when it has ended with one. -/
def result : Prog C R ε α → Option α
  | .ret a => some a
  | _ => none

/-- The command the program is about to issue. -/
def next : Prog C R ε α → Option C
  | .call c _ => some c
  | _ => none

theorem result_eq_some {p : Prog C R ε α} {a : α} : p.result = some a ↔ p = .ret a := by
  cases p <;> simp [result]

theorem returned_iff {p : Prog C R ε α} : p.returned ↔ ∃ a, p = .ret a := by
  cases p <;> simp [returned]

/-- The run of a program alone: every command is answered by the handler. -/
def eval (h : (c : C) → σ → R c × σ) : Prog C R ε α → σ → Except ε α × σ
  | .ret a, s => (.ok a, s)
  | .fail e, s => (.error e, s)
  | .call c k, s => (k (h c s).1).eval h (h c s).2

section Eval

variable (h : (c : C) → σ → R c × σ)

@[simp] theorem eval_ret (a : α) (s : σ) : (Prog.ret a : Prog C R ε α).eval h s = (.ok a, s) := rfl

@[simp] theorem eval_pure (a : α) (s : σ) : (pure a : Prog C R ε α).eval h s = (.ok a, s) := rfl

@[simp] theorem eval_fail (e : ε) (s : σ) :
    (Prog.fail e : Prog C R ε α).eval h s = (.error e, s) := rfl

@[simp] theorem eval_throw (e : ε) (s : σ) :
    (throw e : Prog C R ε α).eval h s = (.error e, s) := rfl

@[simp] theorem eval_call (c : C) (k : R c → Prog C R ε α) (s : σ) :
    (Prog.call c k).eval h s = (k (h c s).1).eval h (h c s).2 := rfl

@[simp] theorem eval_perform (c : C) (s : σ) :
    (perform c : Prog C R ε (R c)).eval h s = (.ok (h c s).1, (h c s).2) := rfl

theorem eval_bind (p : Prog C R ε α) (f : α → Prog C R ε β) (s : σ) :
    (p >>= f).eval h s =
      match p.eval h s with
      | (.ok a, s') => (f a).eval h s'
      | (.error e, s') => (.error e, s') := by
  induction p generalizing s with
  | ret a => rfl
  | fail e => rfl
  | call c k ih => exact ih _ _

@[simp] theorem eval_map (f : α → β) (p : Prog C R ε α) (s : σ) :
    (f <$> p).eval h s = ((p.eval h s).1.map f, (p.eval h s).2) := by
  rw [map_eq_pure_bind, eval_bind]
  rcases p.eval h s with ⟨_ | a, s'⟩ <;> rfl

theorem eval_tryCatch (p : Prog C R ε α) (f : ε → Prog C R ε α) (s : σ) :
    (tryCatch p f).eval h s =
      match p.eval h s with
      | (.ok a, s') => (.ok a, s')
      | (.error e, s') => (f e).eval h s' := by
  induction p generalizing s with
  | ret a => rfl
  | fail e => rfl
  | call c k ih => exact ih _ _

theorem eval_bind_ok {p : Prog C R ε α} {f : α → Prog C R ε β} {s s' : σ} {b : β}
    (he : (p >>= f).eval h s = (.ok b, s')) :
    ∃ a s₁, p.eval h s = (.ok a, s₁) ∧ (f a).eval h s₁ = (.ok b, s') := by
  rw [eval_bind] at he
  split at he
  · next a s₁ hp => exact ⟨a, s₁, hp, he⟩
  · simp at he

/-- The run of a program alone, with the state restored when it fails. -/
def atomically (p : Prog C R ε α) (s : σ) : Except ε α × σ :=
  match p.eval h s with
  | (.ok a, s') => (.ok a, s')
  | (.error e, _) => (.error e, s)

/-- A program run atomically either succeeds with its final state, or leaves the state alone. -/
theorem atomically_cases (p : Prog C R ε α) (s : σ) :
    (∃ a s', p.eval h s = (.ok a, s') ∧ p.atomically h s = (.ok a, s')) ∨
      ∃ e, (p.eval h s).1 = .error e ∧ p.atomically h s = (.error e, s) := by
  unfold atomically
  rcases p.eval h s with ⟨_ | a, s'⟩
  · exact .inr ⟨_, rfl, rfl⟩
  · exact .inl ⟨a, s', rfl, rfl⟩

end Eval

variable {C' : Type} {R' : C' → Type} {ε' : Type}

/-- The program over other commands: `f` names each command, `reply` reads its reply back, and
`e` renames the exceptions. -/
def embed (f : C → C') (reply : ∀ c, R' (f c) → R c) (e : ε → ε') :
    Prog C R ε α → Prog C' R' ε' α
  | .ret a => .ret a
  | .fail x => .fail (e x)
  | .call c k => .call (f c) fun r => (k (reply c r)).embed f reply e

section Embed

variable {f : C → C'} {reply : ∀ c, R' (f c) → R c} {e : ε → ε'}

@[simp] theorem embed_ret (a : α) : (Prog.ret a : Prog C R ε α).embed f reply e = .ret a := rfl

@[simp] theorem embed_fail (x : ε) :
    (Prog.fail x : Prog C R ε α).embed f reply e = .fail (e x) := rfl

@[simp] theorem embed_call (c : C) (k : R c → Prog C R ε α) :
    (Prog.call c k).embed f reply e = .call (f c) fun r => (k (reply c r)).embed f reply e := rfl

end Embed

/-- Every command the program can issue meets `S`, whatever the replies. -/
def Only (S : C → Prop) : Prog C R ε α → Prop
  | .ret _ => True
  | .fail _ => True
  | .call c k => S c ∧ ∀ r, (k r).Only S

variable {S : C → Prop}

@[simp] theorem only_ret (a : α) : (Prog.ret a : Prog C R ε α).Only S := trivial

@[simp] theorem only_fail (x : ε) : (Prog.fail x : Prog C R ε α).Only S := trivial

theorem only_bind {p : Prog C R ε α} {g : α → Prog C R ε β} (hp : p.Only S)
    (hg : ∀ a, (g a).Only S) : (p >>= g).Only S := by
  induction p with
  | ret a => exact hg a
  | fail x => trivial
  | call c k ih => exact ⟨hp.1, fun r => ih r (hp.2 r)⟩

theorem only_embed {f : C → C'} {reply : ∀ c, R' (f c) → R c} {e : ε → ε'} {S' : C' → Prop}
    {p : Prog C R ε α} (hp : p.Only S) (hS : ∀ c, S c → S' (f c)) :
    (p.embed f reply e).Only S' := by
  induction p with
  | ret a => trivial
  | fail x => trivial
  | call c k ih => exact ⟨hS c hp.1, fun r => ih _ (hp.2 _)⟩

end Prog

variable {C : Type} {R : C → Type} {ε α β X : Type}

/-- A contract: what may be issued with some knowledge, which replies are possible, and what
they tell. -/
structure Contract (C : Type) (R : C → Type) (X : Type) where
  issues : C → Set X → Prop
  possible : (c : C) → R c → Prop
  told : (c : C) → R c → Set X
  issues_mono : ∀ c known known', known ⊆ known' → issues c known → issues c known'

namespace Prog

/-- The program keeps to the contract, and what it knows at its end meets `A`. -/
def Informed (T : Contract C R X) (A : α → Set X → Prop) : Prog C R ε α → Set X → Prop
  | .ret a, known => A a known
  | .fail _, _ => True
  | .call c k, known => T.issues c known ∧ ∀ r, T.possible c r → (k r).Informed T A (known ∪ T.told c r)

variable {T : Contract C R X} {A : α → Set X → Prop} {B : β → Set X → Prop} {known known' : Set X}

/-- **A program that knows more** still keeps to it. -/
theorem Informed.mono {p : Prog C R ε α} (hA : ∀ a known known', known ⊆ known' → A a known → A a known')
    (h : p.Informed T A known) (hknown : known ⊆ known') : p.Informed T A known' := by
  induction p generalizing known known' with
  | ret a => exact hA a known known' hknown h
  | fail e => trivial
  | call c k ih =>
    refine ⟨T.issues_mono c known known' hknown h.1, fun r hr => ?_⟩
    exact ih r (h.2 r hr) (Set.union_subset_union_left _ hknown)

/-- **A sequence** goes on with what was learned. -/
theorem informed_bind {p : Prog C R ε α} {f : α → Prog C R ε β}
    (h : p.Informed T (fun a known => (f a).Informed T B known) known) : (p >>= f).Informed T B known := by
  induction p generalizing known with
  | ret a => exact h
  | fail e => trivial
  | call c k ih => exact ⟨h.1, fun r hr => ih r (h.2 r hr)⟩

end Prog

end Concurrency
