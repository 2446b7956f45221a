import PeerX.Foundations.Program

/-!
# Batches of programs

One program for each item of a list, run in two ways: one after the other in a single transaction,
which the first failure ends, or each in a transaction of its own, so that a failure costs its item
alone.
-/

namespace Concurrency

namespace Prog

variable {C : Type} {R : C → Type} {ε α β ι σ : Type}

/-- The programs of the items as one: the item at `i` is the first. -/
def inTurn (p : ℕ → ι → Prog C R ε α) : ℕ → List ι → Prog C R ε (List α)
  | _, [] => return []
  | i, x :: xs => do
    let a ← p i x
    let as ← inTurn p (i + 1) xs
    return a :: as

section Batch

variable (h : (c : C) → σ → R c × σ)

/-- The programs of the items, each run atomically. -/
def eachAlone (p : ℕ → ι → Prog C R ε α) : ℕ → List ι → σ → List (Except ε α) × σ
  | _, [], s => ([], s)
  | i, x :: xs, s =>
    let first := (p i x).atomically h s
    let rest := eachAlone p (i + 1) xs first.2
    (first.1 :: rest.1, rest.2)

/-- From related states, the two programs of an item both fail, or both succeed and lead to related
states. -/
def InStep (p : ℕ → ι → Prog C R ε α) (q : ℕ → ι → Prog C R ε β) (S : ℕ → σ → σ → Prop) : Prop :=
  ∀ i x s t, S i s t →
    (∃ a b s' t', (p i x).eval h s = (.ok a, s') ∧ (q i x).eval h t = (.ok b, t') ∧ S (i + 1) s' t') ∨
      ∃ e e', ((p i x).eval h s).1 = .error e ∧ ((q i x).eval h t).1 = .error e'

variable {h} {p : ℕ → ι → Prog C R ε α} {q : ℕ → ι → Prog C R ε β}

@[simp] theorem eachAlone_nil (i : ℕ) (s : σ) : eachAlone h p i [] s = ([], s) := rfl

theorem eachAlone_cons (i : ℕ) (x : ι) (xs : List ι) (s : σ) :
    eachAlone h p i (x :: xs) s =
      (((p i x).atomically h s).1 :: (eachAlone h p (i + 1) xs ((p i x).atomically h s).2).1,
        (eachAlone h p (i + 1) xs ((p i x).atomically h s).2).2) :=
  rfl

theorem length_eachAlone (i : ℕ) (xs : List ι) (s : σ) :
    (eachAlone h p i xs s).1.length = xs.length := by
  induction xs generalizing i s with
  | nil => rfl
  | cons x xs ih => simp [eachAlone_cons, ih]

/-- What is known of the result of each item is known of the results of the batch. -/
theorem map_inTurn {γ : Type} {f : α → γ} {g : ℕ → ι → γ}
    (hf : ∀ i x s a s', (p i x).eval h s = (.ok a, s') → f a = g i x) {i : ℕ} {xs : List ι} {s s' : σ}
    {as : List α} (he : (inTurn p i xs).eval h s = (.ok as, s')) :
    as.map f = (xs.zipIdx i).map fun x => g x.2 x.1 := by
  induction xs generalizing i s s' as with
  | nil =>
    obtain ⟨rfl, -⟩ : as = [] ∧ _ := by simpa [inTurn, eq_comm] using he
    rfl
  | cons x xs ih =>
    obtain ⟨a, s₁, hfirst, hrest⟩ := eval_bind_ok h he
    obtain ⟨as', s₂, htail, hlast⟩ := eval_bind_ok h hrest
    obtain ⟨rfl, -⟩ : as = a :: as' ∧ _ := by simpa [eq_comm] using hlast
    simp [ih htail, hf i x s a s₁ hfirst]

/-- A batch in one transaction and a batch of transactions. When the programs of every item keep
step, either all of them succeed in both and the last states are related, or one of them fails in
both. -/
theorem inTurn_of_eachAlone {S : ℕ → σ → σ → Prop} (hstep : InStep h p q S) {i : ℕ} (xs : List ι) {s t : σ}
    (hst : S i s t) :
    ((∃ as : List α, (eachAlone h p i xs s).1 = as.map .ok) ∧ ∃ bs t', (inTurn q i xs).eval h t = (.ok bs, t') ∧
        S (i + xs.length) (eachAlone h p i xs s).2 t') ∨
      ((∃ e, .error e ∈ (eachAlone h p i xs s).1) ∧ ∃ e, ((inTurn q i xs).eval h t).1 = .error e) := by
  induction xs generalizing i s t with
  | nil => exact .inl ⟨⟨[], rfl⟩, [], t, rfl, hst⟩
  | cons x xs ih =>
    rcases hstep i x s t hst with ⟨a, b, s', t', hp, hq, hst'⟩ | ⟨e, e', hp, hq⟩
    · -- both first programs succeed: the outcome is that of the others
      have hfirst : (p i x).atomically h s = (.ok a, s') := by simp [atomically, hp]
      have hturn : (inTurn q i (x :: xs)).eval h t =
          ((b :: ·) <$> inTurn q (i + 1) xs).eval h t' := by
        simp only [inTurn, eval_bind, hq, eval_map]
        rcases (inTurn q (i + 1) xs).eval h t' with ⟨_ | bs, t''⟩ <;> rfl
      rcases ih hst' with ⟨⟨as, has⟩, bs, t'', hbs, hlast⟩ | ⟨⟨e, he⟩, e', he'⟩
      · left
        refine ⟨⟨a :: as, by simp [eachAlone_cons, hfirst, has]⟩, b :: bs, t'', ?_, ?_⟩
        · rw [hturn, eval_map, hbs]
          rfl
        · rw [List.length_cons, Nat.add_comm xs.length, ← Nat.add_assoc, eachAlone_cons, hfirst]
          exact hlast
      · right
        refine ⟨⟨e, by simp [eachAlone_cons, hfirst, he]⟩, e', ?_⟩
        rw [hturn, eval_map, he']
        rfl
    · -- both fail: the failure is in the list of the one, and ends the other
      right
      constructor
      · refine ⟨e, ?_⟩
        rcases atomically_cases h (p i x) s with ⟨a, s', hok, -⟩ | ⟨e₁, herr, hatom⟩
        · simp [hok] at hp
        · obtain rfl : e₁ = e := by simpa [hp] using herr.symm
          simp [eachAlone_cons, hatom]
      · refine ⟨e', ?_⟩
        simp only [inTurn, eval_bind]
        rcases hqe : (q i x).eval h t with ⟨_ | b, t'⟩
        · simpa [hqe] using hq
        · rw [hqe] at hq
          cases hq

end Batch

end Prog

end Concurrency
