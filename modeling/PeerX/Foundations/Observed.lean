import PeerX.Foundations.Interleaving
import Mathlib.Algebra.BigOperators.Group.List.Basic
import Mathlib.Algebra.Group.Submonoid.Basic

/-!
# Observed machines

What a run does is a fact about the commands it executed. An observed machine keeps them, the newest
first, each with the state it was executed in and its reply; it runs as the machine does. A faulty
machine lets some commands fail: a list of faults says which of them do.
-/

namespace Concurrency

variable {C : Type} {R : C → Type} {ε α ι σ : Type}

/-- An executed command, with the state before it and its reply. -/
structure Executed (C : Type) (R : C → Type) (ι σ : Type) where
  thread : ι
  before : σ
  command : C
  reply : R command

/-- The machine that keeps the executed commands, the newest first. -/
def Machine.observed (M : Machine C R ι σ) : Machine C R ι (σ × List (Executed C R ι σ)) where
  exec i c s := (M.exec i c s.1).map fun o => (o.1, (o.2, ⟨i, s.1, c, o.1⟩ :: s.2))

variable {M : Machine C R ι σ} {i j : ι}

theorem Machine.observed_exec {c : C} {r : R c} {s s' : σ × List (Executed C R ι σ)}
    (h : M.observed.exec i c s = some (r, s')) :
    M.exec i c s.1 = some (r, s'.1) ∧ s'.2 = ⟨i, s.1, c, r⟩ :: s.2 := by
  obtain ⟨⟨r', t⟩, he, ho⟩ := Option.map_eq_some_iff.mp h
  obtain ⟨rfl, rfl⟩ := Prod.mk.inj ho
  exact ⟨he, rfl⟩

/-- The run of the machine itself. -/
theorem Machine.run_of_observed {is : List ι} [DecidableEq ι]
    {c c' : Config C R ε α ι (σ × List (Executed C R ι σ))} (h : c.run M.observed is = some c') :
    (⟨c.shared.1, c.threads⟩ : Config C R ε α ι σ).run M is = some ⟨c'.shared.1, c'.threads⟩ := by
  induction is generalizing c with
  | nil => exact congrArg _ (congrArg (fun c : Config C R ε α ι _ => Config.mk c.shared.1 c.threads) (Option.some.inj h))
  | cons i is ih =>
    obtain ⟨c₁, hstep, hrest⟩ := Config.run_cons_eq_some.mp h
    obtain ⟨cmd, k, r, s, hthread, hexec, rfl⟩ := Config.step_eq_some.mp hstep
    exact Config.run_cons_eq_some.mpr
      ⟨_, Config.step_eq_some.mpr ⟨cmd, k, r, s.1, hthread, (Machine.observed_exec hexec).1, rfl⟩, ih hrest⟩

/-- The machine with faults: the commands with a reply in `fault` fail with it when the next
fault is `true`. The faults are used up by these commands, and none is left at the end of the
list. -/
def Machine.faulty (M : Machine C R ι σ) (fault : (c : C) → Option (R c)) :
    Machine C R ι (σ × List Bool) where
  exec i c s :=
    match fault c, s.2 with
    | some r, true :: bs => some (r, (s.1, bs))
    | some _, _ => (M.exec i c s.1).map fun o => (o.1, (o.2, s.2.tail))
    | none, _ => (M.exec i c s.1).map fun o => (o.1, (o.2, s.2))

/-- The next command that can fail does. -/
def Fails (s : σ × List Bool) : Prop := s.2.head? = some true

instance (s : σ × List Bool) : Decidable (Fails s) := inferInstanceAs (Decidable (_ = _))

/-- A command fails, or does what it does without faults. -/
theorem Machine.faulty_exec {fault : (c : C) → Option (R c)} {c : C} {r : R c}
    {s s' : σ × List Bool} (h : (M.faulty fault).exec i c s = some (r, s')) :
    (fault c = some r ∧ Fails s ∧ s'.1 = s.1) ∨
      (fault c = none ∨ ¬ Fails s) ∧ M.exec i c s.1 = some (r, s'.1) := by
  obtain ⟨t, bs⟩ := s
  simp only [Machine.faulty] at h
  split at h
  · next hf =>
    obtain ⟨rfl, rfl⟩ := Prod.mk.inj (Option.some.inj h)
    exact .inl ⟨hf, rfl, rfl⟩
  · next hnot =>
    obtain ⟨⟨r', t'⟩, he, ho⟩ := Option.map_eq_some_iff.mp h
    obtain ⟨rfl, rfl⟩ := Prod.mk.inj ho
    refine .inr ⟨.inr fun hfails => ?_, he⟩
    obtain ⟨bs', hbs⟩ := List.head?_eq_some_iff.mp hfails
    exact hnot bs' hbs
  · next hf =>
    obtain ⟨⟨r', t'⟩, he, ho⟩ := Option.map_eq_some_iff.mp h
    obtain ⟨rfl, rfl⟩ := Prod.mk.inj ho
    exact .inr ⟨.inl hf, he⟩

section Own

variable [DecidableEq ι] {es es' : List (Executed C R ι σ)}

/-- The events of a thread. -/
def own (i : ι) (es : List (Executed C R ι σ)) : List (Executed C R ι σ) := es.filter (·.thread = i)

theorem mem_own {e : Executed C R ι σ} : e ∈ own i es ↔ e ∈ es ∧ e.thread = i := by
  simp [own]

@[simp] theorem own_cons_self (s : σ) (c : C) (r : R c) :
    own i (⟨i, s, c, r⟩ :: es) = ⟨i, s, c, r⟩ :: own i es := by
  simp [own]

/-- An event of a thread is the newest one, or one of those before. -/
theorem mem_own_cons {e x : Executed C R ι σ} (h : x ∈ own i (e :: es)) : x = e ∨ x ∈ own i es := by
  obtain ⟨hmem, hthread⟩ := mem_own.mp h
  exact (List.mem_cons.mp hmem).imp_right fun hmem => mem_own.mpr ⟨hmem, hthread⟩

theorem thread_ne_of_own_nil (h : own i es = []) {e : Executed C R ι σ} (he : e ∈ es) : e.thread ≠ i := by
  intro hthread
  have hown := mem_own.mpr ⟨he, hthread⟩
  rw [h] at hown
  cases hown

/-- A sum over all events is in a submonoid when it is for each thread. -/
theorem sum_mem_of_own {A : Type} [AddCommMonoid A] (f : Executed C R ι σ → A) (S : AddSubmonoid A)
    (h : ∀ i, ((own i es).map f).sum ∈ S) : (es.map f).sum ∈ S := by
  induction hn : es.length using Nat.strongRecOn generalizing es with
  | _ n ih =>
    cases es with
    | nil => exact S.zero_mem
    | cons e es =>
      -- the events of the first thread, and the rest
      have hsplit := List.filter_append_perm (fun e' => decide (e'.thread = e.thread)) (e :: es)
      rw [← (hsplit.map f).sum_eq, List.map_append, List.sum_append]
      refine S.add_mem (h e.thread) (ih _ ?_ (fun j => ?_) rfl)
      · rw [← hn]
        simpa using Nat.lt_succ_of_le (List.length_filter_le _ es)
      · by_cases hj : j = e.thread
        · subst hj
          have hnil : own e.thread ((e :: es).filter fun e' => !decide (e'.thread = e.thread)) =
              [] := by
            simp [own, List.filter_filter]
          rw [hnil]
          exact S.zero_mem
        · have hsame : own j ((e :: es).filter fun e' => !decide (e'.thread = e.thread)) =
              own j (e :: es) := by
            unfold own
            rw [List.filter_filter]
            refine List.filter_congr fun x _ => ?_
            by_cases hx : x.thread = j <;> simp [hx, hj]
          rw [hsame]
          exact h j

/-- A sum over all events is zero when it is zero for each thread. -/
theorem sum_eq_zero_of_own {A : Type} [AddCommMonoid A] (f : Executed C R ι σ → A)
    (h : ∀ i, ((own i es).map f).sum = 0) : (es.map f).sum = 0 :=
  AddSubmonoid.mem_bot.mp (sum_mem_of_own f ⊥ fun i => AddSubmonoid.mem_bot.mpr (h i))

end Own

/-- A list that is split at two events: one of them is older than the other. -/
theorem split_split {α : Type} {l₁ l₂ r₁ r₂ : List α} {a b : α} (h : l₁ ++ a :: r₁ = l₂ ++ b :: r₂)
    (hab : a ≠ b) : (∃ mid, r₂ = mid ++ a :: r₁) ∨ ∃ mid, r₁ = mid ++ b :: r₂ := by
  rcases List.append_eq_append_iff.mp h with ⟨mid, -, hr⟩ | ⟨mid, -, hr⟩
  · cases mid with
    | nil => exact absurd (List.cons.inj hr).1 hab
    | cons x mid => exact .inr ⟨mid, (List.cons.inj hr).2⟩
  · cases mid with
    | nil => exact absurd (List.cons.inj hr).1.symm hab
    | cons x mid => exact .inl ⟨mid, (List.cons.inj hr).2⟩

/-- The events after the last one that meets `q`. -/
def since (q : Executed C R ι σ → Bool) (es : List (Executed C R ι σ)) : List (Executed C R ι σ) :=
  es.takeWhile fun e => !q e

theorem since_append {q : Executed C R ι σ → Bool} {new es : List (Executed C R ι σ)}
    (h : ∀ e ∈ new, q e = false) : since q (new ++ es) = new ++ since q es := by
  induction new with
  | nil => rfl
  | cons e new ih =>
    obtain ⟨he, hnew⟩ := List.forall_mem_cons.mp h
    have hrest := ih hnew
    simp only [since] at hrest
    simp [since, he, hrest]

/-- An event that is older than some new ones, and since the last event that meets `q`. -/
theorem since_split {q : Executed C R ι σ → Bool} {new es : List (Executed C R ι σ)}
    {e : Executed C R ι σ} (h : e ∈ since q (new ++ es)) (he : e ∉ new) :
    (∀ x ∈ new, q x = false) ∧ e ∈ since q es := by
  induction new with
  | nil => exact ⟨fun x hx => (by cases hx), h⟩
  | cons x new ih =>
    obtain ⟨hx, hnew⟩ := not_or.mp (mt List.mem_cons.mpr he)
    cases hq : q x with
    | true => simp [since, hq] at h
    | false =>
      simp only [since, List.cons_append, hq, Bool.not_false, List.takeWhile_cons_of_pos,
        List.mem_cons, hx, false_or] at h
      obtain ⟨hnone, hrest⟩ := ih h hnew
      exact ⟨List.forall_mem_cons.mpr ⟨hq, hnone⟩, hrest⟩

/-- What a thread relies on: the others executed commands. -/
def Grew (i : ι) (s s' : σ × List (Executed C R ι σ)) : Prop :=
  ∃ new, s'.2 = new ++ s.2 ∧ ∀ e ∈ new, e.thread ≠ i

variable {s s' s'' : σ × List (Executed C R ι σ)}

theorem Grew.refl (i : ι) (s : σ × List (Executed C R ι σ)) : Grew i s s :=
  ⟨[], rfl, fun e he => by cases he⟩

theorem Grew.trans (h : Grew i s s') (h' : Grew i s' s'') : Grew i s s'' := by
  obtain ⟨new, hs, hnew⟩ := h
  obtain ⟨new', hs', hnew'⟩ := h'
  refine ⟨new' ++ new, by rw [hs', hs, List.append_assoc], fun e he => ?_⟩
  rcases List.mem_append.mp he with he | he
  · exact hnew' e he
  · exact hnew e he

theorem Grew.own [DecidableEq ι] (h : Grew i s s') : own i s'.2 = own i s.2 := by
  obtain ⟨new, hs, hnew⟩ := h
  rw [hs]
  unfold Concurrency.own
  rw [List.filter_append, List.filter_eq_nil_iff.mpr fun e he => by simpa using hnew e he,
    List.nil_append]

/-- The protocol of an observed machine: an invariant, and a condition on the commands about to be
executed. -/
def observedProtocol (inv : σ × List (Executed C R ι σ) → Prop)
    (pre : ι → C → σ × List (Executed C R ι σ) → Prop) : Protocol C ι (σ × List (Executed C R ι σ)) where
  inv := inv
  rely := Grew
  guar := fun i s s' => ∀ j, j ≠ i → Grew j s s'
  pre := pre
  rely_refl := Grew.refl
  rely_trans := fun _ _ _ _ => Grew.trans
  guar_rely := fun _ j _ _ hne _ _ h => h j (Ne.symm hne)

/-- A command of an observed machine, when `P` admits it. -/
theorem safe_observed_call {inv : σ × List (Executed C R ι σ) → Prop}
    {pre P : ι → C → σ × List (Executed C R ι σ) → Prop} {Q : Except ε α → _ → Prop} {c : C}
    {k : R c → Prog C R ε α}
    (h : ∀ s₁, Grew i s s₁ → inv s₁ → pre i c s₁ ∧ (P i c s₁ → ∀ r t,
      M.exec i c s₁.1 = some (r, t) → inv (t, ⟨i, s₁.1, c, r⟩ :: s₁.2) ∧
        (observedProtocol inv pre).Safe (M.observed.restrict P) i Q (k r)
          (t, ⟨i, s₁.1, c, r⟩ :: s₁.2))) :
    (observedProtocol inv pre).Safe (M.observed.restrict P) i Q (.call c k) s := by
  intro s₁ hr hinv
  obtain ⟨hpre, hstep⟩ := h s₁ hr hinv
  refine ⟨hpre, fun r s₂ he => ?_⟩
  obtain ⟨hP, he⟩ := Machine.restrict_exec he
  obtain ⟨he, hes⟩ := Machine.observed_exec he
  obtain ⟨t, es⟩ := s₂
  obtain rfl : es = _ := hes
  obtain ⟨hinv₂, hrest⟩ := hstep hP r t he
  refine ⟨hinv₂, fun j hj => ⟨[⟨i, s₁.1, c, r⟩], rfl, fun e he => ?_⟩, hrest⟩
  obtain rfl := List.mem_singleton.mp he
  exact Ne.symm hj

end Concurrency
