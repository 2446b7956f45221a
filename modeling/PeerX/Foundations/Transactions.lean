import PeerX.Foundations.ReadCommitted
import Mathlib.Data.List.Nodup

/-!
# Whole transactions at READ COMMITTED

How the commands of a transaction add up. The rules of the interleaving logic carry over from the
statements of a transaction to the transaction (`safe_transaction`). A set of threads that each run
one transaction commits a sequence of them: the first commits what it does alone, and a transaction
that is alone from some point on does from there what its rest does alone.

## Main definitions

* `Dialect.statements`, `stmtProtocol`: the logic for the statements of a transaction
* `onStatements M`: the same on any machine that executes sessions
* `Transactions X res p`: one transaction for each thread, with nothing done yet
* `Progress`: what holds of such threads under every schedule
* `WaitsFor X c i j`, `Deadlocked X c`: thread `i` waits for thread `j`, and a cycle of waiting
  threads
* `InOrder rank s i k`: the row `k` ranks above all rows thread `i` holds, or is one of them

## Main results

* `safe_transaction`, `safe_transaction_on`: a transaction is safe when its statements and its end
  are
* `Progress.first`: the first commit is that of the transaction run alone
* `solo_run`: the rest of a transaction that no other thread interferes with
* `not_deadlocked_of_inOrder`: threads that lock in order do not deadlock
-/

namespace Relational

open Concurrency

variable {C : Type} {R : C → Type} {D W κ β ε α ι : Type} [DecidableEq ι] [DecidableEq κ]

/-! ## The logic of statements -/

/-- The machine that executes statements inside transactions. -/
def Dialect.statements (X : Dialect C R D W κ) (β ι : Type) [DecidableEq ι] :
    Machine C R ι (Server D W κ β ι) :=
  ⟨fun i c s => X.exec i (.stmt c) s⟩

/-- The protocol, for statements inside transactions. -/
def stmtProtocol {σ : Type} (T : Protocol (Cmd C β) ι σ) : Protocol C ι σ :=
  { T with pre := fun i c => T.pre i (.stmt c) }

section Logic

/-- The machine that executes the statements of transactions, on any machine that executes
sessions. -/
def onStatements {σ : Type} (M : Machine (Cmd C β) (Cmd.Reply R β) ι σ) : Machine C R ι σ :=
  ⟨fun i c s => M.exec i (.stmt c) s⟩

omit [DecidableEq ι] [DecidableEq κ] in
/-- **A transaction is safe** when its statements are and its end is, on any machine. -/
theorem safe_transaction_on {σ : Type} {M : Machine (Cmd C β) (Cmd.Reply R β) ι σ}
    {T : Protocol (Cmd C β) ι σ} {i : ι} {res : α → β} {Q Q' : Except ε α → σ → Prop}
    {p : Prog C R ε α} {s : σ} (hp : (stmtProtocol T).Safe (onStatements M) i Q p s)
    (hcommit : ∀ a s, Q (.ok a) s →
      T.Safe M i Q' (.call (.commit (res a)) fun _ => .ret a) s)
    (hrollback : ∀ e s, Q (.error e) s → T.Safe M i Q' (.call .rollback fun _ => .fail e) s) :
    T.Safe M i Q' (transaction res p) s := by
  induction p generalizing s with
  | ret a => exact hcommit a s hp
  | fail e => exact hrollback e s hp
  | call c k ih =>
    intro s₁ hrely hinv
    obtain ⟨hpre, hexec⟩ := hp s₁ hrely hinv
    refine ⟨hpre, fun r s₂ he => ?_⟩
    obtain ⟨hinv₂, hguar, hrest⟩ := hexec r s₂ he
    exact ⟨hinv₂, hguar, ih r hrest⟩

/-- **A transaction is safe** when its statements are and its end is. -/
theorem safe_transaction {X : Dialect C R D W κ} {T : Protocol (Cmd C β) ι (Server D W κ β ι)} {i : ι}
    {res : α → β} {Q Q' : Except ε α → Server D W κ β ι → Prop} {p : Prog C R ε α}
    {s : Server D W κ β ι} (hp : (stmtProtocol T).Safe (X.statements β ι) i Q p s)
    (hcommit : ∀ a s, Q (.ok a) s →
      T.Safe (X.machine β ι) i Q' (.call (.commit (res a)) fun _ => .ret a) s)
    (hrollback : ∀ e s, Q (.error e) s →
      T.Safe (X.machine β ι) i Q' (.call .rollback fun _ => .fail e) s) :
    T.Safe (X.machine β ι) i Q' (transaction res p) s :=
  safe_transaction_on hp hcommit hrollback

end Logic

/-! ## The statements of a program -/

/-- What a program can issue: `N` holds at every statement, with the writes before it and the
rest of the program, and `Q` at every end. The replies are those of any database. -/
def Dialect.Issues (X : Dialect C R D W κ) (N : List W → (c : C) → (R c → Prog C R ε α) → Prop)
    (Q : List W → Except ε α → Prop) : List W → Prog C R ε α → Prop
  | ws, .ret a => Q ws (.ok a)
  | ws, .fail e => Q ws (.error e)
  | ws, .call c k => N ws c k ∧ ∀ d, X.Issues N Q (ws ++ X.writes c d) (k (X.reply c d))

omit [DecidableEq κ] in
theorem Dialect.issues_mono {X : Dialect C R D W κ}
    {N : List W → (c : C) → (R c → Prog C R ε α) → Prop} {Q Q' : List W → Except ε α → Prop}
    (hQ : ∀ ws o, Q ws o → Q' ws o) {p : Prog C R ε α} {ws : List W} (h : X.Issues N Q ws p) :
    X.Issues N Q' ws p := by
  induction p generalizing ws with
  | ret a => exact hQ _ _ h
  | fail e => exact hQ _ _ h
  | call c k ih => exact ⟨h.1, fun d => ih _ (h.2 d)⟩

omit [DecidableEq κ] in
theorem Dialect.issues_bind {γ : Type} {X : Dialect C R D W κ}
    {N : List W → (c : C) → (R c → Prog C R ε γ) → Prop} {Q : List W → Except ε γ → Prop}
    {p : Prog C R ε α} {f : α → Prog C R ε γ} {ws : List W}
    (h : X.Issues (fun ws c k => N ws c fun r => k r >>= f) (fun ws o => match o with
      | .ok a => X.Issues N Q ws (f a)
      | .error e => Q ws (.error e)) ws p) : X.Issues N Q ws (p >>= f) := by
  induction p generalizing ws with
  | ret a => exact h
  | fail e => exact h
  | call c k ih => exact ⟨h.1, fun d => ih _ (h.2 d)⟩

/-! ## One transaction for each thread -/

section Threads

variable {X : Dialect C R D W κ} {res : α → β}

/-- A configuration of threads that talk to the server. -/
abbrev Clients (R : C → Type) (D W κ β ε α ι : Type) :=
  Config (Cmd C β) (Cmd.Reply R β) ε α ι (Server D W κ β ι)

/-- The next step of a transaction: its commit, its rollback, or its next statement. -/
theorem transaction_step {i : ι} {q : Prog C R ε α} {c c' : Clients R D W κ β ε α ι}
    (hi : c.threads i = transaction res q) (hs : c.step (X.machine β ι) i = some c') :
    (∃ a, q = .ret a ∧
      c' = ⟨c.shared.afterCommit X i (res a), Function.update c.threads i (.ret a)⟩) ∨
    (∃ e, q = .fail e ∧ c' = ⟨c.shared.afterRollback i, Function.update c.threads i (.fail e)⟩) ∨
    ∃ cmd k, q = .call cmd k ∧ (∀ key ∈ X.locks cmd (c.shared.view X i), c.shared.Free i key) ∧
      c' = ⟨c.shared.afterStmt X i cmd, Function.update c.threads i
        (transaction res (k (X.reply cmd (c.shared.view X i))))⟩ := by
  obtain ⟨cmd, k, r, s, hk, he, rfl⟩ := Config.step_eq_some.mp hs
  rw [hi] at hk
  cases q with
  | ret a =>
    left
    cases hk
    exact ⟨a, rfl, by rw [exec_commit he]⟩
  | fail e =>
    right
    left
    cases hk
    exact ⟨e, rfl, by rw [exec_rollback (X := X) he]⟩
  | call c₀ k₀ =>
    right
    right
    cases hk
    obtain ⟨hfree, rfl, rfl⟩ := exec_stmt he
    exact ⟨c₀, k₀, rfl, hfree, rfl⟩

theorem not_step_of_ret {i : ι} {a : α} {c c' : Clients R D W κ β ε α ι}
    (hi : c.threads i = .ret a) : c.step (X.machine β ι) i ≠ some c' := by
  intro hs
  obtain ⟨cmd, k, r, s, hk, -⟩ := Config.step_eq_some.mp hs
  rw [hi] at hk
  cases hk

theorem not_step_of_fail {i : ι} {e : ε} {c c' : Clients R D W κ β ε α ι}
    (hi : c.threads i = .fail e) : c.step (X.machine β ι) i ≠ some c' := by
  intro hs
  obtain ⟨cmd, k, r, s, hk, -⟩ := Config.step_eq_some.mp hs
  rw [hi] at hk
  cases hk

variable (res) in
/-- The threads before their first command, each with its transaction. -/
def clients (p : ι → Prog C R ε α) (d₀ : D) : Clients R D W κ β ε α ι :=
  ⟨Server.idle d₀, fun i => transaction res (p i)⟩

variable {p : ι → Prog C R ε α} {d₀ : D} {N : ι → List W → (c : C) → (R c → Prog C R ε α) → Prop}

variable (X res p d₀ N) in
/-- What holds of such threads under every schedule: the threads that committed are the ones
that returned, the committed rows are the replay of their writes, a thread that is not finished is
in the rest of its transaction, and the first commit is that of the transaction run alone. -/
structure Progress (c : Clients R D W κ β ε α ι) : Prop where
  nodup : (c.shared.history.map Commit.thread).Nodup
  returned : ∀ i, i ∈ c.shared.history.map Commit.thread ↔ ∃ a, c.threads i = .ret a
  replay : c.shared.committed = X.applyAll (c.shared.history.flatMap Commit.writes) d₀
  running : ∀ i, (∃ q, c.threads i = transaction res q ∧ 
      X.Issues (N i) (fun _ _ => True) (c.shared.pending i) q ∧
      (c.shared.history = [] → (p i).eval X.handler d₀ = q.eval X.handler (c.shared.view X i))) ∨
    (∃ a, c.threads i = .ret a) ∨ ∃ e, c.threads i = .fail e
  first : ∀ h, c.shared.history.head? = some h →
    ∃ a, (p h.thread).eval X.handler d₀ = (.ok a, X.applyAll h.writes d₀)

theorem transaction_ne_ret {q : Prog C R ε α} {a : α} : transaction res q ≠ .ret a := by
  cases q <;> simp [transaction]

omit [DecidableEq ι] [DecidableEq κ] in
theorem progress_clients (hN : ∀ i, X.Issues (N i) (fun _ _ => True) [] (p i)) :
    Progress X res p d₀ N (clients res p d₀) where
  nodup := List.nodup_nil
  returned := by
    intro i
    constructor
    · intro h
      cases h
    · rintro ⟨a, h⟩
      exact absurd h transaction_ne_ret
  replay := rfl
  running := fun i => .inl ⟨p i, rfl, hN i, fun _ => rfl⟩
  first := by
    intro h hh
    cases hh

omit [DecidableEq κ] in
/-- The rest of a thread that is not `i` is where it was, and so is what it sees before the first
commit. -/
theorem Progress.running_other {c : Clients R D W κ β ε α ι} (h : Progress X res p d₀ N c)
    {s' : Server D W κ β ι} {i j : ι} {t : Session R β ε α} (hj : j ≠ i)
    (hpending : s'.pending j = c.shared.pending j)
    (hview : s'.history = [] → c.shared.history = [] ∧ s'.view X j = c.shared.view X j) :
    (∃ q, Function.update c.threads i t j = transaction res q ∧ 
      X.Issues (N j) (fun _ _ => True) (s'.pending j) q ∧
      (s'.history = [] → (p j).eval X.handler d₀ = q.eval X.handler (s'.view X j))) ∨
    (∃ a, Function.update c.threads i t j = .ret a) ∨
      ∃ e, Function.update c.threads i t j = .fail e := by
  rw [Function.update_of_ne hj]
  rcases h.running j with ⟨q, hq, hN, heval⟩ | hdone
  · refine .inl ⟨q, hq, hpending ▸ hN, fun hnil => ?_⟩
    obtain ⟨hnil, hview⟩ := hview hnil
    rw [hview]
    exact heval hnil
  · exact .inr hdone

omit [DecidableEq κ] in
/-- Updating a thread that has not returned to one that has not either. -/
theorem Progress.returned_update {c : Clients R D W κ β ε α ι} (h : Progress X res p d₀ N c)
    {i : ι} {q : Prog C R ε α} {t : Session R β ε α} (hi : c.threads i = transaction res q)
    (ht : ∀ a, t ≠ .ret a) (j : ι) : j ∈ c.shared.history.map Commit.thread ↔
      ∃ a, Function.update c.threads i t j = .ret a := by
  by_cases hj : j = i
  · subst hj
    rw [h.returned j, hi, Function.update_self]
    constructor
    · rintro ⟨a, ha⟩
      exact absurd ha transaction_ne_ret
    · rintro ⟨a, ha⟩
      exact absurd ha (ht a)
  · rw [Function.update_of_ne hj]
    exact h.returned j

omit [DecidableEq κ] in
theorem Progress.commit {c : Clients R D W κ β ε α ι} (h : Progress X res p d₀ N c) {i : ι} {a : α}
    (hnot : i ∉ c.shared.history.map Commit.thread)
    (heval : c.shared.history = [] →
      (p i).eval X.handler d₀ = (.ok a, c.shared.view X i)) :
    Progress X res p d₀ N
      (⟨c.shared.afterCommit X i (res a), Function.update c.threads i (.ret a)⟩ :
        Clients R D W κ β ε α ι) := by
  refine ⟨Server.nodup_threads_afterCommit _ h.nodup hnot,
    Server.returned_afterCommit _ a h.returned, ?_, fun j => ?_, fun r hr => ?_⟩
  · show c.shared.view X i = _
    rw [Server.view, h.replay, Server.afterCommit, List.flatMap_append, X.applyAll_append]
    simp
  · by_cases hj : j = i
    · subst hj
      exact .inr (.inl ⟨a, Function.update_self ..⟩)
    · refine h.running_other hj (Function.update_of_ne hj ..) fun hnil => ?_
      simp [Server.afterCommit] at hnil
  · by_cases hnil : c.shared.history = []
    · -- the first commit: the program ran on the initial database
      obtain rfl : ⟨i, c.shared.pending i, res a⟩ = r := by
        simpa [Server.afterCommit, hnil] using hr
      have hd₀ : c.shared.committed = d₀ := by simpa [hnil] using h.replay
      refine ⟨a, ?_⟩
      rw [heval hnil, Server.view, hd₀]
    · refine h.first r ?_
      rw [Server.afterCommit, List.head?_append_of_ne_nil _ hnil] at hr
      exact hr

theorem Progress.step {c c' : Clients R D W κ β ε α ι} (h : Progress X res p d₀ N c) {i : ι}
    (hs : c.step (X.machine β ι) i = some c') : Progress X res p d₀ N c' := by
  rcases h.running i with ⟨q, hq, hN, heval⟩ | ⟨a, ha⟩ | ⟨e, he⟩
  · have hnot : i ∉ c.shared.history.map Commit.thread := by
      rw [h.returned i, hq]
      rintro ⟨a, ha⟩
      exact transaction_ne_ret ha
    rcases transaction_step hq hs with ⟨a, rfl, rfl⟩ | ⟨e, rfl, rfl⟩ | ⟨cmd, k, rfl, -, rfl⟩
    · exact h.commit hnot heval
    · -- the rollback: nothing that the others see changes
      refine ⟨h.nodup, h.returned_update hq fun a => by simp, h.replay, fun j => ?_, h.first⟩
      by_cases hj : j = i
      · subst hj
        exact .inr (.inr ⟨e, Function.update_self ..⟩)
      · refine h.running_other hj (Function.update_of_ne hj ..) fun hnil => ⟨hnil, ?_⟩
        simp [Server.view, Server.afterRollback, Function.update_of_ne hj]
    · -- a statement acts on the transaction's own view
      refine ⟨h.nodup, h.returned_update hq fun a => transaction_ne_ret, h.replay, fun j => ?_,
        h.first⟩
      by_cases hj : j = i
      · subst hj
        refine .inl ⟨_, Function.update_self .., ?_, fun hnil => ?_⟩
        · rw [Server.pending_afterStmt]
          exact hN.2 _
        · rw [heval hnil, Server.view_afterStmt]
          rfl
      · refine h.running_other hj (Function.update_of_ne hj ..) fun hnil => ⟨hnil, ?_⟩
        exact Server.view_afterStmt_of_ne cmd hj
  · exact absurd hs (not_step_of_ret ha)
  · exact absurd hs (not_step_of_fail he)

theorem Progress.run (hN : ∀ i, X.Issues (N i) (fun _ _ => True) [] (p i)) {is : List ι}
    {c : Clients R D W κ β ε α ι} (hr : (clients res p d₀).run (X.machine β ι) is = some c) :
    Progress X res p d₀ N c :=
  Config.run_invariant (fun _ _ _ h hs => h.step hs) (progress_clients hN) hr

/-! ## A transaction that is alone -/

/-- **The rest of a transaction that no other thread interferes with** is what it does alone, and
the commit publishes it. -/
theorem solo_run {i : ι} {q : Prog C R ε α} {a : α} {is : List ι}
    {c c' : Clients R D W κ β ε α ι} (hi : c.threads i = transaction res q)
    (hothers : ∀ j, j ≠ i → ∃ a, c.threads j = .ret a)
    (hr : c.run (X.machine β ι) is = some c') (hend : c'.threads i = .ret a) :
    q.eval X.handler (c.shared.view X i) = (.ok a, c'.shared.committed) := by
  induction is generalizing c q with
  | nil =>
    obtain rfl : c = c' := Option.some.inj hr
    exact absurd (hi.symm.trans hend) transaction_ne_ret
  | cons j is ih =>
    obtain ⟨c₁, hs, hr⟩ := Config.run_cons_eq_some.mp hr
    -- only `i` can take the step
    obtain rfl : j = i := by
      by_contra hj
      obtain ⟨b, hb⟩ := hothers j hj
      exact not_step_of_ret hb hs
    have hdone : ∀ {t : Session R β ε α} {s₁ : Server D W κ β ι}, (∀ cmd k, t ≠ .call cmd k) →
        c₁ = ⟨s₁, Function.update c.threads j t⟩ → c' = c₁ := by
      -- a finished thread ends the schedule
      rintro t s₁ ht rfl
      cases is with
      | nil => exact (Option.some.inj hr).symm
      | cons l is =>
        obtain ⟨c₂, hs₂, -⟩ := Config.run_cons_eq_some.mp hr
        obtain ⟨cmd, k, r, s, hk, -⟩ := Config.step_eq_some.mp hs₂
        by_cases hl : l = j
        · subst hl
          exact absurd ((Function.update_self ..).symm.trans hk) (ht cmd k)
        · obtain ⟨b, hb⟩ := hothers l hl
          simp only [Function.update_of_ne hl, hb] at hk
          cases hk
    rcases transaction_step hi hs with ⟨b, rfl, rfl⟩ | ⟨e, rfl, rfl⟩ | ⟨cmd, k, rfl, -, rfl⟩
    · obtain rfl := hdone (t := .ret b) (by simp) rfl
      obtain rfl : b = a := by simpa using hend
      rfl
    · obtain rfl := hdone (t := .fail e) (by simp) rfl
      simp at hend
    · have hothers' : ∀ l, l ≠ j → ∃ a, Function.update c.threads j
          (transaction res (k (X.reply cmd (c.shared.view X j)))) l = .ret a := by
        intro l hl
        rw [Function.update_of_ne hl]
        exact hothers l hl
      have hrest := ih (Function.update_self ..) hothers' hr
      rw [Server.view_afterStmt] at hrest
      exact hrest

end Threads

end Relational

/-! ## Deadlocks -/

namespace Relational

open Concurrency

variable {C : Type} {R : C → Type} {D W κ β ε α ι : Type}

/-- The rows a thread's next command locks. -/
def Dialect.awaited (X : Dialect C R D W κ) (c : Clients R D W κ β ε α ι) (i : ι) : List κ :=
  match c.threads i with
  | .call (.stmt cmd) _ => X.locks cmd (c.shared.view X i)
  | .call (.auto cmd) _ => X.locks cmd c.shared.committed
  | _ => []

variable (X : Dialect C R D W κ)

/-- Thread `i` waits for thread `j`: its next command locks a row that `j` holds. -/
def WaitsFor (c : Clients R D W κ β ε α ι) (i j : ι) : Prop :=
  i ≠ j ∧ ∃ k ∈ X.awaited c i, c.shared.holder k = some j

instance [DecidableEq ι] (c : Clients R D W κ β ε α ι) (i j : ι) : Decidable (WaitsFor X c i j) :=
  inferInstanceAs (Decidable (_ ∧ _))

/-- A cycle of threads, each waiting for the next. -/
def Deadlocked (c : Clients R D W κ β ε α ι) : Prop :=
  ∃ i, Relation.TransGen (WaitsFor X c) i i

/-- Thread `i` holds the row `k`, or only rows that rank below it. -/
def InOrder (rank : κ → ℕ) (s : Server D W κ β ι) (i : ι) (k : κ) : Prop :=
  s.holder k = some i ∨ ∀ k', s.holder k' = some i → rank k' < rank k

variable {X} {rank : κ → ℕ} {c : Clients R D W κ β ε α ι}

/-- A waiting thread waits for a row that ranks above those it holds. -/
theorem WaitsFor.exists_above (h : ∀ i, ∀ k ∈ X.awaited c i, InOrder rank c.shared i k) {i j : ι}
    (hw : WaitsFor X c i j) : ∃ k, c.shared.holder k = some j ∧
      ∀ k', c.shared.holder k' = some i → rank k' < rank k := by
  obtain ⟨hne, k, hk, hj⟩ := hw
  refine ⟨k, hj, (h i k hk).resolve_left fun hi => ?_⟩
  rw [hj] at hi
  exact hne (Option.some.inj hi).symm

theorem exists_above_of_transGen (h : ∀ i, ∀ k ∈ X.awaited c i, InOrder rank c.shared i k) {i j : ι}
    (hw : Relation.TransGen (WaitsFor X c) i j) : ∃ k, c.shared.holder k = some j ∧
      ∀ k', c.shared.holder k' = some i → rank k' < rank k := by
  induction hw with
  | single hw => exact hw.exists_above h
  | tail _ hw ih =>
    obtain ⟨k, hk, habove⟩ := ih
    obtain ⟨k', hk', habove'⟩ := hw.exists_above h
    exact ⟨k', hk', fun l hl => Nat.lt_trans (habove l hl) (habove' k hk)⟩

/-- **Threads that lock in order do not deadlock.** -/
theorem not_deadlocked_of_inOrder (h : ∀ i, ∀ k ∈ X.awaited c i, InOrder rank c.shared i k) :
    ¬ Deadlocked X c := by
  rintro ⟨i, hw⟩
  obtain ⟨k, hk, habove⟩ := exists_above_of_transGen h hw
  exact Nat.lt_irrefl _ (habove k hk)

end Relational
