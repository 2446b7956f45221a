import PeerX.Foundations.Interleaving

/-!
# Transactions at READ COMMITTED with row locks

A dialect describes the statements of a database: the rows a statement locks, its reply and its
row writes, all as functions of the rows the statement sees. A transaction sees the committed rows
and its own writes; a statement waits while another transaction holds a row it locks; a commit
publishes the writes and releases the locks, a rollback drops them. A statement outside a
transaction commits by itself.

The same statements, run alone, are a handler on the database (`Dialect.handler`): this is the
meaning of a transaction that no other transaction overlaps.

## Main definitions

* `Dialect`: statements, with the rows they lock and write
* `Server`: the committed rows, the pending writes and the row locks
* `Dialect.machine`: the machine that executes statements, commits and rollbacks
* `transaction`: a program of statements, committed when it succeeds and rolled back when it fails
* `autocommitted p`: every statement of `p` commits by itself

## Main results

* `Server.view_afterStmt`: a statement acts on its transaction's view as the handler does
* `Server.Owned.exec`: every pending write is to a row its transaction holds
* `Server.keeps_of_exec`, `Server.row_stable`: no other thread touches the pending writes, the
  locks or the locked rows of a transaction
-/

namespace Relational

open Concurrency

variable {C : Type} {R : C → Type} {D W κ β ε α ι : Type}

/-- Statements of a database `D`: the rows `κ` a statement locks, its reply and its writes.
Every row it writes is a row it locks. -/
structure Dialect (C : Type) (R : C → Type) (D W κ : Type) where
  apply : W → D → D
  locks : C → D → List κ
  reply : (c : C) → D → R c
  writes : C → D → List W
  /-- The row a write goes to; `none` for a row no other transaction can name. -/
  target : W → Option κ
  locks_of_writes : ∀ c d w k, w ∈ writes c d → target w = some k → k ∈ locks c d

namespace Dialect

variable (X : Dialect C R D W κ)

/-- Writes, applied in order. -/
def applyAll (ws : List W) (d : D) : D := ws.foldl (fun d w => X.apply w d) d

@[simp] theorem applyAll_nil (d : D) : X.applyAll [] d = d := rfl

@[simp] theorem applyAll_cons (w : W) (ws : List W) (d : D) :
    X.applyAll (w :: ws) d = X.applyAll ws (X.apply w d) := rfl

@[simp] theorem applyAll_append (ws ws' : List W) (d : D) :
    X.applyAll (ws ++ ws') d = X.applyAll ws' (X.applyAll ws d) := List.foldl_append

/-- The statement run alone: its reply, and the database after its writes. -/
def handler (c : C) (d : D) : R c × D := (X.reply c d, X.applyAll (X.writes c d) d)

theorem applyAll_obs {γ : Type} (obs : D → γ) {ws : List W}
    (h : ∀ w ∈ ws, ∀ d, obs (X.apply w d) = obs d) (d : D) : obs (X.applyAll ws d) = obs d := by
  induction ws generalizing d with
  | nil => rfl
  | cons w ws ih =>
    rw [applyAll_cons, ih fun w' hw' => h w' (List.mem_cons_of_mem _ hw'), h w List.mem_cons_self]

end Dialect

/-- The commands of a thread: a statement inside its transaction, a statement that commits by
itself, and the end of its transaction. A commit carries the transaction's result. -/
inductive Cmd (C β : Type) : Type
  | stmt (c : C)
  | auto (c : C)
  | commit (result : β)
  | rollback

/-- The reply to a command of a thread. -/
abbrev Cmd.Reply (R : C → Type) (β : Type) : Cmd C β → Type
  | .stmt c => R c
  | .auto c => R c
  | .commit _ => Unit
  | .rollback => Unit

/-- The programs of a thread. -/
abbrev Session (R : C → Type) (β ε α : Type) := Prog (Cmd C β) (Cmd.Reply R β) ε α

/-- A transaction: the statements of the program, committed with its result when it succeeds
and rolled back when it fails. -/
def transaction (result : α → β) : Prog C R ε α → Session R β ε α
  | .ret a => .call (.commit (result a)) fun _ => .ret a
  | .fail e => .call .rollback fun _ => .fail e
  | .call c k => .call (.stmt c) fun r => transaction result (k r)

/-- A statement outside any transaction. -/
def autocommit (c : C) : Session R β ε (R c) := .call (.auto c) .ret

/-- A committed transaction: its thread, its writes and its result. -/
structure Commit (ι W β : Type) where
  thread : ι
  writes : List W
  result : β

/-- The shared state: committed rows, the pending writes of each transaction, the holder of
each row lock, and the transactions in the order they committed. -/
structure Server (D W κ β ι : Type) where
  committed : D
  pending : ι → List W
  holder : κ → Option ι
  history : List (Commit ι W β)

namespace Server

/-- A database with no transaction open. -/
def idle (d : D) : Server D W κ β ι := ⟨d, fun _ => [], fun _ => none, []⟩

variable (X : Dialect C R D W κ)

/-- What transaction `i` sees: the committed rows under its own writes. -/
def view (s : Server D W κ β ι) (i : ι) : D := X.applyAll (s.pending i) s.committed

/-- No other thread holds the row. -/
def Free (s : Server D W κ β ι) (i : ι) (k : κ) : Prop := s.holder k = none ∨ s.holder k = some i

instance [DecidableEq ι] (s : Server D W κ β ι) (i : ι) (k : κ) : Decidable (s.Free i k) :=
  inferInstanceAs (Decidable (_ ∨ _))

variable [DecidableEq ι]

/-- The rows held by `i` become free. -/
def release (s : Server D W κ β ι) (i : ι) (k : κ) : Option ι :=
  if s.holder k = some i then none else s.holder k

/-- Transaction `i` after the statement `c`: its locks are taken and its writes are pending. -/
def afterStmt [DecidableEq κ] (s : Server D W κ β ι) (i : ι) (c : C) : Server D W κ β ι :=
  { s with
    pending := Function.update s.pending i (s.pending i ++ X.writes c (s.view X i))
    holder := fun k => if k ∈ X.locks c (s.view X i) then some i else s.holder k }

/-- The database after a statement that commits by itself. -/
def afterAuto (s : Server D W κ β ι) (c : C) : Server D W κ β ι :=
  { s with committed := X.applyAll (X.writes c s.committed) s.committed }

/-- The database after the commit of transaction `i`. -/
def afterCommit (s : Server D W κ β ι) (i : ι) (b : β) : Server D W κ β ι where
  committed := s.view X i
  pending := Function.update s.pending i []
  holder := s.release i
  history := s.history ++ [⟨i, s.pending i, b⟩]

/-- The database after the rollback of transaction `i`. -/
def afterRollback (s : Server D W κ β ι) (i : ι) : Server D W κ β ι :=
  { s with pending := Function.update s.pending i [], holder := s.release i }

end Server

section Machine

variable (X : Dialect C R D W κ) [DecidableEq ι] [DecidableEq κ]

/-- One command of thread `i`; it waits while another thread holds a row it locks. -/
def Dialect.exec (i : ι) : (c : Cmd C β) → Server D W κ β ι →
    Option (Cmd.Reply R β c × Server D W κ β ι)
  | .stmt c, s =>
    if ∀ k ∈ X.locks c (s.view X i), s.Free i k then
      some (X.reply c (s.view X i), s.afterStmt X i c)
    else none
  | .auto c, s =>
    if ∀ k ∈ X.locks c s.committed, s.Free i k then
      some (X.reply c s.committed, s.afterAuto X c)
    else none
  | .commit b, s => some ((), s.afterCommit X i b)
  | .rollback, s => some ((), s.afterRollback i)

/-- The database server as a machine. -/
def Dialect.machine (β ι : Type) [DecidableEq ι] :
    Machine (Cmd C β) (Cmd.Reply R β) ι (Server D W κ β ι) :=
  ⟨X.exec⟩

variable {X} {i j : ι} {s s' : Server D W κ β ι}

theorem exec_stmt {c : C} {r : R c} (h : X.exec i (.stmt c) s = some (r, s')) :
    (∀ k ∈ X.locks c (s.view X i), s.Free i k) ∧ r = X.reply c (s.view X i) ∧
      s' = s.afterStmt X i c := by
  simp only [Dialect.exec] at h
  split at h
  · next hf =>
    obtain ⟨rfl, rfl⟩ := Prod.mk.inj (Option.some.inj h)
    exact ⟨hf, rfl, rfl⟩
  · cases h

theorem exec_auto {c : C} {r : R c} (h : X.exec i (.auto c) s = some (r, s')) :
    (∀ k ∈ X.locks c s.committed, s.Free i k) ∧ r = X.reply c s.committed ∧
      s' = s.afterAuto X c := by
  simp only [Dialect.exec] at h
  split at h
  · next hf =>
    obtain ⟨rfl, rfl⟩ := Prod.mk.inj (Option.some.inj h)
    exact ⟨hf, rfl, rfl⟩
  · cases h

theorem exec_commit {b : β} {r : Unit} (h : X.exec i (.commit b) s = some (r, s')) :
    s' = s.afterCommit X i b :=
  ((Prod.mk.inj (Option.some.inj h)).2).symm

theorem exec_rollback {r : Unit} (h : X.exec i (.rollback : Cmd C β) s = some (r, s')) :
    s' = s.afterRollback i :=
  ((Prod.mk.inj (Option.some.inj h)).2).symm

end Machine

namespace Server

variable {X : Dialect C R D W κ} [DecidableEq ι] {i j : ι} {s s' : Server D W κ β ι}

omit [DecidableEq ι] in
@[simp] theorem view_idle (d : D) : (idle d : Server D W κ β ι).view X i = d := rfl

@[simp] theorem pending_afterStmt [DecidableEq κ] (c : C) :
    (s.afterStmt X i c).pending i = s.pending i ++ X.writes c (s.view X i) :=
  Function.update_self ..

theorem holder_of_lock [DecidableEq κ] {c : C} {k : κ} (h : k ∈ X.locks c (s.view X i)) :
    (s.afterStmt X i c).holder k = some i := if_pos h

theorem holder_of_held [DecidableEq κ] {c : C} {k : κ} (h : s.holder k = some i) :
    (s.afterStmt X i c).holder k = some i := by
  simp only [afterStmt]
  split
  · rfl
  · exact h

/-- **A statement acts on its transaction's view** as it does on a database of its own. -/
theorem view_afterStmt [DecidableEq κ] (c : C) :
    (s.afterStmt X i c).view X i = (X.handler c (s.view X i)).2 := by
  simp [view, afterStmt, Dialect.handler]

theorem view_afterStmt_of_ne [DecidableEq κ] (c : C) (h : j ≠ i) :
    (s.afterStmt X i c).view X j = s.view X j := by
  simp [view, afterStmt, Function.update_of_ne h]

variable (X) in
/-- Every pending write is to a row its transaction holds. -/
def Owned (s : Server D W κ β ι) : Prop :=
  ∀ i w k, w ∈ s.pending i → X.target w = some k → s.holder k = some i

omit [DecidableEq ι] in
theorem owned_idle (d : D) : (idle d : Server D W κ β ι).Owned X := by
  intro i w k hw
  simp [idle] at hw

/-- Ending transaction `i` keeps the pending writes of the others owned. -/
theorem Owned.release (h : s.Owned X) {w : W} {k : κ}
    (hw : w ∈ Function.update s.pending i [] j) (hk : X.target w = some k) :
    s.release i k = some j := by
  have hj : j ≠ i := by
    rintro rfl
    simp at hw
  rw [Function.update_of_ne hj] at hw
  have hh := h j w k hw hk
  simp [Server.release, hh, hj]

theorem Owned.exec [DecidableEq κ] (h : s.Owned X) {c : Cmd C β} {r : Cmd.Reply R β c}
    (he : X.exec i c s = some (r, s')) : s'.Owned X := by
  cases c with
  | stmt c =>
    obtain ⟨hf, -, rfl⟩ := exec_stmt he
    intro j w k hw hk
    simp only [afterStmt] at hw ⊢
    by_cases hj : j = i
    · subst hj
      rw [Function.update_self, List.mem_append] at hw
      rcases hw with hw | hw
      · simp [h j w k hw hk]
      · simp [X.locks_of_writes c _ w k hw hk]
    · rw [Function.update_of_ne hj] at hw
      have hh := h j w k hw hk
      -- a row held by `j` is not free for `i`, so the statement does not lock it
      have hn : k ∉ X.locks c (s.view X i) := by
        intro hmem
        rcases hf k hmem with hf | hf
        · rw [hh] at hf
          cases hf
        · rw [hh] at hf
          exact hj (Option.some.inj hf)
      rw [if_neg hn, hh]
  | auto c =>
    obtain ⟨-, -, rfl⟩ := exec_auto he
    exact h
  | commit b =>
    rw [exec_commit he]
    exact fun j w k hw hk => h.release hw hk
  | rollback =>
    rw [exec_rollback he]
    exact fun j w k hw hk => h.release hw hk

/-- The pending writes and the locks of transaction `i` are the same in both states. -/
structure Keeps (i : ι) (s s' : Server D W κ β ι) : Prop where
  pending : s'.pending i = s.pending i
  holder : ∀ k, s'.holder k = some i ↔ s.holder k = some i

omit [DecidableEq ι] in
theorem Keeps.refl (i : ι) (s : Server D W κ β ι) : Keeps i s s := ⟨rfl, fun _ => Iff.rfl⟩

omit [DecidableEq ι] in
theorem Keeps.trans {s'' : Server D W κ β ι} (h : Keeps i s s') (h' : Keeps i s' s'') :
    Keeps i s s'' :=
  ⟨h'.pending.trans h.pending, fun k => (h'.holder k).trans (h.holder k)⟩

variable (i) in
/-- Thread `i` has no transaction open: no pending write, and no lock. -/
structure Clear (s : Server D W κ β ι) : Prop where
  pending : s.pending i = []
  holder : ∀ k, s.holder k ≠ some i

omit [DecidableEq ι] in
theorem clear_idle (d : D) : (idle d : Server D W κ β ι).Clear i :=
  ⟨rfl, fun _ h => by cases h⟩

omit [DecidableEq ι] in
theorem Clear.of_keeps (h : s.Clear i) (hk : Keeps i s s') : s'.Clear i :=
  ⟨hk.pending.trans h.pending, fun k hh => h.holder k ((hk.holder k).mp hh)⟩

theorem release_ne (k : κ) : s.release i k ≠ some i := by
  unfold Server.release
  split
  · simp
  · assumption

theorem clear_afterCommit (b : β) : (s.afterCommit X i b).Clear i :=
  ⟨Function.update_self .., release_ne⟩

theorem mem_threads_afterCommit (b : β) : j ∈ (s.afterCommit X i b).history.map Commit.thread ↔
    j ∈ s.history.map Commit.thread ∨ j = i := by
  simp [afterCommit]

/-- A thread that has not committed yet is new in the history. -/
theorem nodup_threads_afterCommit (b : β) (h : (s.history.map Commit.thread).Nodup)
    (hnot : i ∉ s.history.map Commit.thread) :
    ((s.afterCommit X i b).history.map Commit.thread).Nodup := by
  rw [afterCommit, List.map_append, List.nodup_append]
  refine ⟨h, List.pairwise_singleton _ _, ?_⟩
  rintro x hx y hy rfl
  obtain rfl : x = i := by simpa using hy
  exact hnot hx

/-- When the threads that committed are those that returned, so they are after a commit. -/
theorem returned_afterCommit {threads : ι → Session R β ε α} (b : β) (a₀ : α)
    (h : ∀ j, j ∈ s.history.map Commit.thread ↔ ∃ a, threads j = .ret a) (j : ι) :
    j ∈ (s.afterCommit X i b).history.map Commit.thread ↔
      ∃ a, Function.update threads i (.ret a₀) j = .ret a := by
  rw [mem_threads_afterCommit]
  by_cases hj : j = i
  · subst hj
    simp
  · simp [hj, h j]

theorem clear_afterRollback : (s.afterRollback i).Clear i :=
  ⟨Function.update_self .., release_ne⟩

theorem keeps_release (hj : j ≠ i) (k : κ) : s.release i k = some j ↔ s.holder k = some j := by
  unfold Server.release
  by_cases h : s.holder k = some i
  · simp [h, Ne.symm hj]
  · simp [h]

/-- **No other thread touches the pending writes or the locks of a transaction.** -/
theorem keeps_of_exec [DecidableEq κ] {c : Cmd C β} {r : Cmd.Reply R β c}
    (he : X.exec i c s = some (r, s')) (hj : j ≠ i) : Keeps j s s' := by
  cases c with
  | stmt c =>
    obtain ⟨hf, -, rfl⟩ := exec_stmt he
    refine ⟨by simp [afterStmt, Function.update_of_ne hj], fun k => ?_⟩
    simp only [afterStmt]
    split
    · next hk =>
      rcases hf k hk with hn | hn <;> simp [hn, Ne.symm hj]
    · rfl
  | auto c =>
    obtain ⟨-, -, rfl⟩ := exec_auto he
    exact ⟨rfl, fun _ => Iff.rfl⟩
  | commit b =>
    rw [exec_commit he]
    exact ⟨by simp [afterCommit, Function.update_of_ne hj], keeps_release hj⟩
  | rollback =>
    rw [exec_rollback he]
    exact ⟨by simp [afterRollback, Function.update_of_ne hj], keeps_release hj⟩

/-- **A held row is stable**: what only writes to the row `k` can change in the database stays
unchanged in the committed rows while another thread than the holder of `k` runs. -/
theorem row_stable [DecidableEq κ] {γ : Type} (obs : D → γ) {k : κ}
    (hobs : ∀ w d, X.target w ≠ some k → obs (X.apply w d) = obs d) (h : s.Owned X)
    (hk : s.holder k = some j) (hj : j ≠ i) {c : Cmd C β} {r : Cmd.Reply R β c}
    (he : X.exec i c s = some (r, s')) : obs s'.committed = obs s.committed := by
  cases c with
  | stmt c =>
    obtain ⟨-, -, rfl⟩ := exec_stmt he
    rfl
  | auto c =>
    obtain ⟨hf, -, rfl⟩ := exec_auto he
    refine X.applyAll_obs obs (fun w hw d => hobs w d fun ht => ?_) _
    rcases hf k (X.locks_of_writes c _ w k hw ht) with hn | hn
    · rw [hk] at hn
      cases hn
    · rw [hk] at hn
      exact hj (Option.some.inj hn)
  | commit b =>
    rw [exec_commit he]
    refine X.applyAll_obs obs (fun w hw d => hobs w d fun ht => ?_) _
    have hn := h i w k hw ht
    rw [hk] at hn
    exact hj (Option.some.inj hn)
  | rollback =>
    rw [exec_rollback he]
    rfl

end Server

/-- The program outside any transaction: every statement commits by itself. -/
def autocommitted (p : Prog C R ε α) : Session R β ε α := p.embed .auto (fun _ r => r) id

end Relational
