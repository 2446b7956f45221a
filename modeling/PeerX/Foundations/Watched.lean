import PeerX.Foundations.Observed
import PeerX.Foundations.Transactions

/-!
# Watched servers

A database server that keeps the commands it executed. Nothing is asked of the locks: a transaction
relies on its own pending writes and on the events of its own, and every database it sees is well
formed, because every write is. A condition on the executed commands then holds of every command of
a run, in the state it was executed in.
-/

namespace Relational

open Concurrency

variable {C : Type} {R : C → Type} {D W κ β ε α ι : Type}

/-- Databases and writes of a form that every admitted statement keeps. -/
structure Dialect.WellFormed (X : Dialect C R D W κ) where
  db : D → Prop
  write : W → Prop
  stmt : C → Prop
  db_apply : ∀ {w d}, db d → write w → db (X.apply w d)
  write_of_mem : ∀ {c d w}, db d → stmt c → w ∈ X.writes c d → write w

namespace Dialect.WellFormed

variable {X : Dialect C R D W κ} (F : X.WellFormed)

theorem db_applyAll {ws : List W} {d : D} (hd : F.db d) (hws : ∀ w ∈ ws, F.write w) :
    F.db (X.applyAll ws d) := by
  induction ws generalizing d with
  | nil => exact hd
  | cons w ws ih =>
    obtain ⟨hw, hws⟩ := List.forall_mem_cons.mp hws
    exact ih (F.db_apply hd hw) hws

/-- The admitted commands. -/
def Admits : Cmd C β → Prop
  | .stmt c => F.stmt c
  | .auto c => F.stmt c
  | .commit _ => True
  | .rollback => True

/-- The committed rows are well formed, and so is every pending write. -/
structure Inv (s : Server D W κ β ι) : Prop where
  committed : F.db s.committed
  pending : ∀ i, ∀ w ∈ s.pending i, F.write w

variable {F} {s s' : Server D W κ β ι} {i : ι}

theorem inv_idle {d : D} (hd : F.db d) : F.Inv (Server.idle d : Server D W κ β ι) :=
  ⟨hd, fun i w hw => by cases hw⟩

/-- What a transaction sees is well formed. -/
theorem Inv.view (h : F.Inv s) (i : ι) : F.db (s.view X i) := F.db_applyAll h.committed (h.pending i)

variable [DecidableEq ι] [DecidableEq κ]

omit [DecidableEq κ] in
/-- The end of a transaction keeps the other pending writes. -/
theorem Inv.pending_end (h : F.Inv s) (j : ι) :
    ∀ w ∈ Function.update s.pending i [] j, F.write w := by
  intro w hw
  by_cases hj : j = i
  · subst hj
    rw [Function.update_self] at hw
    cases hw
  · rw [Function.update_of_ne hj] at hw
    exact h.pending j w hw

/-- Every admitted command keeps the form. -/
theorem Inv.exec {c : Cmd C β} {r : Cmd.Reply R β c} (h : F.Inv s) (hc : F.Admits c)
    (he : X.exec i c s = some (r, s')) : F.Inv s' := by
  cases c with
  | stmt c =>
    obtain ⟨-, -, rfl⟩ := exec_stmt he
    refine ⟨h.committed, fun j w hw => ?_⟩
    simp only [Server.afterStmt] at hw
    by_cases hj : j = i
    · subst hj
      rw [Function.update_self, List.mem_append] at hw
      exact hw.elim (h.pending j w) (F.write_of_mem (h.view j) hc)
    · rw [Function.update_of_ne hj] at hw
      exact h.pending j w hw
  | auto c =>
    obtain ⟨-, -, rfl⟩ := exec_auto he
    exact ⟨F.db_applyAll h.committed fun w => F.write_of_mem h.committed hc, h.pending⟩
  | commit b =>
    rw [exec_commit he]
    exact ⟨h.view i, h.pending_end⟩
  | rollback =>
    rw [exec_rollback he]
    exact ⟨h.committed, h.pending_end⟩

end Dialect.WellFormed

/-- An executed command of the server. -/
abbrev ServerEvent (R : C → Type) (D W κ β ι : Type) :=
  Executed (Cmd C β) (Cmd.Reply R β) ι (Server D W κ β ι)

/-- A server with the commands it executed, the newest first. -/
abbrev Watched (R : C → Type) (D W κ β ι : Type) :=
  Server D W κ β ι × List (ServerEvent R D W κ β ι)

section Logic

variable {X : Dialect C R D W κ}

/-- What a transaction relies on: its pending writes and its events are its own. -/
def Later (i : ι) (s s' : Watched R D W κ β ι) : Prop := Server.Keeps i s.1 s'.1 ∧ Grew i s s'

/-- The protocol of a watched server. -/
def watchedProtocol (F : X.WellFormed) (pre : ι → Cmd C β → Server D W κ β ι → Prop) :
    Protocol (Cmd C β) ι (Watched R D W κ β ι) where
  inv := fun s => F.Inv s.1 ∧ ∀ e ∈ s.2, pre e.thread e.command e.before
  rely := Later
  guar := fun i s s' => ∀ j, j ≠ i → Later j s s'
  pre := fun _ _ _ => True
  rely_refl := fun i s => ⟨.refl i s.1, .refl i s⟩
  rely_trans := fun _ _ _ _ h h' => ⟨h.1.trans h'.1, h.2.trans h'.2⟩
  guar_rely := fun _ j _ _ hne _ _ h => h j (Ne.symm hne)

variable [DecidableEq ι] [DecidableEq κ] {F : X.WellFormed} {i : ι}
  {pre : ι → Cmd C β → Server D W κ β ι → Prop}
  {P : ι → Cmd C β → Watched R D W κ β ι → Prop} {s : Watched R D W κ β ι}

/-- The server after a command that `P` admits, with the event. -/
theorem watched_exec {c : Cmd C β} {r : Cmd.Reply R β c} {t : Watched R D W κ β ι}
    (hinv : (watchedProtocol F pre).inv s) (hc : F.Admits c) (hpre : pre i c s.1)
    (he : X.exec i c s.1 = some (r, t.1)) (hes : t.2 = ⟨i, s.1, c, r⟩ :: s.2) :
    (watchedProtocol F pre).inv t ∧ (watchedProtocol F pre).guar i s t := by
  refine ⟨⟨hinv.1.exec hc he, ?_⟩, fun j hj => ⟨Server.keeps_of_exec he hj, [⟨i, s.1, c, r⟩], hes, ?_⟩⟩
  · rw [hes]
    exact List.forall_mem_cons.mpr ⟨hpre, hinv.2⟩
  · intro e he'
    obtain rfl := List.mem_singleton.mp he'
    exact Ne.symm hj

/-- A statement of a transaction, when `P` admits it. -/
theorem safe_watched_stmt {Q : Except ε α → Watched R D W κ β ι → Prop} {c : C}
    {k : R c → Prog C R ε α}
    (h : ∀ s₁ : Watched R D W κ β ι, Later i s s₁ → F.Inv s₁.1 → P i (.stmt c) s₁ →
      F.stmt c ∧ pre i (.stmt c) s₁.1 ∧
        (stmtProtocol (watchedProtocol F pre)).Safe
          (onStatements ((X.machine β ι).observed.restrict P)) i Q (k (X.reply c (s₁.1.view X i)))
          (s₁.1.afterStmt X i c, ⟨i, s₁.1, .stmt c, X.reply c (s₁.1.view X i)⟩ :: s₁.2)) :
    (stmtProtocol (watchedProtocol F pre)).Safe
      (onStatements ((X.machine β ι).observed.restrict P)) i Q (.call c k) s := by
  intro s₁ hr hinv
  refine ⟨trivial, fun r s₂ he => ?_⟩
  obtain ⟨hP, he⟩ := Machine.restrict_exec he
  obtain ⟨he, hes⟩ := Machine.observed_exec he
  replace he : X.exec i (.stmt c) s₁.1 = some (r, s₂.1) := he
  obtain ⟨hc, hpre, hrest⟩ := h s₁ hr hinv.1 hP
  have hend := watched_exec (c := .stmt c) (t := s₂) hinv hc hpre he hes
  obtain ⟨-, rfl, ht⟩ := exec_stmt he
  obtain ⟨t, es⟩ := s₂
  obtain rfl : t = _ := ht
  obtain rfl : es = _ := hes
  exact ⟨hend.1, hend.2, hrest⟩

/-- A statement outside a transaction, when `P` admits it. -/
theorem safe_watched_auto {Q : Except ε α → Watched R D W κ β ι → Prop} {c : C}
    {k : R c → Session R β ε α}
    (h : ∀ s₁ : Watched R D W κ β ι, Later i s s₁ → F.Inv s₁.1 → P i (.auto c) s₁ →
      F.stmt c ∧ pre i (.auto c) s₁.1 ∧
        (watchedProtocol F pre).Safe ((X.machine β ι).observed.restrict P) i Q
          (k (X.reply c s₁.1.committed))
          (s₁.1.afterAuto X c, ⟨i, s₁.1, .auto c, X.reply c s₁.1.committed⟩ :: s₁.2)) :
    (watchedProtocol F pre).Safe ((X.machine β ι).observed.restrict P) i Q (.call (.auto c) k) s := by
  intro s₁ hr hinv
  refine ⟨trivial, fun r s₂ he => ?_⟩
  obtain ⟨hP, he⟩ := Machine.restrict_exec he
  obtain ⟨he, hes⟩ := Machine.observed_exec he
  replace he : X.exec i (.auto c) s₁.1 = some (r, s₂.1) := he
  obtain ⟨hc, hpre, hrest⟩ := h s₁ hr hinv.1 hP
  have hend := watched_exec (c := .auto c) (t := s₂) hinv hc hpre he hes
  obtain ⟨-, rfl, ht⟩ := exec_auto he
  obtain ⟨t, es⟩ := s₂
  obtain rfl : t = _ := ht
  obtain rfl : es = _ := hes
  exact ⟨hend.1, hend.2, hrest⟩

theorem safe_watched_end {c : Cmd C β} {t : Session R β ε α} (hc : F.Admits c)
    (hpre : ∀ s, pre i c s) (ht : ∀ s, (watchedProtocol F pre).Safe
      ((X.machine β ι).observed.restrict P) i (fun _ _ => True) t s) :
    (watchedProtocol F pre).Safe ((X.machine β ι).observed.restrict P) i (fun _ _ => True)
      (.call c fun _ => t) s := by
  intro s₁ _ hinv
  refine ⟨trivial, fun r s₂ he => ?_⟩
  obtain ⟨he, hes⟩ := Machine.observed_exec (Machine.restrict_exec he).2
  obtain ⟨hinv₂, hguar⟩ := watched_exec (t := s₂) hinv hc (hpre _) he hes
  exact ⟨hinv₂, hguar, ht s₂⟩

/-- A transaction, whatever it ends with. -/
theorem safe_watched_transaction {p : Prog C R ε α} {res : α → β} (hcommit : ∀ b s, pre i (.commit b) s)
    (hrollback : ∀ s, pre i .rollback s)
    (hp : (stmtProtocol (watchedProtocol F pre)).Safe
      (onStatements ((X.machine β ι).observed.restrict P)) i (fun _ _ => True) p s) :
    (watchedProtocol F pre).Safe ((X.machine β ι).observed.restrict P) i (fun _ _ => True)
      (transaction res p) s :=
  safe_transaction_on hp
    (fun a _ _ => safe_watched_end (t := .ret a) trivial (hcommit _) fun _ => trivial)
    (fun e _ _ => safe_watched_end (t := .fail e) trivial hrollback fun _ => trivial)

end Logic

end Relational
