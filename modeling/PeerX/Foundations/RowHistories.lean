import PeerX.Foundations.ReadCommitted
import PeerX.Foundations.RowInvariants

/-!
# Rows and their histories

What a committed row is can depend on the transactions that committed before: how often one of them
wrote it, or what each of them added to it. A property of rows with histories holds in every run
when every commit keeps it, given what the transaction did to the rows it wrote. The rows a
transaction did not write are left to the others.

A session goes on after its transaction. What it has seen of the committed rows then is still true
when the moves that a row can make keep it true, and the second protocol lets a thread rely on these
moves as well.

## Main results

* `safe_history_stmt`, `safe_history_transaction`, `safe_history_auto`: the rules for a statement,
  for a transaction, and for a statement outside one
* `HoldsRow.edited_afterStmt`: a transaction that writes the one row it has read and holds
* `RowSpec.run_moved`: the property holds after every run, and every row has moved as it may
* `safe_evolving_stmt`, `safe_evolving_transaction`, `delivers_evolving_auto`: the rules, with what
  is known after the commit
* `RowSpec.run_evolved`: the property holds after every run
-/

namespace Relational

open Concurrency

variable {C : Type} {R : C → Type} {D W κ β ε α ι γ : Type}

/-- A property of rows with their histories, and the moves a committed row can make. -/
structure RowSpec (ι W β κ γ : Type) where
  good : κ → List (Commit ι W β) → γ → Prop
  move : κ → γ → γ → Prop
  move_refl : ∀ k x, move k x x
  move_trans : ∀ k x y z, move k x y → move k y z → move k x z

variable {X : Dialect C R D W κ} (O : X.Rows γ) (π : RowSpec ι W β κ γ)

/-- The invariant: every committed row goes with the history. -/
structure HistoryInv (s : Server D W κ β ι) : Prop where
  owned : s.Owned X
  good : ∀ k, π.good k s.history (O.obs k s.committed)

/-- The transaction changed the rows it wrote as `E` says, from what is committed to what it
sees. -/
def Edited (E : κ → γ → γ → Prop) (s : Server D W κ β ι) (i : ι) : Prop :=
  ∀ k, Touches X s i k → E k (O.obs k s.committed) (O.obs k (s.view X i))

/-- The commit keeps the property, when it changes the rows it wrote as `E` says. -/
def RowSpec.Keeps (X : Dialect C R D W κ) (π : RowSpec ι W β κ γ) (r : Commit ι W β)
    (E : κ → γ → γ → Prop) : Prop :=
  ∀ k h x, π.good k h x →
    ((∀ w ∈ r.writes, X.target w ≠ some k) → π.good k (h ++ [r]) x) ∧
    ∀ x', (∃ w ∈ r.writes, X.target w = some k) → E k x x' → π.good k (h ++ [r]) x' ∧ π.move k x x'

variable {O π} {s s' : Server D W κ β ι} {i : ι} {E : κ → γ → γ → Prop}

theorem Edited.of_holding (h : Edited O E s i) (hr : Holding O i s s') (ho : s'.Owned X) :
    Edited O E s' i := by
  intro k hk
  obtain ⟨w, hw, ht⟩ := hk
  have hheld : s.holder k = some i := (hr.1.holder k).mp (ho i w k hw ht)
  rw [hr.2 k hheld, hr.view hheld]
  exact h k (hr.touches.mp ⟨w, hw, ht⟩)

variable (O π) in
/-- The protocol of the transactions. -/
def RowSpec.protocol : Protocol (Cmd C β) ι (Server D W κ β ι) where
  inv := HistoryInv O π
  rely := Holding O
  guar := fun i s s' => (∀ j, j ≠ i → Holding O j s s') ∧
    ∀ k, π.move k (O.obs k s.committed) (O.obs k s'.committed)
  pre := fun _ _ _ => True
  rely_refl := Holding.refl
  rely_trans := fun _ _ _ _ => Holding.trans
  guar_rely := fun _ j _ _ hne _ _ h => h.1 j (Ne.symm hne)

/-! ## The rules -/

section Rules

variable [DecidableEq ι] [DecidableEq κ]

/-- A statement keeps the changes made so far, when it changes the rows it writes as `E` says. -/
theorem Edited.afterStmt (h : Edited O E s i) {c : C}
    (hc : ∀ k, (∃ w ∈ X.writes c (s.view X i), X.target w = some k) →
      E k (O.obs k s.committed) (O.obs k (X.applyAll (X.writes c (s.view X i)) (s.view X i)))) :
    Edited O E (s.afterStmt X i c) i := by
  intro k hk
  rw [obs_view_afterStmt]
  by_cases hwrites : ∃ w ∈ X.writes c (s.view X i), X.target w = some k
  · exact hc k hwrites
  · rw [O.frame_applyAll fun w hw ht => hwrites ⟨w, hw, ht⟩]
    exact h k ((touches_afterStmt.mp hk).resolve_right hwrites)

omit [DecidableEq κ] in
theorem HistoryInv.afterCommit (hinv : HistoryInv O π s) {b : β} (hedited : Edited O E s i)
    (hkeeps : π.Keeps X ⟨i, s.pending i, b⟩ E) (k : κ) :
    π.good k (s.afterCommit X i b).history (O.obs k (s.view X i)) ∧
      π.move k (O.obs k s.committed) (O.obs k (s.view X i)) := by
  obtain ⟨hfree, hwritten⟩ := hkeeps k s.history (O.obs k s.committed) (hinv.good k)
  by_cases hk : Touches X s i k
  · exact hwritten _ hk (hedited k hk)
  · rw [obs_view_of_not_touches hk]
    exact ⟨hfree fun w hw ht => hk ⟨w, hw, ht⟩, π.move_refl k _⟩

variable (O π) in
/-- What a command does: it keeps the property, leaves the rows that the other transactions hold
alone, and moves every row as it may. -/
structure HistoryStep (i : ι) (s s' : Server D W κ β ι) : Prop where
  inv : HistoryInv O π s'
  others : ∀ j, j ≠ i → Holding O j s s'
  moved : ∀ k, π.move k (O.obs k s.committed) (O.obs k s'.committed)

theorem HistoryInv.step_stmt (hinv : HistoryInv O π s) {c : C} {r : R c}
    (he : X.exec i (.stmt c : Cmd C β) s = some (r, s')) :
    HistoryStep O π i s s' ∧ r = X.reply c (s.view X i) ∧ s' = s.afterStmt X i c := by
  have howned := hinv.owned.exec he
  have hguar := holding_of_exec (O := O) hinv.owned he
  obtain ⟨-, rfl, rfl⟩ := exec_stmt he
  exact ⟨⟨⟨howned, hinv.good⟩, hguar, fun k => π.move_refl k _⟩, rfl, rfl⟩

theorem HistoryInv.step_commit (hinv : HistoryInv O π s) {b : β} {r : Unit} (hedited : Edited O E s i)
    (hkeeps : π.Keeps X ⟨i, s.pending i, b⟩ E)
    (he : X.exec i (.commit b : Cmd C β) s = some (r, s')) :
    HistoryStep O π i s s' ∧ s' = s.afterCommit X i b := by
  have howned := hinv.owned.exec he
  have hguar := holding_of_exec (O := O) hinv.owned he
  obtain rfl := exec_commit he
  have hafter := hinv.afterCommit hedited hkeeps
  exact ⟨⟨⟨howned, fun k => (hafter k).1⟩, hguar, fun k => (hafter k).2⟩, rfl⟩

theorem HistoryInv.step_rollback (hinv : HistoryInv O π s) {r : Unit}
    (he : X.exec i (.rollback : Cmd C β) s = some (r, s')) :
    HistoryStep O π i s s' ∧ s' = s.afterRollback i := by
  have howned := hinv.owned.exec he
  have hguar := holding_of_exec (O := O) hinv.owned he
  obtain rfl := exec_rollback (X := X) he
  exact ⟨⟨⟨howned, hinv.good⟩, hguar, fun k => π.move_refl k _⟩, rfl⟩

theorem HistoryInv.step_auto (hinv : HistoryInv O π s) {c : C} {r : R c}
    (hrows : ∀ k, π.good k s.history (O.obs k (X.applyAll (X.writes c s.committed) s.committed)) ∧
      π.move k (O.obs k s.committed) (O.obs k (X.applyAll (X.writes c s.committed) s.committed)))
    (he : X.exec i (.auto c : Cmd C β) s = some (r, s')) :
    HistoryStep O π i s s' ∧ r = X.reply c s.committed ∧ s' = s.afterAuto X c := by
  have howned := hinv.owned.exec he
  have hguar := holding_of_exec (O := O) hinv.owned he
  obtain ⟨-, rfl, rfl⟩ := exec_auto he
  exact ⟨⟨⟨howned, fun k => (hrows k).1⟩, hguar, fun k => (hrows k).2⟩, rfl, rfl⟩

/-- **A statement of a transaction.** -/
theorem safe_history_stmt {Q : Except ε α → Server D W κ β ι → Prop} {c : C}
    {f : R c → Prog C R ε α}
    (hrest : ∀ s₁, Holding O i s s₁ → HistoryInv O π s₁ →
      (stmtProtocol (RowSpec.protocol O π)).Safe (X.statements β ι) i Q
        (f (X.reply c (s₁.view X i))) (s₁.afterStmt X i c)) :
    (stmtProtocol (RowSpec.protocol O π)).Safe (X.statements β ι) i Q (.call c f) s := by
  intro s₁ hr hinv
  refine ⟨trivial, fun r s₂ he => ?_⟩
  obtain ⟨hstep, rfl, rfl⟩ := hinv.step_stmt he
  exact ⟨hstep.inv, ⟨hstep.others, hstep.moved⟩, hrest s₁ hr hinv⟩

/-- The first statement of a transaction, when `P` admits it. -/
theorem safe_history_first {P : ι → Cmd C β → Server D W κ β ι → Prop}
    {Q : Except ε α → Server D W κ β ι → Prop} {c : C} {f : R c → Prog C R ε α} {res : α → β}
    (hrest : ∀ s₁, Holding O i s s₁ → HistoryInv O π s₁ → P i (.stmt c) s₁ →
      (RowSpec.protocol O π).Safe ((X.machine β ι).restrict P) i Q
        (transaction res (f (X.reply c (s₁.view X i)))) (s₁.afterStmt X i c)) :
    (RowSpec.protocol O π).Safe ((X.machine β ι).restrict P) i Q
      (transaction res (.call c f)) s := by
  intro s₁ hr hinv
  refine ⟨trivial, fun r s₂ he => ?_⟩
  obtain ⟨hP, he⟩ := Machine.restrict_exec he
  obtain ⟨hstep, rfl, rfl⟩ := hinv.step_stmt he
  exact ⟨hstep.inv, ⟨hstep.others, hstep.moved⟩, hrest s₁ hr hinv hP⟩

/-- **A transaction** whose commit keeps the property. -/
theorem safe_history_transaction {Q : α → Prop} {p : Prog C R ε α} {res : α → β}
    (hp : (stmtProtocol (RowSpec.protocol O π)).Safe (X.statements β ι) i
      (fun o s => ∀ a, o = .ok a →
        (∃ E, Edited O E s i ∧ π.Keeps X ⟨i, s.pending i, res a⟩ E) ∧ Q a) p s) :
    (RowSpec.protocol O π).Safe (X.machine β ι) i
      (fun o s => s.Clear i ∧ ∀ a, o = .ok a → Q a) (transaction res p) s := by
  refine safe_transaction hp (fun a s ha => ?_) fun e s _ => ?_
  · obtain ⟨⟨E, hedited, hkeeps⟩, hQ⟩ := ha a rfl
    intro s₁ hr hinv
    refine ⟨trivial, fun r s₂ he => ?_⟩
    rw [← hr.1.pending] at hkeeps
    obtain ⟨hstep, rfl⟩ := hinv.step_commit (hedited.of_holding hr hinv.owned) hkeeps he
    refine ⟨hstep.inv, ⟨hstep.others, hstep.moved⟩, Server.clear_afterCommit _, fun a' ha' => ?_⟩
    cases ha'
    exact hQ
  · intro s₁ _ hinv
    refine ⟨trivial, fun r s₂ he => ?_⟩
    obtain ⟨hstep, rfl⟩ := hinv.step_rollback he
    exact ⟨hstep.inv, ⟨hstep.others, hstep.moved⟩, Server.clear_afterRollback, fun a' ha' => by cases ha'⟩

/-- **A statement outside a transaction**, when `P` admits it. -/
theorem safe_history_auto {P : ι → Cmd C β → Server D W κ β ι → Prop} {c : C} {Q : R c → Prop}
    (hs : s.Clear i) (h : ∀ s₁, HistoryInv O π s₁ → P i (.auto c) s₁ →
      (∀ k, π.good k s₁.history (O.obs k (X.applyAll (X.writes c s₁.committed) s₁.committed)) ∧
        π.move k (O.obs k s₁.committed)
          (O.obs k (X.applyAll (X.writes c s₁.committed) s₁.committed))) ∧
        Q (X.reply c s₁.committed)) :
    (RowSpec.protocol O π).Safe ((X.machine β ι).restrict P) i
      (fun (o : Except ε (R c)) s => s.Clear i ∧ ∀ a, o = .ok a → Q a) (autocommit c) s := by
  intro s₁ hr hinv
  have hclear := hs.of_keeps hr.1
  refine ⟨trivial, fun r s₂ he => ?_⟩
  obtain ⟨hP, he⟩ := Machine.restrict_exec he
  obtain ⟨hrows, hQ⟩ := h s₁ hinv hP
  obtain ⟨hstep, rfl, rfl⟩ := hinv.step_auto hrows he
  refine ⟨hstep.inv, ⟨hstep.others, hstep.moved⟩, ⟨hclear.pending, hclear.holder⟩, fun a ha => ?_⟩
  cases ha
  exact hQ

omit [DecidableEq κ] in
/-- **Every run of safe threads** keeps the property, and moves every row as it may. -/
theorem RowSpec.run_moved {M : Machine (Cmd C β) (Cmd.Reply R β) ι (Server D W κ β ι)}
    {Q : ι → Except ε α → Server D W κ β ι → Prop}
    {c c' : Config (Cmd C β) (Cmd.Reply R β) ε α ι (Server D W κ β ι)}
    (hQ : ∀ i o s s', Q i o s → Holding O i s s' → Q i o s')
    (h : (RowSpec.protocol O π).AllSafe M Q c) {is : List ι} (hr : c.run M is = some c') :
    (RowSpec.protocol O π).AllSafe M Q c' ∧
      ∀ k, π.move k (O.obs k c.shared.committed) (O.obs k c'.shared.committed) := by
  refine Config.run_invariant (M := M) (I := fun c₁ => (RowSpec.protocol O π).AllSafe M Q c₁ ∧
    ∀ k, π.move k (O.obs k c.shared.committed) (O.obs k c₁.shared.committed)) ?_
    ⟨h, fun k => π.move_refl k _⟩ hr
  rintro j c₁ c₂ ⟨hall, hmoved⟩ hs
  obtain ⟨hall₂, hguar⟩ := hall.step hQ hs
  exact ⟨hall₂, fun k => π.move_trans k _ _ _ (hmoved k) (hguar.2 k)⟩

end Rules

/-! ## Held rows -/

section Held

variable {T : κ → Prop} {k : κ} {x : γ}

variable (O) in
/-- The changes `E` ask something of the rows in `T` only. -/
def Tracks (T : κ → Prop) (E : κ → γ → γ → Prop) : Prop :=
  ∀ k, ¬ T k → ∀ d d', E k (O.obs k d) (O.obs k d')

variable (X) in
/-- The transaction wrote no row of `T` so far. -/
def Untouched (T : κ → Prop) (s : Server D W κ β ι) (i : ι) : Prop := ∀ k, T k → ¬ Touches X s i k

variable (X) in
/-- The statement writes no row of `T`. -/
def Dialect.Leaves (T : κ → Prop) (c : C) : Prop :=
  ∀ d, ∀ w ∈ X.writes c d, ∀ k, T k → X.target w ≠ some k

variable (O) in
/-- The transaction holds the row `k`, sees it as `x`, and wrote no row of `T` so far. -/
structure HoldsRow (T : κ → Prop) (s : Server D W κ β ι) (i : ι) (k : κ) (x : γ) : Prop where
  holder : s.holder k = some i
  view : O.obs k (s.view X i) = x
  untouched : Untouched X T s i

theorem untouched_of_clear (h : s.Clear i) : Untouched X T s i := by
  rintro k - ⟨w, hw, -⟩
  rw [h.pending] at hw
  cases hw

theorem Untouched.of_holding (h : Untouched X T s i) (hr : Holding O i s s') : Untouched X T s' i :=
  fun k hk ht => h k hk (hr.touches.mp ht)

theorem HoldsRow.of_holding (h : HoldsRow O T s i k x) (hr : Holding O i s s') :
    HoldsRow O T s' i k x :=
  ⟨(hr.1.holder k).mpr h.holder, (hr.view h.holder).trans h.view, h.untouched.of_holding hr⟩

theorem HoldsRow.committed (h : HoldsRow O T s i k x) (hk : T k) : O.obs k s.committed = x := by
  rw [← obs_view_of_not_touches (h.untouched k hk)]
  exact h.view

theorem edited_of_untouched (h : Untouched X T s i) (hE : Tracks O T E) : Edited O E s i := by
  intro k hk
  by_cases ht : T k
  · exact absurd hk (h k ht)
  · exact hE k ht _ _

variable [DecidableEq ι] [DecidableEq κ] {c : C}

theorem Untouched.afterStmt (h : Untouched X T s i) (hc : X.Leaves T c) :
    Untouched X T (s.afterStmt X i c) i := by
  intro k hk ht
  rcases touches_afterStmt.mp ht with ht | ⟨w, hw, ht⟩
  · exact h k hk ht
  · exact hc _ w hw k hk ht

theorem holdsRow_of_lock (h : Untouched X T s i) (hk : T k) (hc : X.Leaves T c)
    (hlock : k ∈ X.locks c (s.view X i)) :
    HoldsRow O T (s.afterStmt X i c) i k (O.obs k (s.view X i)) where
  holder := Server.holder_of_lock hlock
  view := by
    rw [obs_view_afterStmt]
    exact O.frame_applyAll (fun w hw => hc _ w hw k hk) _
  untouched := h.afterStmt hc

theorem HoldsRow.afterStmt (h : HoldsRow O T s i k x) (hk : T k) (hc : X.Leaves T c) :
    HoldsRow O T (s.afterStmt X i c) i k x where
  holder := Server.holder_of_held h.holder
  view := by
    rw [obs_view_afterStmt, O.frame_applyAll fun w hw => hc _ w hw k hk]
    exact h.view
  untouched := h.untouched.afterStmt hc

/-- The first write of a row of `T`. -/
theorem Untouched.edited_afterStmt (h : Untouched X T s i) (hE : Tracks O T E)
    (hc : ∀ w ∈ X.writes c (s.view X i), ∀ k', T k' → X.target w = some k' → k' = k)
    (hx : E k (O.obs k s.committed)
      (O.obs k (X.applyAll (X.writes c (s.view X i)) (s.view X i)))) :
    Edited O E (s.afterStmt X i c) i := by
  refine (edited_of_untouched h hE).afterStmt ?_
  rintro k' ⟨w, hw, ht⟩
  by_cases hk' : T k'
  · obtain rfl := hc w hw k' hk' ht
    exact hx
  · exact hE k' hk' _ _

/-- **The write of the held row.** -/
theorem HoldsRow.edited_afterStmt (h : HoldsRow O T s i k x) (hk : T k) (hE : Tracks O T E)
    (hc : ∀ w ∈ X.writes c (s.view X i), ∀ k', T k' → X.target w = some k' → k' = k)
    (hx : E k x (O.obs k (X.applyAll (X.writes c (s.view X i)) (s.view X i)))) :
    Edited O E (s.afterStmt X i c) i :=
  h.untouched.edited_afterStmt hE hc ((h.committed hk).symm ▸ hx)

/-- A statement that writes no row of `T`. -/
theorem Edited.afterStmt_leaves (h : Edited O E s i) (hE : Tracks O T E) (hc : X.Leaves T c) :
    Edited O E (s.afterStmt X i c) i := by
  refine h.afterStmt ?_
  rintro k ⟨w, hw, ht⟩
  by_cases hk : T k
  · exact absurd ht (hc _ w hw k hk)
  · exact hE k hk _ _

/-- A program that writes no row of `T` keeps the changes made so far. -/
theorem safe_history_leaves {p : Prog C R ε α} (hp : p.Only (X.Leaves T)) (hE : Tracks O T E)
    (h : Edited O E s i) :
    (stmtProtocol (RowSpec.protocol O π)).Safe (X.statements β ι) i (fun _ s' => Edited O E s' i)
      p s := by
  induction p generalizing s with
  | ret a => exact h
  | fail e => exact h
  | call c f ih =>
    exact safe_history_stmt fun s₁ hr hinv => ih _ (hp.2 _)
      ((h.of_holding hr hinv.owned).afterStmt_leaves hE hp.1)

end Held

/-! ## The moves in the rely -/

variable (O π)

/-- Every committed row has made a move. -/
def RowSpec.Evolved (s s' : Server D W κ β ι) : Prop :=
  ∀ k, π.move k (O.obs k s.committed) (O.obs k s'.committed)

/-- The protocol of the transactions, with the moves of the rows in the rely. -/
def RowSpec.evolution : Protocol (Cmd C β) ι (Server D W κ β ι) where
  inv := HistoryInv O π
  rely := fun i s s' => Holding O i s s' ∧ π.Evolved O s s'
  guar := fun i s s' => (∀ j, j ≠ i → Holding O j s s') ∧ π.Evolved O s s'
  pre := fun _ _ _ => True
  rely_refl := fun i s => ⟨.refl i s, fun k => π.move_refl k _⟩
  rely_trans := fun _ _ _ _ h h' =>
    ⟨h.1.trans h'.1, fun k => π.move_trans k _ _ _ (h.2 k) (h'.2 k)⟩
  guar_rely := fun _ j _ _ hne _ _ h => ⟨h.1 j (Ne.symm hne), h.2⟩

/-- What is known of the committed rows stays true. -/
def RowSpec.Stable (F : Server D W κ β ι → Prop) : Prop :=
  ∀ s s', F s → π.Evolved O s s' → F s'

variable {O π}

section Rules

variable [DecidableEq ι] [DecidableEq κ]

/-- **A statement of a transaction.** -/
theorem safe_evolving_stmt {Q : Except ε α → Server D W κ β ι → Prop} {c : C}
    {f : R c → Prog C R ε α}
    (hrest : ∀ s₁, Holding O i s s₁ → π.Evolved O s s₁ → HistoryInv O π s₁ →
      (stmtProtocol (RowSpec.evolution O π)).Safe (X.statements β ι) i Q
        (f (X.reply c (s₁.view X i))) (s₁.afterStmt X i c)) :
    (stmtProtocol (RowSpec.evolution O π)).Safe (X.statements β ι) i Q (.call c f) s := by
  intro s₁ hr hinv
  refine ⟨trivial, fun r s₂ he => ?_⟩
  obtain ⟨hstep, rfl, rfl⟩ := hinv.step_stmt he
  exact ⟨hstep.inv, ⟨hstep.others, hstep.moved⟩, hrest s₁ hr.1 hr.2 hinv⟩

/-- **A transaction**, with what is known after its commit. -/
theorem safe_evolving_transaction {Q : Except ε α → Server D W κ β ι → Prop}
    {G : α → Server D W κ β ι → Prop} {p : Prog C R ε α} {res : α → β}
    (hp : (stmtProtocol (RowSpec.evolution O π)).Safe (X.statements β ι) i Q p s)
    (hcommit : ∀ a s, Q (.ok a) s → ∀ s₁, Holding O i s s₁ → HistoryInv O π s₁ →
      (∃ E, Edited O E s₁ i ∧ π.Keeps X ⟨i, s₁.pending i, res a⟩ E) ∧
        G a (s₁.afterCommit X i (res a))) :
    (RowSpec.evolution O π).Safe (X.machine β ι) i
      (fun o s => s.Clear i ∧ ∀ a, o = .ok a → G a s) (transaction res p) s := by
  refine safe_transaction hp (fun a s ha => ?_) fun e s _ => ?_
  · intro s₁ hr hinv
    obtain ⟨⟨E, hedited, hkeeps⟩, hG⟩ := hcommit a s ha s₁ hr.1 hinv
    refine ⟨trivial, fun r s₂ he => ?_⟩
    obtain ⟨hstep, rfl⟩ := hinv.step_commit hedited hkeeps he
    refine ⟨hstep.inv, ⟨hstep.others, hstep.moved⟩, Server.clear_afterCommit _, fun a' ha' => ?_⟩
    cases ha'
    exact hG
  · intro s₁ _ hinv
    refine ⟨trivial, fun r s₂ he => ?_⟩
    obtain ⟨hstep, rfl⟩ := hinv.step_rollback he
    exact ⟨hstep.inv, ⟨hstep.others, hstep.moved⟩, Server.clear_afterRollback, fun a' ha' => by cases ha'⟩

/-- **A statement outside a transaction**, when `P` admits it: it keeps what is known of the
committed rows, and its reply meets `A`. -/
theorem delivers_evolving_auto {P : ι → Cmd C β → Server D W κ β ι → Prop} {c : C}
    {F : Server D W κ β ι → Prop} {A : R c → Prop} (hstable : π.Stable O F)
    (h : ∀ s, HistoryInv O π s → F s → P i (.auto c) s →
      (∀ k, π.good k s.history (O.obs k (X.applyAll (X.writes c s.committed) s.committed)) ∧
        π.move k (O.obs k s.committed) (O.obs k (X.applyAll (X.writes c s.committed) s.committed))) ∧
        A (X.reply c s.committed)) :
    (RowSpec.evolution O π).Delivers ((X.machine β ι).restrict P) (fun s => s.Clear i ∧ F s) i A
      (autocommit c : Session R β ε (R c)) := by
  intro s hs s₁ hr hinv
  have hclear := hs.1.of_keeps hr.1.1
  have hF := hstable s s₁ hs.2 hr.2
  refine ⟨trivial, fun r s₂ he => ?_⟩
  obtain ⟨hP, he⟩ := Machine.restrict_exec he
  obtain ⟨hrows, hA⟩ := h s₁ hinv hF hP
  obtain ⟨hstep, rfl, rfl⟩ := hinv.step_auto hrows he
  refine ⟨hstep.inv, ⟨hstep.others, hstep.moved⟩,
    ⟨⟨hclear.pending, hclear.holder⟩, hstable s₁ _ hF hstep.moved⟩, fun a ha => ?_⟩
  cases ha
  exact hA

omit [DecidableEq κ] in
/-- **Every run of safe threads** keeps the property. -/
theorem RowSpec.run_evolved {M : Machine (Cmd C β) (Cmd.Reply R β) ι (Server D W κ β ι)}
    {c c' : Config (Cmd C β) (Cmd.Reply R β) ε α ι (Server D W κ β ι)}
    (hinv : HistoryInv O π c.shared)
    (hsafe : ∀ i, (RowSpec.evolution O π).Safe M i (fun _ _ => True) (c.threads i) c.shared)
    {is : List ι} (hr : c.run M is = some c') : HistoryInv O π c'.shared :=
  (Protocol.run_safe (T := RowSpec.evolution O π) (Q := fun _ _ _ => True)
    (fun _ _ _ _ _ _ => trivial) ⟨hinv, hsafe⟩ hr).1

end Rules

end Relational
