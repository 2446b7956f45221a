import PeerX.Foundations.Transactions

/-!
# Invariants of locked rows

A row lock protects what can be observed of the database at its key. An invariant is a property of
every observation. A transaction holds the rows it wrote, so it may break the invariant on them, as
long as it holds of all of them again when it commits; no other transaction sees the difference.
-/

namespace Relational

open Concurrency

variable {C : Type} {R : C → Type} {D W κ β ε α ι γ : Type}

/-- What a row lock protects: an observation at each key, which no write to another row changes
and which depends on no other observation. -/
structure Dialect.Rows (X : Dialect C R D W κ) (γ : Type) where
  obs : κ → D → γ
  frame : ∀ {w d k}, X.target w ≠ some k → obs k (X.apply w d) = obs k d
  congr : ∀ {w d d' k}, obs k d = obs k d' → obs k (X.apply w d) = obs k (X.apply w d')

variable {X : Dialect C R D W κ} (O : X.Rows γ) (good : κ → γ → Prop)

namespace Dialect.Rows

variable {O}

theorem congr_applyAll {d d' : D} {k : κ} (ws : List W) (h : O.obs k d = O.obs k d') :
    O.obs k (X.applyAll ws d) = O.obs k (X.applyAll ws d') := by
  induction ws generalizing d d' with
  | nil => exact h
  | cons w ws ih => exact ih (O.congr h)

theorem frame_applyAll {ws : List W} {k : κ} (h : ∀ w ∈ ws, X.target w ≠ some k) (d : D) :
    O.obs k (X.applyAll ws d) = O.obs k d :=
  X.applyAll_obs (O.obs k) (fun w hw _ => O.frame (h w hw)) d

end Dialect.Rows

/-- The transaction wrote to the row `k`. -/
def Touches (X : Dialect C R D W κ) (s : Server D W κ β ι) (i : ι) (k : κ) : Prop :=
  ∃ w ∈ s.pending i, X.target w = some k

/-- The invariant holds of the rows the transaction wrote, as it sees them. -/
def Settled (s : Server D W κ β ι) (i : ι) : Prop :=
  ∀ k, Touches X s i k → good k (O.obs k (s.view X i))

/-- The invariant: of the committed rows, with every pending write to a held row. -/
structure RowsInv (s : Server D W κ β ι) : Prop where
  owned : s.Owned X
  committed : ∀ k, good k (O.obs k s.committed)

/-- What a transaction relies on: its writes and locks are its own, and so are the rows it holds. -/
def Holding (i : ι) (s s' : Server D W κ β ι) : Prop :=
  Server.Keeps i s s' ∧ ∀ k, s.holder k = some i → O.obs k s'.committed = O.obs k s.committed

variable {O good} {s s' s'' : Server D W κ β ι} {i j : ι} {k : κ}

theorem Holding.refl (i : ι) (s : Server D W κ β ι) : Holding O i s s :=
  ⟨.refl i s, fun _ _ => rfl⟩

theorem Holding.trans (h : Holding O i s s') (h' : Holding O i s' s'') : Holding O i s s'' :=
  ⟨h.1.trans h'.1, fun k hk => (h'.2 k ((h.1.holder k).mpr hk)).trans (h.2 k hk)⟩

theorem Holding.view (h : Holding O i s s') (hk : s.holder k = some i) :
    O.obs k (s'.view X i) = O.obs k (s.view X i) := by
  rw [Server.view, h.1.pending, O.congr_applyAll _ (h.2 k hk)]
  rfl

theorem Holding.touches (h : Holding O i s s') : Touches X s' i k ↔ Touches X s i k := by
  unfold Touches
  rw [h.1.pending]

theorem Settled.of_holding (h : Settled O good s i) (hr : Holding O i s s') (ho : s'.Owned X) :
    Settled O good s' i := by
  intro k hk
  obtain ⟨w, hw, ht⟩ := hk
  rw [hr.view ((hr.1.holder k).mp (ho i w k hw ht))]
  exact h k (hr.touches.mp ⟨w, hw, ht⟩)

theorem settled_of_clear (h : s.Clear i) : Settled O good s i := by
  rintro k ⟨w, hw, -⟩
  rw [h.pending] at hw
  cases hw

theorem rowsInv_idle {d : D} (hd : ∀ k, good k (O.obs k d)) :
    RowsInv O good (Server.idle d : Server D W κ β ι) :=
  ⟨Server.owned_idle d, hd⟩

/-- A row the transaction did not write looks as it is committed. -/
theorem obs_view_of_not_touches (h : ¬ Touches X s i k) :
    O.obs k (s.view X i) = O.obs k s.committed :=
  O.frame_applyAll (fun w hw ht => h ⟨w, hw, ht⟩) _

/-- A settled transaction sees the invariant everywhere. -/
theorem RowsInv.good_view (h : RowsInv O good s) (hs : Settled O good s i) (k : κ) :
    good k (O.obs k (s.view X i)) := by
  by_cases hk : Touches X s i k
  · exact hs k hk
  · rw [obs_view_of_not_touches hk]
    exact h.committed k

variable (O good) in
/-- The protocol of the transactions, with a condition `pre` on the statements about to be
executed. No transaction is open at a statement outside one. -/
def rowsProtocol (pre : ι → C → Server D W κ β ι → Prop) :
    Protocol (Cmd C β) ι (Server D W κ β ι) where
  inv := RowsInv O good
  rely := Holding O
  guar := fun i s s' => ∀ j, j ≠ i → Holding O j s s'
  pre := fun i cmd s => (∀ c, cmd = .stmt c → pre i c s) ∧ ∀ c, cmd = .auto c → s.Clear i
  rely_refl := Holding.refl
  rely_trans := fun _ _ _ _ => Holding.trans
  guar_rely := fun _ j _ _ hne _ _ h => h j (Ne.symm hne)

section Commands

variable [DecidableEq ι] [DecidableEq κ]

theorem holding_of_exec (hs : s.Owned X) {cmd : Cmd C β} {r : Cmd.Reply R β cmd}
    (he : X.exec i cmd s = some (r, s')) (j : ι) (hj : j ≠ i) : Holding O j s s' :=
  ⟨Server.keeps_of_exec he hj, fun _ hk =>
    Server.row_stable (O.obs _) (fun _ _ hw => O.frame hw) hs hk hj he⟩

/-- What a row looks like after a statement: the statement's writes on what it looked like. -/
theorem obs_view_afterStmt (c : C) :
    O.obs k ((s.afterStmt X i c).view X i) =
      O.obs k (X.applyAll (X.writes c (s.view X i)) (s.view X i)) := by
  rw [Server.view_afterStmt]
  rfl

/-- The rows written after a statement: those before, and those the statement writes. -/
theorem touches_afterStmt {c : C} : Touches X (s.afterStmt X i c) i k ↔
    Touches X s i k ∨ ∃ w ∈ X.writes c (s.view X i), X.target w = some k := by
  unfold Touches
  rw [Server.pending_afterStmt]
  constructor
  · rintro ⟨w, hw, ht⟩
    exact (List.mem_append.mp hw).imp (fun hw => ⟨w, hw, ht⟩) fun hw => ⟨w, hw, ht⟩
  · rintro (⟨w, hw, ht⟩ | ⟨w, hw, ht⟩)
    · exact ⟨w, List.mem_append_left _ hw, ht⟩
    · exact ⟨w, List.mem_append_right _ hw, ht⟩

/-- A statement that writes no row another transaction can name leaves a transaction settled. -/
theorem Settled.afterStmt (h : Settled O good s i) {c : C}
    (hc : ∀ w ∈ X.writes c (s.view X i), X.target w = none) :
    Settled O good (s.afterStmt X i c) i := by
  intro k hk
  have hframe : ∀ w ∈ X.writes c (s.view X i), X.target w ≠ some k := by
    intro w hw
    simp [hc w hw]
  rw [obs_view_afterStmt, O.frame_applyAll hframe]
  exact h k ((touches_afterStmt.mp hk).resolve_right fun ⟨w, hw, ht⟩ => hframe w hw ht)

variable (O good) in
/-- The transaction is settled but for the row `k`, which it holds and sees as `x`. -/
structure SettledBut (s : Server D W κ β ι) (i : ι) (k : κ) (x : γ) : Prop where
  holder : s.holder k = some i
  obs : O.obs k (s.view X i) = x
  others : ∀ k', k' ≠ k → Touches X s i k' → good k' (O.obs k' (s.view X i))

variable {x : γ}

omit [DecidableEq ι] [DecidableEq κ] in
theorem SettledBut.of_holding (h : SettledBut O good s i k x) (hr : Holding O i s s')
    (ho : s'.Owned X) : SettledBut O good s' i k x := by
  refine ⟨(hr.1.holder k).mpr h.holder, (hr.view h.holder).trans h.obs, ?_⟩
  rintro k' hne ⟨w, hw, ht⟩
  rw [hr.view ((hr.1.holder k').mp (ho i w k' hw ht))]
  exact h.others k' hne (hr.touches.mp ⟨w, hw, ht⟩)

omit [DecidableEq ι] [DecidableEq κ] in
/-- The transaction is settled when the invariant holds of that row. -/
theorem SettledBut.settle (h : SettledBut O good s i k x) (hx : good k x) : Settled O good s i := by
  intro k' hk'
  by_cases hne : k' = k
  · subst hne
    rw [h.obs]
    exact hx
  · exact h.others k' hne hk'

/-- A statement that writes the row `k` alone. -/
theorem settledBut_afterStmt {c : C}
    (hothers : ∀ k', k' ≠ k → Touches X s i k' → good k' (O.obs k' (s.view X i)))
    (hheld : s.holder k = some i ∨ k ∈ X.locks c (s.view X i))
    (hc : ∀ w ∈ X.writes c (s.view X i), X.target w = some k) :
    SettledBut O good (s.afterStmt X i c) i k
      (O.obs k (X.applyAll (X.writes c (s.view X i)) (s.view X i))) := by
  refine ⟨hheld.elim Server.holder_of_held Server.holder_of_lock, obs_view_afterStmt c, ?_⟩
  · intro k' hne hk'
    have hframe : ∀ w ∈ X.writes c (s.view X i), X.target w ≠ some k' := by
      intro w hw ht
      exact hne (Option.some.inj (ht.symm.trans (hc w hw)))
    rw [obs_view_afterStmt, O.frame_applyAll hframe]
    exact hothers k' hne ((touches_afterStmt.mp hk').resolve_right fun ⟨w, hw, ht⟩ => hframe w hw ht)

variable {pre : ι → C → Server D W κ β ι → Prop}

/-- A statement of a transaction. -/
theorem safe_rows_stmt {Q : Except ε α → Server D W κ β ι → Prop} {c : C} {f : R c → Prog C R ε α}
    (hpre : ∀ s₁, Holding O i s s₁ → RowsInv O good s₁ → pre i c s₁)
    (hrest : ∀ s₁, Holding O i s s₁ → RowsInv O good s₁ →
      (stmtProtocol (rowsProtocol O good pre)).Safe (X.statements β ι) i Q
        (f (X.reply c (s₁.view X i))) (s₁.afterStmt X i c)) :
    (stmtProtocol (rowsProtocol O good pre)).Safe (X.statements β ι) i Q (.call c f) s := by
  intro s₁ hr hinv
  refine ⟨⟨fun c' hc' => Cmd.stmt.inj hc' ▸ hpre s₁ hr hinv, fun c' hc' => by cases hc'⟩,
    fun r s₂ he => ?_⟩
  replace he : X.exec i (.stmt c : Cmd C β) s₁ = some (r, s₂) := he
  have howned := hinv.owned.exec he
  have hguar := holding_of_exec (O := O) hinv.owned he
  obtain ⟨-, rfl, rfl⟩ := exec_stmt he
  exact ⟨⟨howned, hinv.committed⟩, hguar, hrest s₁ hr hinv⟩

/-- A transaction that ends settled keeps the invariant. -/
theorem safe_rows_transaction {Q : α → Prop} {p : Prog C R ε α} {res : α → β}
    (hp : (stmtProtocol (rowsProtocol O good pre)).Safe (X.statements β ι) i
      (fun o s => ∀ a, o = .ok a → Settled O good s i ∧ Q a) p s) :
    (rowsProtocol O good pre).Safe (X.machine β ι) i
      (fun o s => s.Clear i ∧ ∀ a, o = .ok a → Q a) (transaction res p) s := by
  refine safe_transaction hp (fun a s ha => ?_) fun e s _ => ?_
  · obtain ⟨hsettled, hQ⟩ := ha a rfl
    intro s₁ hr hinv
    refine ⟨⟨fun c hc => (by cases hc), fun c hc => by cases hc⟩, fun r s₂ he => ?_⟩
    replace he : X.exec i (.commit (res a)) s₁ = some (r, s₂) := he
    have howned := hinv.owned.exec he
    have hguar := holding_of_exec (O := O) hinv.owned he
    obtain rfl := exec_commit he
    refine ⟨⟨howned, fun k => ?_⟩, hguar, Server.clear_afterCommit _, fun a' ha' => ?_⟩
    · exact hinv.good_view (hsettled.of_holding hr hinv.owned) k
    · cases ha'
      exact hQ
  · intro s₁ _ hinv
    refine ⟨⟨fun c hc => (by cases hc), fun c hc => by cases hc⟩, fun r s₂ he => ?_⟩
    replace he : X.exec i (.rollback : Cmd C β) s₁ = some (r, s₂) := he
    have howned := hinv.owned.exec he
    have hguar := holding_of_exec (O := O) hinv.owned he
    obtain rfl := exec_rollback (X := X) he
    exact ⟨⟨howned, hinv.committed⟩, hguar, Server.clear_afterRollback, fun a' ha' => by cases ha'⟩

/-- A statement outside a transaction, when `P` admits it. -/
theorem safe_rows_auto {P : ι → Cmd C β → Server D W κ β ι → Prop} {c : C} {Q : R c → Prop}
    (hs : s.Clear i) (h : ∀ s₁, RowsInv O good s₁ → P i (.auto c) s₁ →
      (∀ k, good k (O.obs k (X.applyAll (X.writes c s₁.committed) s₁.committed))) ∧
        Q (X.reply c s₁.committed)) :
    (rowsProtocol O good pre).Safe ((X.machine β ι).restrict P) i
      (fun (o : Except ε (R c)) s => s.Clear i ∧ ∀ a, o = .ok a → Q a) (autocommit c) s := by
  intro s₁ hr hinv
  have hclear := hs.of_keeps hr.1
  refine ⟨⟨fun c' hc' => (by cases hc'), fun _ _ => hclear⟩, fun r s₂ he => ?_⟩
  obtain ⟨hP, he⟩ := Machine.restrict_exec he
  replace he : X.exec i (.auto c : Cmd C β) s₁ = some (r, s₂) := he
  have howned := hinv.owned.exec he
  have hguar := holding_of_exec (O := O) hinv.owned he
  obtain ⟨hgood, hQ⟩ := h s₁ hinv hP
  obtain ⟨-, rfl, rfl⟩ := exec_auto he
  refine ⟨⟨howned, hgood⟩, hguar, ⟨hclear.pending, hclear.holder⟩, fun a ha => ?_⟩
  cases ha
  exact hQ

end Commands

end Relational
