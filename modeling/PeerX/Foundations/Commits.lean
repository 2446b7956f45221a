import PeerX.Foundations.Transactions

/-!
# What transactions commit

A commit is the writes of one transaction with its result. What holds of them at every successful
end of the transaction's program, for the replies of any database, holds of every commit of every
run: no interleaving can break it.

## Main results

* `Dialect.yields_bind`, `Dialect.yields_tryCatch`, `Dialect.yields_perform`: the rules
* `safe_commit_transaction`, `safe_commit_read`: the rules for the commands of a session
* `run_stays`: what a commit wrote stays
* `run_commitsOnce`: the threads that committed are those that returned, each once
-/

namespace Relational

open Concurrency

variable {C : Type} {R : C → Type} {D W κ β ε α γ ι : Type}

/-- Every end of the program meets `Q`, with the writes of its statements, for the replies of
any database. -/
abbrev Dialect.Yields (X : Dialect C R D W κ) (Q : List W → Except ε α → Prop) (ws : List W)
    (p : Prog C R ε α) : Prop :=
  X.Issues (fun _ _ _ => True) Q ws p

namespace Dialect

variable {X : Dialect C R D W κ} {ws : List W}

theorem yields_bind {Q : List W → Except ε γ → Prop} {p : Prog C R ε α} {f : α → Prog C R ε γ}
    (h : X.Yields (fun ws o => match o with
      | .ok a => X.Yields Q ws (f a)
      | .error e => Q ws (.error e)) ws p) : X.Yields Q ws (p >>= f) :=
  issues_bind h

theorem yields_tryCatch {Q : List W → Except ε α → Prop} {p : Prog C R ε α} {f : ε → Prog C R ε α}
    (h : X.Yields (fun ws o => match o with
      | .ok a => Q ws (.ok a)
      | .error e => X.Yields Q ws (f e)) ws p) : X.Yields Q ws (tryCatch p f) := by
  induction p generalizing ws with
  | ret a => exact h
  | fail e => exact h
  | call c k ih => exact ⟨trivial, fun d => ih _ (h.2 d)⟩

theorem yields_of_forall {Q : List W → Except ε α → Prop} (h : ∀ ws o, Q ws o)
    {p : Prog C R ε α} : X.Yields Q ws p := by
  induction p generalizing ws with
  | ret a => exact h _ _
  | fail e => exact h _ _
  | call c k ih => exact ⟨trivial, fun d => ih _⟩

theorem yields_of_mem {Q : List W → Except ε α → Prop} {w : W} (hw : w ∈ ws)
    (h : ∀ ws o, w ∈ ws → Q ws o) {p : Prog C R ε α} : X.Yields Q ws p := by
  induction p generalizing ws with
  | ret a => exact h _ _ hw
  | fail e => exact h _ _ hw
  | call c k ih => exact ⟨trivial, fun d => ih _ (List.mem_append_left _ hw)⟩

theorem yields_perform {Q : List W → Except ε α → Prop} {c : C} {f : R c → Prog C R ε α}
    (h : ∀ d, X.Yields Q (ws ++ X.writes c d) (f (X.reply c d))) :
    X.Yields Q ws (Prog.perform c >>= f) :=
  ⟨trivial, h⟩

end Dialect

/-- Every commit meets `P`. -/
def Committed (P : ι → List W → β → Prop) (s : Server D W κ β ι) : Prop :=
  ∀ r ∈ s.history, P r.thread r.writes r.result

/-- The protocol of the commits. -/
def commitProtocol (P : ι → List W → β → Prop) : Protocol (Cmd C β) ι (Server D W κ β ι) where
  inv := Committed P
  rely := Server.Keeps
  guar := fun i s s' => ∀ j, j ≠ i → Server.Keeps j s s'
  pre := fun _ _ _ => True
  rely_refl := Server.Keeps.refl
  rely_trans := fun _ _ _ _ => Server.Keeps.trans
  guar_rely := fun _ j _ _ hne _ _ h => h j (Ne.symm hne)

variable [DecidableEq ι] [DecidableEq κ] {X : Dialect C R D W κ} {P : ι → List W → β → Prop}
  {s : Server D W κ β ι} {i : ι}

omit [DecidableEq κ] in
theorem Committed.afterCommit (h : Committed P s) {b : β} (hb : P i (s.pending i) b) :
    Committed P (s.afterCommit X i b) := by
  intro r hr
  rcases List.mem_append.mp hr with hr | hr
  · exact h r hr
  · obtain rfl : r = ⟨i, s.pending i, b⟩ := by simpa using hr
    exact hb

/-- The rest of a transaction, with the writes it has pending. -/
theorem safe_commit_rest {p : Prog C R ε α} {res : α → β}
    (hp : X.Yields (fun ws o => ∀ a, o = .ok a → P i ws (res a)) (s.pending i) p) :
    (commitProtocol P).Safe (X.machine β ι) i (fun _ s' => s'.pending i = [])
      (transaction res p) s := by
  induction p generalizing s with
  | ret a =>
    intro s₁ hr hinv
    refine ⟨trivial, fun r s₂ he => ?_⟩
    replace he : X.exec i (.commit (res a)) s₁ = some (r, s₂) := he
    have hguar : ∀ j, j ≠ i → Server.Keeps j s₁ s₂ := fun j hj => Server.keeps_of_exec he hj
    obtain rfl := exec_commit he
    refine ⟨hinv.afterCommit ?_, hguar, Function.update_self ..⟩
    rw [hr.pending]
    exact hp a rfl
  | fail e =>
    intro s₁ _ hinv
    refine ⟨trivial, fun r s₂ he => ?_⟩
    replace he : X.exec i (.rollback : Cmd C β) s₁ = some (r, s₂) := he
    have hguar : ∀ j, j ≠ i → Server.Keeps j s₁ s₂ := fun j hj => Server.keeps_of_exec he hj
    obtain rfl := exec_rollback (X := X) he
    exact ⟨hinv, hguar, Function.update_self ..⟩
  | call c k ih =>
    intro s₁ hr hinv
    refine ⟨trivial, fun r s₂ he => ?_⟩
    replace he : X.exec i (.stmt c : Cmd C β) s₁ = some (r, s₂) := he
    have hguar : ∀ j, j ≠ i → Server.Keeps j s₁ s₂ := fun j hj => Server.keeps_of_exec he hj
    obtain ⟨-, rfl, rfl⟩ := exec_stmt he
    refine ⟨hinv, hguar, ih _ ?_⟩
    rw [Server.pending_afterStmt, hr.pending]
    exact hp.2 _

/-- **A transaction** commits what its program ends with. -/
theorem safe_commit_transaction {p : Prog C R ε α} {res : α → β} (hs : s.pending i = [])
    (hp : X.Yields (fun ws o => ∀ a, o = .ok a → P i ws (res a)) [] p) :
    (commitProtocol P).Safe (X.machine β ι) i (fun _ s' => s'.pending i = [])
      (transaction res p) s :=
  safe_commit_rest (hs ▸ hp)

/-- **A statement outside a transaction** commits nothing, and replies from the rows it finds. -/
theorem safe_commit_read {c : C} (hs : s.pending i = []) :
    (commitProtocol P).Safe (X.machine β ι) i (fun (o : Except ε (R c)) s' => s'.pending i = [] ∧
      ∀ r, o = .ok r → ∃ d, r = X.reply c d) (autocommit c) s := by
  intro s₁ hr hinv
  refine ⟨trivial, fun r s₂ he => ?_⟩
  replace he : X.exec i (.auto c : Cmd C β) s₁ = some (r, s₂) := he
  have hguar : ∀ j, j ≠ i → Server.Keeps j s₁ s₂ := fun j hj => Server.keeps_of_exec he hj
  obtain ⟨-, hreply, rfl⟩ := exec_auto he
  refine ⟨hinv, hguar, hr.pending.trans hs, fun r' hr' => ⟨s₁.committed, ?_⟩⟩
  cases hr'
  exact hreply

theorem safe_commit_auto {c : C} (hs : s.pending i = []) :
    (commitProtocol P).Safe (X.machine β ι) i
      (fun (_ : Except ε (R c)) s' => s'.pending i = []) (autocommit c) s :=
  Protocol.safe_mono (fun _ _ h => h.1) (safe_commit_read hs)

omit [DecidableEq κ] in
theorem stays_applyAll {S : W → D → Prop} (hset : ∀ w d, S w (X.apply w d))
    (hkeep : ∀ w w' d, S w d → S w (X.apply w' d)) {w : W} {ws : List W} {d : D} (h : w ∈ ws ∨ S w d) :
    S w (X.applyAll ws d) := by
  induction ws generalizing d with
  | nil => exact h.resolve_left List.not_mem_nil
  | cons w' ws ih =>
    refine ih ?_
    rcases h with h | h
    · obtain rfl | h := List.mem_cons.mp h
      · exact .inr (hset w d)
      · exact .inl h
    · exact .inr (hkeep w w' d h)

/-- **What a commit wrote S**, if no write takes away what another one has set. -/
theorem run_stays {S : W → D → Prop} (hset : ∀ w d, S w (X.apply w d))
    (hkeep : ∀ w w' d, S w d → S w (X.apply w' d)) {p : ι → Session R β ε α} {d₀ : D} {is : List ι}
    {c : Clients R D W κ β ε α ι}
    (hr : (⟨Server.idle d₀, p⟩ : Clients R D W κ β ε α ι).run (X.machine β ι) is = some c) :
    ∀ r ∈ c.shared.history, ∀ w ∈ r.writes, S w c.shared.committed := by
  refine Config.run_invariant
    (I := fun c : Clients R D W κ β ε α ι => ∀ r ∈ c.shared.history, ∀ w ∈ r.writes, S w c.shared.committed)
    (fun i c c' h hs => ?_) (fun r hr => by cases hr) hr
  obtain ⟨cmd, k, a, s, -, he, rfl⟩ := Config.step_eq_some.mp hs
  have hall : ∀ ws, ∀ r ∈ c.shared.history, ∀ w ∈ r.writes, S w (X.applyAll ws c.shared.committed) :=
    fun ws r hr w hw => stays_applyAll hset hkeep (.inr (h r hr w hw))
  cases cmd with
  | stmt cmd =>
    obtain ⟨-, -, rfl⟩ := exec_stmt he
    exact h
  | auto cmd =>
    obtain ⟨-, -, rfl⟩ := exec_auto he
    exact hall _
  | rollback =>
    obtain rfl := exec_rollback (X := X) he
    exact h
  | commit b =>
    obtain rfl := exec_commit he
    intro r hr
    rcases List.mem_append.mp hr with hr | hr
    · exact hall _ r hr
    · obtain rfl := List.mem_singleton.mp hr
      exact fun w hw => stays_applyAll hset hkeep (.inl hw)

/-- The session commits once, and returns right after; without a commit it fails. -/
def CommitsOnce : Session R β ε α → Prop
  | .ret _ => False
  | .fail _ => True
  | .call (.stmt _) k => ∀ r, CommitsOnce (k r)
  | .call (.auto _) k => ∀ r, CommitsOnce (k r)
  | .call (.commit _) k => ∀ r, ∃ a, k r = .ret a
  | .call .rollback k => ∀ r, CommitsOnce (k r)

omit [DecidableEq ι] [DecidableEq κ] in
theorem commitsOnce_transaction (res : α → β) (f : α → γ) (p : Prog C R ε α) :
    CommitsOnce (transaction res p >>= fun a => pure (f a)) := by
  induction p with
  | ret a => exact fun _ => ⟨f a, rfl⟩
  | fail e => exact fun _ => trivial
  | call c k ih => exact ih

omit [DecidableEq ι] [DecidableEq κ] in
theorem not_commitsOnce_ret {p : Session R β ε α} {a : α} (h : CommitsOnce p) : p ≠ .ret a := by
  rintro rfl
  exact h

/-- Threads that commit once: those that committed are those that returned. -/
structure OnceCommitted (c : Clients R D W κ β ε α ι) : Prop where
  nodup : (c.shared.history.map Commit.thread).Nodup
  returned : ∀ i, i ∈ c.shared.history.map Commit.thread ↔ ∃ a, c.threads i = .ret a
  running : ∀ i, (∃ a, c.threads i = .ret a) ∨ CommitsOnce (c.threads i)

omit [DecidableEq κ] in
theorem OnceCommitted.update {c : Clients R D W κ β ε α ι} (h : OnceCommitted c) {j : ι}
    {t : Session R β ε α} {s' : Server D W κ β ι} (hhist : s'.history = c.shared.history)
    (hj : CommitsOnce (c.threads j)) (ht : CommitsOnce t) :
    OnceCommitted (⟨s', Function.update c.threads j t⟩ : Clients R D W κ β ε α ι) := by
  refine ⟨hhist ▸ h.nodup, fun i => ?_, fun i => ?_⟩
  · rw [hhist, h.returned i]
    by_cases hi : i = j
    · subst hi
      refine iff_of_false ?_ ?_
      · rintro ⟨a, ha⟩
        exact not_commitsOnce_ret hj ha
      · rintro ⟨a, ha⟩
        exact not_commitsOnce_ret ht ((Function.update_self i t c.threads).symm.trans ha)
    · show _ ↔ ∃ a, Function.update c.threads j t i = .ret a
      rw [Function.update_of_ne hi]
  · by_cases hi : i = j
    · subst hi
      refine .inr ?_
      show CommitsOnce (Function.update c.threads i t i)
      rw [Function.update_self]
      exact ht
    · show (∃ a, Function.update c.threads j t i = .ret a) ∨
        CommitsOnce (Function.update c.threads j t i)
      rw [Function.update_of_ne hi]
      exact h.running i

theorem OnceCommitted.step {c c' : Clients R D W κ β ε α ι} (h : OnceCommitted c) {j : ι}
    (hs : c.step (X.machine β ι) j = some c') : OnceCommitted c' := by
  obtain ⟨cmd, k, r, s, hk, he, rfl⟩ := Config.step_eq_some.mp hs
  have hj : CommitsOnce (c.threads j) := by
    rcases h.running j with ⟨a, ha⟩ | hj
    · rw [hk] at ha
      cases ha
    · exact hj
  have hk' : CommitsOnce (.call cmd k : Session R β ε α) := hk ▸ hj
  cases cmd with
  | stmt cmd =>
    obtain ⟨-, -, rfl⟩ := exec_stmt he
    exact h.update rfl hj (hk' r)
  | auto cmd =>
    obtain ⟨-, -, rfl⟩ := exec_auto he
    exact h.update rfl hj (hk' r)
  | rollback =>
    obtain rfl := exec_rollback (X := X) he
    exact h.update rfl hj (hk' r)
  | commit b =>
    -- a thread returns when it commits, and not before
    obtain rfl := exec_commit he
    obtain ⟨a, ha⟩ := hk' r
    have hnot : j ∉ c.shared.history.map Commit.thread := by
      rw [h.returned j]
      rintro ⟨a, ha⟩
      exact not_commitsOnce_ret hj ha
    refine ⟨Server.nodup_threads_afterCommit b h.nodup hnot, fun i => ?_, fun i => ?_⟩
    · rw [ha]
      exact Server.returned_afterCommit b a h.returned i
    · by_cases hi : i = j
      · subst hi
        exact .inl ⟨a, (Function.update_self ..).trans ha⟩
      · show (∃ a, Function.update c.threads j (k r) i = .ret a) ∨
          CommitsOnce (Function.update c.threads j (k r) i)
        rw [Function.update_of_ne hi]
        exact h.running i

/-- **The threads that committed are those that returned**, each once. -/
theorem run_commitsOnce {p : ι → Session R β ε α} (hp : ∀ i, CommitsOnce (p i)) {d₀ : D}
    {is : List ι} {c : Clients R D W κ β ε α ι}
    (hr : (⟨Server.idle d₀, p⟩ : Clients R D W κ β ε α ι).run (X.machine β ι) is = some c) :
    (c.shared.history.map Commit.thread).Nodup ∧
      ∀ i, i ∈ c.shared.history.map Commit.thread ↔ ∃ a, c.threads i = .ret a := by
  have hstart : OnceCommitted (⟨Server.idle d₀, p⟩ : Clients R D W κ β ε α ι) := by
    refine ⟨List.nodup_nil, fun i => ?_, fun i => .inr (hp i)⟩
    refine iff_of_false (fun h => by cases h) ?_
    rintro ⟨a, ha⟩
    exact not_commitsOnce_ret (hp i) ha
  have hend := Config.run_invariant (I := OnceCommitted) (fun i c c' h hs => h.step hs) hstart hr
  exact ⟨hend.nodup, hend.returned⟩

end Relational
