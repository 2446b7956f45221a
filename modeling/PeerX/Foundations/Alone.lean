import PeerX.Foundations.ReadCommitted

/-!
# Sessions that run alone

What a session does on a database that no other session uses: the statements of a transaction act on
a copy of the rows, which the commit publishes and the rollback drops.
-/

namespace Relational

open Concurrency

variable {C : Type} {R : C → Type} {D W κ β ε α γ : Type}

namespace Dialect

variable (X : Dialect C R D W κ)

/-- A command of a session run alone, on the committed rows and those its transaction sees. -/
def alone : (c : Cmd C β) → D × D → Cmd.Reply R β c × (D × D)
  | .stmt c, (d, w) => (X.reply c w, (d, X.applyAll (X.writes c w) w))
  | .auto c, (d, _) =>
    (X.reply c d, (X.applyAll (X.writes c d) d, X.applyAll (X.writes c d) d))
  | .commit _, (_, w) => ((), (w, w))
  | .rollback, (d, _) => ((), (d, d))

/-- On the rows `d`, the session ends with `o`, and leaves the rows `d'` with no transaction
open. -/
def Does (p : Session R β ε α) (d : D) (o : Except ε α) (d' : D) : Prop :=
  p.eval X.alone (d, d) = (o, (d', d'))

variable {X} {d d₁ d' : D} {o : Except ε α}

theorem does_ret (a : α) (d : D) : X.Does (.ret a : Session R β ε α) d (.ok a) d := rfl

theorem Does.bind {p : Session R β ε γ} {f : γ → Session R β ε α} {b : γ}
    (h : X.Does p d (.ok b) d₁) (h' : X.Does (f b) d₁ o d') : X.Does (p >>= f) d o d' := by
  rw [Does, Prog.eval_bind, h]
  exact h'

theorem does_autocommit (c : C) (d : D) :
    X.Does (autocommit c : Session R β ε (R c)) d (.ok (X.reply c d))
      (X.applyAll (X.writes c d) d) :=
  rfl

theorem eval_transaction (res : α → β) (p : Prog C R ε α) (d w : D) :
    (transaction res p).eval X.alone (d, w) =
      match p.eval X.handler w with
      | (.ok a, w') => (.ok a, (w', w'))
      | (.error e, _) => (.error e, (d, d)) := by
  induction p generalizing w with
  | ret a => rfl
  | fail e => rfl
  | call c k ih => exact ih _ _

/-- A transaction does what its program does. -/
theorem does_transaction {p : Prog C R ε α} {res : α → β} {a : α}
    (h : p.eval X.handler d = (.ok a, d')) : X.Does (transaction res p) d (.ok a) d' := by
  rw [Does, eval_transaction, h]

end Dialect

/-- The session ends its transactions, and issues no statement outside one while one is open. -/
def Bracketed : Session R β ε α → Bool → Prop
  | .ret _, b => b = false
  | .fail _, b => b = false
  | .call (.stmt _) k, _ => ∀ r, Bracketed (k r) true
  | .call (.auto _) k, b => b = false ∧ ∀ r, Bracketed (k r) false
  | .call (.commit _) k, _ => Bracketed (k ()) false
  | .call .rollback k, _ => Bracketed (k ()) false

section Brackets

variable {p : Session R β ε α} {b : Bool}

theorem Bracketed.bind {f : α → Session R β ε γ} (hp : Bracketed p b)
    (hf : ∀ a, Bracketed (f a) false) : Bracketed (p >>= f) b := by
  induction p generalizing b with
  | ret a =>
    obtain rfl : b = false := hp
    exact hf a
  | fail e => exact hp
  | call c k ih =>
    cases c with
    | stmt c => exact fun r => ih r (hp r)
    | auto c => exact ⟨hp.1, fun r => ih r (hp.2 r)⟩
    | commit result => exact ih () hp
    | rollback => exact ih () hp

theorem Bracketed.tryCatch {f : ε → Session R β ε α} (hp : Bracketed p b)
    (hf : ∀ e, Bracketed (f e) false) : Bracketed (tryCatch p f) b := by
  induction p generalizing b with
  | ret a => exact hp
  | fail e =>
    obtain rfl : b = false := hp
    exact hf e
  | call c k ih =>
    cases c with
    | stmt c => exact fun r => ih r (hp r)
    | auto c => exact ⟨hp.1, fun r => ih r (hp.2 r)⟩
    | commit result => exact ih () hp
    | rollback => exact ih () hp

theorem bracketed_autocommit (c : C) : Bracketed (autocommit c : Session R β ε (R c)) false :=
  ⟨rfl, fun _ => rfl⟩

theorem bracketed_transaction (res : α → β) (q : Prog C R ε α) :
    Bracketed (transaction res q : Session R β ε α) b := by
  induction q generalizing b with
  | ret a => exact rfl
  | fail e => exact rfl
  | call c k ih => exact fun r => ih r

end Brackets

section Server

variable {ι : Type} [DecidableEq ι] [DecidableEq κ] {X : Dialect C R D W κ} {i : ι}
  {s : Server D W κ β ι}

/-- No thread but `i` holds a row after a step of `i`. -/
theorem free_afterStmt (h : ∀ k, s.Free i k) (c : C) (k : κ) : (s.afterStmt X i c).Free i k := by
  simp only [Server.Free, Server.afterStmt]
  split
  · exact .inr rfl
  · exact h k

omit [DecidableEq κ] in
theorem free_release (h : ∀ k, s.Free i k) (k : κ) :
    s.release i k = none ∨ s.release i k = some i := by
  unfold Server.release
  split
  · exact .inl rfl
  · exact h k

/-- The steps of a thread while no other one takes a step. -/
theorem run_alone {p : Session R β ε α} {b : Bool} (hp : Bracketed p b) (hfree : ∀ k, s.Free i k)
    (hopen : b = false → s.pending i = []) {t : ι → Session R β ε α} (hi : t i = p) :
    ∃ n c, Config.run (X.machine β ι) (List.replicate n i) ⟨s, t⟩ = some c ∧
      (c.shared.committed, c.shared.view X i) = (p.eval X.alone (s.committed, s.view X i)).2 ∧
      ∀ a, (p.eval X.alone (s.committed, s.view X i)).1 = .ok a → c.threads i = .ret a := by
  induction p generalizing b s t with
  | ret a =>
    refine ⟨0, ⟨s, t⟩, rfl, rfl, fun a' ha' => ?_⟩
    cases ha'
    exact hi
  | fail e => exact ⟨0, ⟨s, t⟩, rfl, rfl, fun a ha => by cases ha⟩
  | call c k ih =>
    -- the command is not blocked, and the rest runs from the state it leaves
    have hnext : ∀ {b' : Bool} {r : Cmd.Reply R β c} {s' : Server D W κ β ι},
        X.exec i c s = some (r, s') →
        (r, s'.committed, s'.view X i) = X.alone c (s.committed, s.view X i) →
        Bracketed (k r) b' → (∀ k, s'.Free i k) → (b' = false → s'.pending i = []) →
        ∃ n c', Config.run (X.machine β ι) (List.replicate n i) ⟨s, t⟩ = some c' ∧
          (c'.shared.committed, c'.shared.view X i) =
            ((k (X.alone c (s.committed, s.view X i)).1).eval X.alone
              (X.alone c (s.committed, s.view X i)).2).2 ∧
          ∀ a, ((k (X.alone c (s.committed, s.view X i)).1).eval X.alone
            (X.alone c (s.committed, s.view X i)).2).1 = .ok a → c'.threads i = .ret a := by
      intro b' r s' he halone hk hfree' hopen'
      obtain ⟨n, c', hrun, hstate, hend⟩ := ih r hk hfree' hopen'
        (t := Function.update t i (k r)) (Function.update_self ..)
      rw [← halone]
      refine ⟨n + 1, c', ?_, hstate, hend⟩
      exact Config.run_cons_eq_some.mpr
        ⟨_, Config.step_eq_some.mpr ⟨c, k, r, s', hi, he, rfl⟩, hrun⟩
    cases c with
    | stmt c =>
      have he : X.exec i (.stmt c : Cmd C β) s =
          some (X.reply c (s.view X i), s.afterStmt X i c) := if_pos fun key _ => hfree key
      refine hnext he ?_ (hp _) (free_afterStmt hfree c) (fun hb => by cases hb)
      rw [Server.view_afterStmt]
      rfl
    | auto c =>
      -- outside a transaction the view is the committed state
      have he : X.exec i (.auto c : Cmd C β) s =
          some (X.reply c s.committed, s.afterAuto X c) := if_pos fun key _ => hfree key
      have hpending : s.pending i = [] := hopen hp.1
      refine hnext he ?_ (hp.2 _) hfree (fun _ => hpending)
      simp only [Dialect.alone, Server.afterAuto, Server.view, hpending, Dialect.applyAll_nil]
    | commit result =>
      have he : X.exec i (.commit result : Cmd C β) s = some ((), s.afterCommit X i result) := rfl
      refine hnext he ?_ hp (free_release hfree) fun _ => Function.update_self ..
      simp only [Dialect.alone, Server.afterCommit, Server.view, Function.update_self,
        Dialect.applyAll_nil]
    | rollback =>
      have he : X.exec i (.rollback : Cmd C β) s = some ((), s.afterRollback i) := rfl
      refine hnext he ?_ hp (free_release hfree) fun _ => Function.update_self ..
      simp only [Dialect.alone, Server.afterRollback, Server.view, Function.update_self,
        Dialect.applyAll_nil]

/-- What a session does alone is what the server does when no other thread takes a step. -/
theorem Dialect.Does.run {p : Session R β ε α} {d d' : D} {a : α} (h : X.Does p d (.ok a) d')
    (hp : Bracketed p false) {t : ι → Session R β ε α} (hi : t i = p) :
    ∃ n c, Config.run (X.machine β ι) (List.replicate n i) ⟨Server.idle d, t⟩ = some c ∧
      c.threads i = .ret a ∧ c.shared.committed = d' := by
  have heval : p.eval X.alone (d, d) = (.ok a, (d', d')) := h
  obtain ⟨n, c, hrun, hstate, hend⟩ := run_alone (X := X) (s := Server.idle d) hp
    (fun _ => .inl rfl) (fun _ => rfl) hi
  refine ⟨n, c, hrun, hend a ?_, ?_⟩
  · exact congrArg Prod.fst heval
  · have hcommitted := congrArg Prod.fst hstate
    rw [show (Server.idle d : Server D W κ β ι).view X i = d from rfl,
      show (Server.idle d : Server D W κ β ι).committed = d from rfl, heval] at hcommitted
    exact hcommitted

end Server

end Relational
