import PeerX.Foundations.Observed
import PeerX.Foundations.Interleaving
import PeerX.Margin.Runs

/-!
# Margin: interest runs at the same time

A run of the interest service looks for the accrual row of a position, saves the position with its
interest raised, and then stores the row; each statement commits by itself, and each save can fail.
Runs of any dates interleave. A position is charged once for a date, and its interest is the sum of
its rows, as long as no run saves an amount it has loaded too early, no run looks for a row that
another one is about to store, and no row fails to be stored.

## Main results

* `Accounted.charge`, `Accounted.store`: what a save of a position and a save of a row preserve
* `charged_once`: charges and interest in every careful run
-/

namespace Margin

open Relational Concurrency

/-! ## Runs -/

/-- The saves of the interest service can fail. -/
def saveFault : (c : Stmt) → Option c.Reply
  | .savePosition _ => some false
  | .insertAccrual _ => some false
  | _ => none

/-- An executed statement. -/
abbrev AccrualEvent (ι : Type) := Executed Stmt Stmt.Reply ι (MarginDb × List Bool)

/-- The tables, the faults to come, and the executed statements. -/
abbrev Accruing (ι : Type) := (MarginDb × List Bool) × List (AccrualEvent ι)

/-- The database of the interest runs: every statement commits by itself. -/
abbrev accrualMachine (ι : Type) : Machine Stmt Stmt.Reply ι (Accruing ι) :=
  ((Machine.ofHandler sql.handler).faulty saveFault).observed

/-- Any number of runs at the same time, each with its date, before their first statement. -/
def accruing {ι : Type} (clock : ι → ℕ → ℤ) (today : ι → ℕ) (d₀ : MarginDb) (faults : List Bool) :
    Config Stmt Stmt.Reply MarginError Unit ι (Accruing ι) :=
  ⟨((d₀, faults), []), fun i => accrueDailyInterest (clock i) (today i)⟩

section Events

variable {ι : Type}

/-- The position that was saved. -/
def saved : AccrualEvent ι → Option MarginPosition
  | ⟨_, _, .savePosition p, true⟩ => some p
  | _ => none

/-- The accrual row that was stored. -/
def stored : AccrualEvent ι → Option MarginInterestAccrual
  | ⟨_, _, .insertAccrual a, true⟩ => some a
  | _ => none

/-- The position whose accrual row was looked for. -/
def checked : AccrualEvent ι → Option ℕ
  | ⟨_, _, .findAccrual id _, _⟩ => some id
  | _ => none

/-- The positions that were loaded. -/
def loaded : AccrualEvent ι → List MarginPosition
  | ⟨_, _, .findOpen, positions⟩ => positions
  | _ => []

/-- The statement charged the position. -/
def Charges (id : ℕ) (e : AccrualEvent ι) : Prop := ∃ p ∈ saved e, p.id = id

/-- The statement stored an accrual row of the position. -/
def Records (id : ℕ) (e : AccrualEvent ι) : Prop := ∃ a ∈ stored e, a.positionId = id

instance (id : ℕ) (e : AccrualEvent ι) : Decidable (Charges id e) :=
  decidable_of_iff ((saved e).any (·.id = id)) (by simp [Charges, Option.any_eq_true])

instance (id : ℕ) (e : AccrualEvent ι) : Decidable (Records id e) :=
  decidable_of_iff ((stored e).any (·.positionId = id)) (by simp [Records, Option.any_eq_true])

/-- The interest of a position, zero without one. -/
def interestOf (d : MarginDb) (id : ℕ) : ℚ :=
  ((d.positions.find id).map (·.accruedInterest)).getD 0

/-- The interest in the accrual rows of a position. -/
def recorded (d : MarginDb) (id : ℕ) : ℚ :=
  ((d.accruals.filter (·.positionId = id)).map (·.interestAmount)).sum

/-- What the statement charged the position and did not record. -/
def change (id : ℕ) (e : AccrualEvent ι) : ℚ :=
  ((saved e).elim 0 fun p => if id = p.id then p.accruedInterest - interestOf e.before.1 id else 0) -
    (stored e).elim 0 fun a => if id = a.positionId then a.interestAmount else 0

variable (today : ι → ℕ)

/-- The charges of a position for a date. -/
def charges (id date : ℕ) (es : List (AccrualEvent ι)) : List (AccrualEvent ι) :=
  es.filter fun e => Charges id e ∧ today e.thread = date

variable [DecidableEq ι]

/-- A column with 8 decimals keeps the number, and the errors of the doubles in it are lost
there. -/
def EightDecimals (x : ℚ) : Prop := (x * 10 ^ 8).den = 1 ∧ |x| < 2 ^ 20

/-- The condition on the steps. A run saves a position while its interest is the one the run has
loaded, and no run of the same date has saved the position since this run looked for its row; it
looks for the row of a position while every run of the date that saved the position has stored its
row; and the row is stored. A save that fails does no harm. The interest of the position and that of
one day are in eight decimals. -/
def Careful (i : ι) : Stmt → Accruing ι → Prop
  | .savePosition p, s => Fails s.1 ∨
      (∀ c ∈ s.1.1.pairs.find p.pairConfigId, EightDecimals (p.dailyInterest c)) ∧
        EightDecimals (interestOf s.1.1 p.id) ∧
        (∀ e ∈ own i s.2, ∀ q ∈ loaded e, q.id = p.id → interestOf s.1.1 p.id = q.accruedInterest) ∧
        ∀ e ∈ since (fun e => e.thread = i ∧ checked e = some p.id) s.2,
          ¬ (Charges p.id e ∧ today e.thread = today i)
  | .findAccrual id date, s => ∀ e ∈ s.2, Charges id e → today e.thread = date →
      ∃ e' ∈ own e.thread s.2, Records id e'
  | .insertAccrual _, s => ¬ Fails s.1
  | _, _ => True

instance (i : ι) (c : Stmt) (s : Accruing ι) : Decidable (Careful today i c s) :=
  match c with
  | .savePosition p => inferInstanceAs (Decidable (Fails s.1 ∨
      (∀ c ∈ s.1.1.pairs.find p.pairConfigId, _ ∧ _) ∧ (_ ∧ _) ∧ _))
  | .findAccrual _ _ => inferInstanceAs (Decidable (∀ e ∈ s.2, _ → _ → ∃ e' ∈ own e.thread s.2, _))
  | .insertAccrual _ => inferInstanceAs (Decidable (¬ _))
  | .exchange _ | .findBalance _ _ | .insertBalance _ | .findPair _ | .findPairs _ | .savePair _
  | .findAsset _ | .lockPosition _ | .insertPosition _ | .findOpen | .coverShortfall _ =>
    isTrue trivial

end Events

/-! ## The invariant -/

/-- There is an accrual row of the position for the date. -/
def Stored (d : MarginDb) (id date : ℕ) : Prop :=
  ∃ a ∈ d.accruals, a.positionId = id ∧ a.accrualDate = date

/-- The invariant of the runs. -/
structure Accounted {ι : Type} [DecidableEq ι] (today : ι → ℕ) (d₀ : MarginDb) (s : Accruing ι) :
    Prop where
  interest : ∀ p ∈ s.1.1.positions.rows,
    p.accruedInterest = recorded s.1.1 p.id + (s.2.map (change p.id)).sum
  once : ∀ id date, (charges today id date s.2).length ≤ 1
  covered : ∀ e ∈ s.2, ∀ id, Charges id e →
    Stored s.1.1 id (today e.thread) ∨ ∀ e' ∈ own e.thread s.2, ¬ Records id e'
  kept : ∀ a ∈ d₀.accruals, a ∈ s.1.1.accruals
  initial : ∀ a ∈ d₀.accruals, charges today a.positionId a.accrualDate s.2 = []
  present : ∀ e ∈ s.2, ∀ p ∈ loaded e, (s.1.1.positions.find p.id).isSome

section Steps

variable {ι : Type} [DecidableEq ι] {today : ι → ℕ} {d₀ d : MarginDb} {bs bs' : List Bool}
  {es : List (AccrualEvent ι)} {e : AccrualEvent ι}

omit [DecidableEq ι] in
theorem charges_cons (id date : ℕ) : charges today id date (e :: es) =
    if Charges id e ∧ today e.thread = date then e :: charges today id date es
    else charges today id date es := by
  simp [charges, List.filter_cons]

/-- A statement that saves nothing. -/
theorem Accounted.read (h : Accounted today d₀ ((d, bs), es)) (hsaved : saved e = none)
    (hstored : stored e = none) (hloaded : ∀ p ∈ loaded e, (d.positions.find p.id).isSome) :
    Accounted today d₀ ((d, bs'), e :: es) := by
  have hcharge : ∀ id, ¬ Charges id e := by simp [Charges, hsaved]
  have hrecord : ∀ id, ¬ Records id e := by simp [Records, hstored]
  refine ⟨fun p hp => ?_, fun id date => ?_, fun e' he' id hid => ?_, h.kept, fun a ha => ?_, ?_⟩
  · rw [h.interest p hp]
    simp [change, hsaved, hstored]
  · rw [charges_cons, if_neg fun hc => hcharge id hc.1]
    exact h.once id date
  · obtain rfl | he' := List.mem_cons.mp he'
    · exact absurd hid (hcharge id)
    · refine (h.covered e' he' id hid).imp_right fun hnone e'' he'' => ?_
      obtain rfl | he'' := mem_own_cons he''
      · exact hrecord id
      · exact hnone e'' he''
  · rw [charges_cons, if_neg fun hc => hcharge _ hc.1]
    exact h.initial a ha
  · exact List.forall_mem_cons.mpr ⟨hloaded, h.present⟩

omit [DecidableEq ι] in
theorem change_of_charge {p r : MarginPosition} (hsaved : saved e = some p) (hstored : stored e = none)
    (hr : e.before.1.positions.find p.id = some r) (id : ℕ) :
    change id e = if id = p.id then p.accruedInterest - r.accruedInterest else 0 := by
  by_cases hid : id = p.id
  · subst hid
    simp [change, hsaved, hstored, interestOf, hr]
  · simp [change, hsaved, hstored, hid]

omit [DecidableEq ι] in
theorem change_of_store {a : MarginInterestAccrual} (hsaved : saved e = none)
    (hstored : stored e = some a) (id : ℕ) :
    change id e = if id = a.positionId then -a.interestAmount else 0 := by
  by_cases hid : id = a.positionId
  · simp [change, hsaved, hstored, hid]
  · simp [change, hsaved, hstored, hid]

/-- **A save of a position** that no run of the date has charged, and that has no row of the
date. -/
theorem Accounted.charge (h : Accounted today d₀ ((d, bs), es)) {p r : MarginPosition}
    (hsaved : saved e = some p) (hstored : stored e = none) (hloaded : loaded e = [])
    (hbefore : e.before.1 = d) (hr : d.positions.find p.id = some r)
    (hnone : charges today p.id (today e.thread) es = [])
    (hinitial : ¬ Stored d₀ p.id (today e.thread))
    (hrecord : ∀ e' ∈ own e.thread es, ¬ Records p.id e') :
    Accounted today d₀ (({ d with positions := d.positions.save p }, bs'), e :: es) := by
  have hid : ∀ id, Charges id e ↔ p.id = id := by simp [Charges, hsaved]
  have hnorecord : ∀ id, ¬ Records id e := by simp [Records, hstored]
  have hchange := change_of_charge hsaved hstored (hbefore ▸ hr)
  constructor
  · -- the interest of a position is what its charges add up to
    intro q hq
    rw [List.map_cons, List.sum_cons, hchange]
    rcases Table.mem_save.mp hq with rfl | ⟨hq, hne⟩
    · -- the interest grows by what the save adds to the stored one
      have hrid : r.id = q.id := Table.key_of_find hr
      have hsum := h.interest r (Table.mem_of_find hr)
      rw [hrid] at hsum
      rw [if_pos rfl, hsum]
      show q.accruedInterest = recorded d q.id + _
      ring
    · rw [if_neg hne, zero_add]
      exact h.interest q hq
  · intro id date
    rw [charges_cons]
    split
    · next hc =>
      -- the first charge of the position for that day
      obtain ⟨hid', rfl⟩ := hc
      obtain rfl := (hid id).mp hid'
      rw [hnone]
      exact le_rfl
    · exact h.once id date
  · intro e' he' id hid'
    obtain rfl | he' := List.mem_cons.mp he'
    · -- the run has not recorded its new charge yet
      obtain rfl := (hid id).mp hid'
      refine .inr fun e'' he'' => ?_
      obtain rfl | he'' := mem_own_cons he''
      · exact hnorecord p.id
      · exact hrecord e'' he''
    · refine (h.covered e' he' id hid').imp_right fun hfree e'' he'' => ?_
      obtain rfl | he'' := mem_own_cons he''
      · exact hnorecord id
      · exact hfree e'' he''
  · exact h.kept
  · intro a ha
    rw [charges_cons, if_neg]
    · exact h.initial a ha
    · rintro ⟨hid', hdate⟩
      exact hinitial ⟨a, ha, ((hid _).mp hid').symm, hdate.symm⟩
  · refine List.forall_mem_cons.mpr ⟨fun q hq => ?_, fun e' he' q hq => ?_⟩
    · rw [hloaded] at hq
      cases hq
    · exact Table.isSome_find_save (h.present e' he' q hq)

omit [DecidableEq ι] in
theorem recorded_append (d : MarginDb) (a : MarginInterestAccrual) (id : ℕ) :
    recorded { d with accruals := d.accruals ++ [a] } id =
      recorded d id + if id = a.positionId then a.interestAmount else 0 := by
  by_cases hid : id = a.positionId
  · subst hid
    simp [recorded, List.filter_append]
  · have hne : ¬ a.positionId = id := fun h => hid h.symm
    simp [recorded, List.filter_append, hid, hne]

/-- **A save of a row** of the run's date. -/
theorem Accounted.store (h : Accounted today d₀ ((d, bs), es)) {a : MarginInterestAccrual}
    (hsaved : saved e = none) (hstored : stored e = some a) (hloaded : loaded e = [])
    (hdate : a.accrualDate = today e.thread) :
    Accounted today d₀ (({ d with accruals := d.accruals ++ [a] }, bs'), e :: es) := by
  have hcharge : ∀ id, ¬ Charges id e := by simp [Charges, hsaved]
  have hid : ∀ id, Records id e ↔ a.positionId = id := by simp [Records, hstored]
  have hchange := change_of_store hsaved hstored
  constructor
  · intro p hp
    have hsum := h.interest p hp
    rw [List.map_cons, List.sum_cons, hchange, recorded_append, hsum]
    split
    · ring
    · ring
  · intro id date
    rw [charges_cons, if_neg fun hc => hcharge id hc.1]
    exact h.once id date
  · intro e' he' id hid'
    obtain rfl | he' := List.mem_cons.mp he'
    · exact absurd hid' (hcharge id)
    · rcases h.covered e' he' id hid' with ⟨b, hb, hb'⟩ | hfree
      · exact .inl ⟨b, List.mem_append_left _ hb, hb'⟩
      · by_cases hown : e'.thread = e.thread ∧ a.positionId = id
        · -- the row is that of this charge
          obtain ⟨ht, rfl⟩ := hown
          refine .inl ⟨a, List.mem_append_right _ (List.mem_singleton_self a), rfl, ?_⟩
          rw [ht]
          exact hdate
        · refine .inr fun e'' he'' hrec => ?_
          obtain ⟨hmem, ht⟩ := mem_own.mp he''
          obtain rfl | hmem := List.mem_cons.mp hmem
          · exact hown ⟨ht.symm, (hid id).mp hrec⟩
          · exact hfree e'' (mem_own.mpr ⟨hmem, ht⟩) hrec
  · exact fun b hb => List.mem_append_left _ (h.kept b hb)
  · intro b hb
    rw [charges_cons, if_neg fun hc => hcharge _ hc.1]
    exact h.initial b hb
  · refine List.forall_mem_cons.mpr ⟨fun q hq => ?_, h.present⟩
    rw [hloaded] at hq
    cases hq

end Steps

/-! ## The runs -/

section Sessions

variable {ι : Type} [DecidableEq ι] {clock : ℕ → ℤ} {today : ι → ℕ} {d₀ : MarginDb}
  {s s' : Accruing ι} {i : ι} {p : MarginPosition} {ps : List MarginPosition} {due : ℕ → ℚ}

/-- What the run has charged the position and not recorded. -/
def unrecorded (i : ι) (s : Accruing ι) (id : ℕ) : ℚ := ((own i s.2).map (change id)).sum

/-- A run that is about to execute a statement owes at most the row the statement stores. -/
def Recording (i : ι) (c : Stmt) (s : Accruing ι) : Prop :=
  ∀ id, (∀ a, c = .insertAccrual a → a.positionId ≠ id) → unrecorded i s id = 0

/-- A run on its way: what it has not recorded yet, and the positions it has not reached. -/
structure Ready (i : ι) (s : Accruing ι) (due : ℕ → ℚ) (ps : List MarginPosition) : Prop where
  due : ∀ id, unrecorded i s id = due id
  ahead : ∀ p ∈ ps, (∃ e ∈ own i s.2, p ∈ loaded e) ∧ ∀ e ∈ own i s.2, ¬ Records p.id e
  nodup : (ps.map (·.id)).Nodup

/-- No other run of the date charged the position before this run looked for its row. -/
structure Unclaimed (today : ι → ℕ) (d₀ : MarginDb) (i : ι) (s : Accruing ι) (id : ℕ) : Prop where
  since : ∀ e ∈ s.2, Charges id e → today e.thread = today i →
    e ∈ since (fun e => e.thread = i ∧ checked e = some id) s.2
  initial : ¬ Stored d₀ id (today i)

theorem Ready.of_grew (h : Ready i s due ps) (hg : Grew i s s') : Ready i s' due ps := by
  obtain ⟨hdue, hahead, hnodup⟩ := h
  refine ⟨?_, ?_, hnodup⟩
  · simpa only [unrecorded, hg.own] using hdue
  · simpa only [hg.own] using hahead

theorem Ready.tail (h : Ready i s due (p :: ps)) : Ready i s due ps :=
  ⟨h.due, fun q hq => h.ahead q (List.mem_cons_of_mem p hq), (List.nodup_cons.mp h.nodup).2⟩

/-- An event of the run that stores no row of the positions ahead. -/
theorem Ready.cons {t : MarginDb × List Bool} {c : Stmt} {r : c.Reply} {due' : ℕ → ℚ}
    (h : Ready i s due ps) (hrecord : ∀ q ∈ ps, ¬ Records q.id (⟨i, s.1, c, r⟩ : AccrualEvent ι))
    (hdue : ∀ id, change id (⟨i, s.1, c, r⟩ : AccrualEvent ι) + due id = due' id) :
    Ready i ((t, ⟨i, s.1, c, r⟩ :: s.2) : Accruing ι) due' ps := by
  refine ⟨fun id => ?_, fun q hq => ?_, h.nodup⟩
  · rw [unrecorded, own_cons_self, List.map_cons, List.sum_cons, ← hdue id, ← h.due id]
    rfl
  · obtain ⟨⟨e, he, hq'⟩, hnone⟩ := h.ahead q hq
    rw [own_cons_self]
    exact ⟨⟨e, List.mem_cons_of_mem _ he, hq'⟩, List.forall_mem_cons.mpr ⟨hrecord q hq, hnone⟩⟩

theorem Unclaimed.of_grew {id : ℕ} (h : Unclaimed today d₀ i s id) (hg : Grew i s s') :
    Unclaimed today d₀ i s' id := by
  refine ⟨fun e he hcharge hdate => ?_, h.initial⟩
  obtain ⟨new, hs, hnew⟩ := hg
  rw [hs, since_append fun e he => by simp [hnew e he]]
  rw [hs] at he
  rcases List.mem_append.mp he with he | he
  · exact List.mem_append_left _ he
  · exact List.mem_append_right _ (h.since e he hcharge hdate)

/-! ## The statements -/

variable {α : Type} {Q : Except MarginError α → Accruing ι → Prop} {c : Stmt} {k : c.Reply → Tx α}

/-- A program that keeps the invariant when every step is careful. -/
abbrev AccrualSafe (today : ι → ℕ) (d₀ : MarginDb) (i : ι)
    (Q : Except MarginError α → Accruing ι → Prop) (p : Tx α) (s : Accruing ι) : Prop :=
  (observedProtocol (Accounted today d₀) Recording).Safe
    ((accrualMachine ι).restrict (Careful today)) i Q p s

omit [DecidableEq ι] in
theorem saved_of_noFault (h : saveFault c = none) (t : MarginDb × List Bool) (r : c.Reply) :
    saved (⟨i, t, c, r⟩ : AccrualEvent ι) = none := by
  cases c with
  | savePosition p => cases h
  | _ => rfl

omit [DecidableEq ι] in
theorem stored_of_noFault (h : saveFault c = none) (t : MarginDb × List Bool) (r : c.Reply) :
    stored (⟨i, t, c, r⟩ : AccrualEvent ι) = none := by
  cases c with
  | insertAccrual a => cases h
  | _ => rfl

omit [DecidableEq ι] in
theorem present_of_loaded {d : MarginDb} {bs : List Bool} :
    ∀ p ∈ loaded (⟨i, (d, bs), c, sql.reply c d⟩ : AccrualEvent ι),
      (d.positions.find p.id).isSome := by
  intro p hp
  cases c with
  | findOpen =>
    have hmem : p ∈ d.positions.rows := (List.mem_filter.mp hp).1
    rw [Table.find_of_mem hmem]
    rfl
  | _ => cases hp

/-- A statement that reads. -/
theorem safe_read (hfault : saveFault c = none) (hwrites : ∀ d, sql.writes c d = [])
    (h : Ready i s (fun _ => 0) ps)
    (hk : ∀ s₁ : Accruing ι, Grew i s s₁ → Accounted today d₀ s₁ → Careful today i c s₁ →
      Ready i ((s₁.1, ⟨i, s₁.1, c, sql.reply c s₁.1.1⟩ :: s₁.2) : Accruing ι) (fun _ => 0) ps →
      AccrualSafe today d₀ i Q (k (sql.reply c s₁.1.1))
        (s₁.1, ⟨i, s₁.1, c, sql.reply c s₁.1.1⟩ :: s₁.2)) :
    AccrualSafe today d₀ i Q (.call c k) s := by
  refine safe_observed_call fun s₁ hg hinv => ?_
  have h₁ := h.of_grew hg
  refine ⟨fun id _ => h₁.due id, fun hP r t he => ?_⟩
  obtain ⟨hfail, -⟩ | ⟨-, he'⟩ := Machine.faulty_exec he
  · rw [hfault] at hfail
    cases hfail
  · obtain ⟨rfl, ht⟩ := Prod.mk.inj (Option.some.inj he')
    obtain rfl : s₁.1 = t := by
      simp only [Machine.faulty, hfault, Machine.ofHandler, Dialect.handler, hwrites] at he
      exact (Prod.mk.inj (Option.some.inj he)).2
    have hsaved := saved_of_noFault (i := i) hfault s₁.1 (sql.reply c s₁.1.1)
    have hstored := stored_of_noFault (i := i) hfault s₁.1 (sql.reply c s₁.1.1)
    refine ⟨hinv.read hsaved hstored present_of_loaded, hk s₁ hg hinv hP (h₁.cons ?_ ?_)⟩
    · simp [Records, hstored]
    · simp [change, hsaved, hstored]

/-- The charge of a position that was looked for. -/
theorem safe_charge (pairConfig : MarginPairConfig) (now : ℤ)
    (h : Ready i s (fun _ => 0) (p :: ps)) (hu : Unclaimed today d₀ i s p.id) :
    AccrualSafe today d₀ i (fun o s' => match o with
        | .ok _ => Ready i s' (fun id => if id = p.id then p.dailyInterest pairConfig else 0) ps
        | .error _ => Ready i s' (fun _ => 0) ps)
      (savePosition (p.charged pairConfig now)) s := by
  unfold savePosition
  simp only [Prog.perform_bind]
  refine safe_observed_call fun s₁ hg hinv => ?_
  have h₁ := h.of_grew hg
  refine ⟨fun id _ => h₁.due id, fun hP r t he => ?_⟩
  obtain ⟨hfail, -, ht⟩ | ⟨hok, he⟩ := Machine.faulty_exec he
  · -- the save failed, and nothing was charged
    obtain rfl : false = r := Option.some.inj hfail
    obtain ⟨d, bs⟩ := t
    obtain rfl : d = s₁.1.1 := ht
    refine ⟨hinv.read rfl rfl (fun q hq => by cases hq), h₁.tail.cons (fun q _ => ?_) fun id => ?_⟩
    · simp [Records, stored]
    · simp [change, saved, stored]
  · -- the save stores the whole row: the interest that was loaded must be the stored one
    obtain ⟨rfl, ht⟩ := Prod.mk.inj (Option.some.inj he)
    obtain ⟨d, bs⟩ := t
    obtain rfl : { s₁.1.1 with positions := s₁.1.1.positions.save (p.charged pairConfig now) } = d := ht
    have hnot : ¬ Fails s₁.1 := hok.resolve_left fun hf => by cases hf
    obtain ⟨-, -, hfresh, halone⟩ := hP.resolve_left hnot
    obtain ⟨⟨e, he, hload⟩, hrecord⟩ := h₁.ahead p List.mem_cons_self
    obtain ⟨r, hr⟩ := Option.isSome_iff_exists.mp (hinv.present e (mem_own.mp he).1 p hload)
    have hinterest : r.accruedInterest = p.accruedInterest := by
      have hsame := hfresh e he p hload rfl
      rwa [show interestOf s₁.1.1 (p.charged pairConfig now).id = r.accruedInterest by
        simp [interestOf, MarginPosition.charged, hr]] at hsame
    -- a charge of the day can only have come since the accruals were read, and none has
    have hnone : charges today p.id (today i) s₁.2 = [] := by
      refine List.filter_eq_nil_iff.mpr fun e he => ?_
      rw [decide_eq_true_eq]
      rintro ⟨hcharge, hdate⟩
      exact halone e ((hu.of_grew hg).since e he hcharge hdate) ⟨hcharge, hdate⟩
    refine ⟨hinv.charge (p := p.charged pairConfig now) (r := r) rfl rfl rfl rfl hr hnone
      hu.initial hrecord, h₁.tail.cons (fun q _ => ?_) fun id => ?_⟩
    · simp [Records, stored]
    · rw [add_zero, change_of_charge (p := p.charged pairConfig now) rfl rfl hr]
      simp [MarginPosition.charged, hinterest]

/-- The record of a charge. -/
theorem safe_record {pairConfig : MarginPairConfig}
    (h : Ready i s (fun id => if id = p.id then p.dailyInterest pairConfig else 0) ps)
    (hp : p.id ∉ ps.map (·.id)) {k : Bool → Tx α}
    (hk : ∀ s', Ready i s' (fun _ => 0) ps → AccrualSafe today d₀ i Q (k true) s') :
    AccrualSafe today d₀ i Q (.call (.insertAccrual (p.accrual pairConfig (today i))) k) s := by
  refine safe_observed_call fun s₁ hg hinv => ?_
  have h₁ := h.of_grew hg
  refine ⟨fun id hid => ?_, fun hP r t he => ?_⟩
  · have hne : ¬ id = p.id := fun h => hid _ rfl h.symm
    rw [h₁.due, if_neg hne]
  · obtain ⟨-, hfails, -⟩ | ⟨-, he⟩ := Machine.faulty_exec he
    · exact absurd hfails hP
    · obtain ⟨rfl, ht⟩ := Prod.mk.inj (Option.some.inj he)
      obtain ⟨d, bs⟩ := t
      obtain rfl : { s₁.1.1 with
        accruals := s₁.1.1.accruals ++ [p.accrual pairConfig (today i)] } = d := ht
      refine ⟨hinv.store (a := p.accrual pairConfig (today i)) rfl rfl rfl rfl,
        hk _ (h₁.cons (fun q hq => ?_) fun id => ?_)⟩
      · rintro ⟨a, ha, hid⟩
        obtain rfl : p.accrual pairConfig (today i) = a := Option.some.inj ha
        exact hp (List.mem_map.mpr ⟨q, hq, hid.symm⟩)
      · rw [change_of_store (a := p.accrual pairConfig (today i)) rfl rfl]
        by_cases hid : id = p.id
        · simp [MarginPosition.accrual, hid]
        · simp [MarginPosition.accrual, hid]

/-- A position without a row of the date is unclaimed, when no run of the date is about to store
one. -/
theorem unclaimed_of_check {id : ℕ} (hinv : Accounted today d₀ s)
    (hP : Careful today i (.findAccrual id (today i)) s) {r : Option MarginInterestAccrual}
    (hr : sql.reply (.findAccrual id (today i)) s.1.1 = none) :
    Unclaimed today d₀ i ((s.1, ⟨i, s.1, .findAccrual id (today i), r⟩ :: s.2) : Accruing ι) id := by
  have hnone : ¬ Stored s.1.1 id (today i) := by
    rintro ⟨a, ha, hid, hdate⟩
    have hnot := List.find?_eq_none.mp hr a ha
    simp [hid, hdate] at hnot
  refine ⟨fun e he hcharge hdate => ?_, fun hstored => ?_⟩
  · obtain rfl | he := List.mem_cons.mp he
    · obtain ⟨q, hq, -⟩ := hcharge
      cases hq
    · obtain ⟨e', he', hrec⟩ := hP e he hcharge hdate
      rcases hinv.covered e he id hcharge with hstored | hfree
      · rw [hdate] at hstored
        exact absurd hstored hnone
      · exact absurd hrec (hfree e' he')
  · obtain ⟨a, ha, hid⟩ := hstored
    exact hnone ⟨a, hinv.kept a ha, hid⟩

/-- `accrueForPosition` records what it charges. -/
theorem safe_accrueForPosition (pairConfig : MarginPairConfig) (now : ℤ)
    (h : Ready i s (fun _ => 0) (p :: ps)) (hu : Unclaimed today d₀ i s p.id) :
    AccrualSafe today d₀ i (fun _ s' => Ready i s' (fun _ => 0) ps)
      (accrueForPosition now p pairConfig (today i)) s := by
  unfold accrueForPosition
  refine Protocol.safe_bind (Protocol.safe_mono (fun o s₁ h₁ => ?_)
    (safe_charge pairConfig now h hu))
  cases o with
  | error e => exact h₁
  | ok q =>
    have hp : p.id ∉ ps.map (·.id) := (List.nodup_cons.mp h.nodup).1
    simp only [Prog.perform_bind]
    refine safe_record h₁ hp fun s₂ h₂ => ?_
    exact h₂

/-- One position of a run. -/
theorem safe_accruePosition (h : Ready i s (fun _ => 0) (p :: ps)) :
    AccrualSafe today d₀ i (fun _ s' => Ready i s' (fun _ => 0) ps)
      (accruePosition clock (today i) p) s := by
  unfold accruePosition
  split
  · exact h.tail
  · simp only [Prog.perform_bind]
    refine safe_read rfl (fun d => rfl) h fun s₁ _ _ _ h₁ => ?_
    generalize sql.reply (.findPair p.pairConfigId) s₁.1.1 = c at h₁ ⊢
    cases c with
    | none => exact h₁.tail
    | some pairConfig =>
      refine safe_read rfl (fun d => rfl) h₁ fun s₂ _ hinv₂ hP₂ h₂ => ?_
      generalize hreply : sql.reply (.findAccrual p.id (today i)) s₂.1.1 = r at h₂ ⊢
      cases r with
      | some a => exact h₂.tail
      | none =>
        have hcharge := safe_accrueForPosition pairConfig (clock p.id) h₂
          (unclaimed_of_check hinv₂ hP₂ hreply)
        refine Protocol.safe_tryCatch (Protocol.safe_bind (Protocol.safe_mono (fun o s₃ h₃ => ?_)
          hcharge))
        cases o with
        | ok a => exact h₃
        | error e => exact h₃

theorem safe_accrueLoop (h : Ready i s (fun _ => 0) ps) :
    AccrualSafe today d₀ i (fun _ s' => ∀ id, unrecorded i s' id = 0)
      (accrueLoop clock (today i) ps) s := by
  induction ps generalizing s with
  | nil => exact h.due
  | cons p ps ih =>
    refine Protocol.safe_bind (Protocol.safe_mono (fun o s₁ h₁ => ?_) (safe_accruePosition h))
    cases o with
    | error e => exact h₁.due
    | ok u => exact ih h₁

/-- A run of the interest service. -/
theorem safe_accrueDailyInterest (h : own i s.2 = []) :
    AccrualSafe today d₀ i (fun _ s' => ∀ id, unrecorded i s' id = 0)
      (accrueDailyInterest clock (today i)) s := by
  have hready : Ready i s (fun _ => 0) [] :=
    ⟨fun id => by simp [unrecorded, h], fun p hp => (by cases hp), List.nodup_nil⟩
  unfold accrueDailyInterest
  simp only [Prog.perform_bind]
  refine safe_read rfl (fun d => rfl) hready fun s₁ hg hinv _ h₁ => ?_
  refine safe_accrueLoop ⟨h₁.due, fun p hp => ?_, openPositions_nodup _⟩
  -- the positions were loaded by the only statement so far
  rw [own_cons_self, hg.own, h]
  refine ⟨⟨_, List.mem_singleton_self _, hp⟩, fun e he => ?_⟩
  obtain rfl := List.mem_singleton.mp he
  rintro ⟨a, ha, -⟩
  cases ha

end Sessions

/-! ## Every careful run -/

/-- **A position is charged at most once for a date**, and its interest is the sum of its accrual
rows whenever no run is about to store one. -/
theorem charged_once {ι : Type} [DecidableEq ι] {clock : ι → ℕ → ℤ} {today : ι → ℕ} {d₀ : MarginDb}
    {faults : List Bool} {is : List ι}
    {c : Config Stmt Stmt.Reply MarginError Unit ι (Accruing ι)}
    (hd₀ : ∀ p ∈ d₀.positions.rows, p.accruedInterest = recorded d₀ p.id)
    (hr : (accruing clock today d₀ faults).run (accrualMachine ι) is = some c)
    (ha : (accruing clock today d₀ faults).Admitted (accrualMachine ι) (Careful today) is) :
    (∀ id date, (charges today id date c.shared.2).length ≤ 1 ∧
      (Stored d₀ id date → charges today id date c.shared.2 = [])) ∧
    ∀ p ∈ c.shared.1.1.positions.rows,
      (∀ i a, (c.threads i).next = some (.insertAccrual a) → a.positionId ≠ p.id) →
        p.accruedInterest = recorded c.shared.1.1 p.id := by
  have hstart : Accounted today d₀ ((d₀, faults), []) :=
    ⟨fun p hp => (by simpa using hd₀ p hp), fun id date => Nat.zero_le 1, fun e he => (by cases he),
      fun a ha => ha, fun a _ => rfl, fun e he => (by cases he)⟩
  have hsafe := Protocol.run_safe (T := observedProtocol (Accounted today d₀) Recording)
    (Q := fun i _ s' => ∀ id, unrecorded i s' id = 0)
    (fun i o s s' hs hg id => by simpa only [unrecorded, hg.own] using hs id)
    (c := accruing clock today d₀ faults)
    ⟨hstart, fun i => safe_accrueDailyInterest rfl⟩ (Config.run_restrict hr ha)
  refine ⟨fun id date => ⟨hsafe.1.once id date, ?_⟩, fun p hp hnext => ?_⟩
  · rintro ⟨a, ha, rfl, rfl⟩
    exact hsafe.1.initial a ha
  · -- every run has recorded what it charged, unless it is about to
    have hzero : (c.shared.2.map (change p.id)).sum = 0 := by
      refine sum_eq_zero_of_own _ fun i => ?_
      cases hk : c.threads i with
      | ret a =>
        have hi := hsafe.2 i
        rw [hk] at hi
        exact hi p.id
      | fail e =>
        have hi := hsafe.2 i
        rw [hk] at hi
        exact hi p.id
      | call cmd k =>
        refine hsafe.pre hk p.id fun a ha => hnext i a ?_
        rw [hk]
        exact congrArg some ha
    rw [hsafe.1.interest p hp, hzero, add_zero]

/-- One position that borrows as much as its collateral. -/
def borrowedDb : MarginDb :=
  { shortDb with
    positions := Table.empty.save (newPosition 1 ⟨1, 1, .long, 100, 2, none⟩ defaultPair 100) }

/-- Two runs for the first day, and one for the second. -/
def dates : Fin 3 → ℕ
  | 2 => 2
  | _ => 1

/-- The first run fails to save the position, and the others charge it once for each day. -/
theorem charged_once_retried : ∃ c,
    (accruing (fun _ _ => 0) dates borrowedDb [true]).run (accrualMachine (Fin 3))
      [0, 0, 0, 0, 1, 1, 1, 1, 1, 2, 2, 2, 2, 2] = some c ∧
    (∀ id date, (charges dates id date c.shared.2).length ≤ 1 ∧
      (Stored borrowedDb id date → charges dates id date c.shared.2 = [])) ∧
    ∀ p ∈ c.shared.1.1.positions.rows,
      (∀ i a, (c.threads i).next = some (.insertAccrual a) → a.positionId ≠ p.id) →
        p.accruedInterest = recorded c.shared.1.1 p.id := by
  have hrun : ((accruing (fun _ _ => 0) dates borrowedDb [true]).run (accrualMachine (Fin 3))
      [0, 0, 0, 0, 1, 1, 1, 1, 1, 2, 2, 2, 2, 2]).isSome := by
    decide +kernel
  obtain ⟨c, hc⟩ := Option.isSome_iff_exists.mp hrun
  exact ⟨c, hc, charged_once (by decide +kernel) hc (by decide +kernel)⟩

/-- **A position is charged twice for a date.** The first run saves the position and fails to store
the row; the second finds no row. -/
theorem charged_twice : ∃ c,
    (accruing (fun _ _ => 0) dates borrowedDb [false, true]).run (accrualMachine (Fin 3))
      [0, 0, 0, 0, 0, 1, 1, 1, 1, 1] = some c ∧ (c.threads 0).returned ∧ (c.threads 1).returned ∧
    (charges dates 1 1 c.shared.2).length = 2 ∧
    interestOf c.shared.1.1 1 = 2 * recorded c.shared.1.1 1 ∧ 0 < recorded c.shared.1.1 1 := by
  have hrun : ((accruing (fun _ _ => 0) dates borrowedDb [false, true]).run (accrualMachine (Fin 3))
      [0, 0, 0, 0, 0, 1, 1, 1, 1, 1]).any fun c => (c.threads 0).returned ∧ (c.threads 1).returned ∧
        (charges dates 1 1 c.shared.2).length = 2 ∧
        interestOf c.shared.1.1 1 = 2 * recorded c.shared.1.1 1 ∧ 0 < recorded c.shared.1.1 1 := by
    decide +kernel
  obtain ⟨c, hc, h⟩ := (Option.any_eq_true _ _).mp hrun
  exact ⟨c, hc, of_decide_eq_true h⟩

end Margin
