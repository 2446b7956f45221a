import PeerX.Institutional.Reconciliation

/-!
# Institutional clients: which report counts a trade

A report of a date is computed once, by the first call for its date that goes through. A trade is
counted when it is stored by then. The midnight run takes the date on which it runs, so it reports a
day that has just begun.

## Main results

* `generateReport_cases`: what a call does
* `counts_run_iff`: a trade is counted when the first call for its date comes after it
* `counted_once_iff`: the reports of a history that count a trade
-/

namespace Institutional.Reconciliation

open Relational Concurrency Orders

variable {clients : Table InstitutionalClient.id}

/-! ## Events as calls -/

/-- A stored trade, or a call of `generateReport`. -/
inductive Op : Type
  | store (userId : ℕ) (draft : TradeDraft)
  | report (dto : GenerateReconciliationReportDto) (failure : Option String)

/-- The tables after a trade or a call. -/
def opStep (clients : Table InstitutionalClient.id) (books : Books) : Op → Books
  | .store userId draft => { books with trades := books.trades ++ [storedTrade books.trades userId draft] }
  | .report dto failure => (generateReport clients dto failure books).2

/-- The daily report of a client. -/
def dailyDto (clientId : ℕ) (date : ℤ) : GenerateReconciliationReportDto :=
  { institutionalClientId := clientId, reportDate := date, reportType := some .daily }

/-- The calls of an event. -/
def ops (clients : Table InstitutionalClient.id) : BooksEvent → List Op
  | .trade userId draft => [.store userId draft]
  | .generateReport dto failure => [.report dto failure]
  | .midnightRun now failures =>
    (clients.rows.filter fun client => client.isActive).map fun client =>
      .report (dailyDto client.id (dayOf now)) (failures client.id)

theorem generateDailyReports_snd (date : ℤ) (failures : ℕ → Option String) (cs : List InstitutionalClient)
    (books : Books) : (generateDailyReports clients date failures cs books).2 =
      run (opStep clients) books (cs.map fun c => .report (dailyDto c.id date) (failures c.id)) := by
  induction cs generalizing books with
  | nil => rfl
  | cons c cs ih =>
    rw [List.map_cons, run_cons, ← ih, generateDailyReports]
    simp only [opStep, dailyDto]
    split <;> rfl

theorem booksStep_eq_run (books : Books) (e : BooksEvent) :
    booksStep clients books e = run (opStep clients) books (ops clients e) := by
  cases e with
  | trade => rfl
  | generateReport => rfl
  | midnightRun now failures => exact generateDailyReports_snd (dayOf now) failures _ books

theorem run_booksStep (books : Books) (es : List BooksEvent) :
    run (booksStep clients) books es = run (opStep clients) books (es.flatMap (ops clients)) := by
  induction es generalizing books with
  | nil => rfl
  | cons e es ih => rw [run_cons, ih, booksStep_eq_run, List.flatMap_cons, run_append]

/-! ## One call -/

section Call

variable {books : Books} {dto : GenerateReconciliationReportDto}

/-- No report with the key is completed. -/
def Unreported (reports : Table ReconciliationReport.id) (key : ℕ × ℤ × ReportType) : Prop :=
  ∀ r ∈ reports.rows, r.key = key → r.status ≠ .completed

/-- The record is a new one with a new key, or takes the place of one with its key that is not
completed. -/
def Writable (reports : Table ReconciliationReport.id) (r : ReconciliationReport) : Prop :=
  (reports.find r.id = none ∧ (∀ x ∈ reports.rows, x.key ≠ r.key) ∧ r.counted = []) ∨
    ∃ old ∈ reports.rows, old.id = r.id ∧ old.key = r.key ∧ old.status ≠ .completed ∧ old.counted = r.counted

theorem le_foldr_max {n : ℕ} {l : List ℕ} (h : n ∈ l) : n ≤ l.foldr max 0 := by
  induction l with
  | nil => cases h
  | cons m l ih =>
    rcases List.mem_cons.mp h with rfl | h
    · exact le_max_left _ _
    · exact (ih h).trans (le_max_right _ _)

theorem find_newId (reports : Table ReconciliationReport.id) : reports.find (newId reports) = none := by
  refine Table.find_eq_none_iff.mpr fun r hr => ?_
  have hle : r.id ≤ (reports.rows.map fun r => r.id).foldr max 0 := le_foldr_max (List.mem_map_of_mem hr)
  unfold newId
  omega

theorem findReport_mem {reports : Table ReconciliationReport.id} {key : ℕ × ℤ × ReportType}
    {r : ReconciliationReport} (h : findReport reports key = some r) : r ∈ reports.rows ∧ r.key = key :=
  ⟨List.mem_of_find?_eq_some h, by simpa using List.find?_some h⟩

theorem findReport_eq_none {reports : Table ReconciliationReport.id} {key : ℕ × ℤ × ReportType}
    (h : findReport reports key = none) : ∀ x ∈ reports.rows, x.key ≠ key := by
  intro x hx
  simpa using List.find?_eq_none.mp h x hx

/-- One report for each key. -/
def OnePerKey (reports : Table ReconciliationReport.id) : Prop := (reports.rows.map fun r => r.key).Nodup

theorem OnePerKey.eq {reports : Table ReconciliationReport.id} (h : OnePerKey reports) {r r' : ReconciliationReport}
    (hr : r ∈ reports.rows) (hr' : r' ∈ reports.rows) (hkey : r.key = r'.key) : r = r' :=
  List.inj_on_of_nodup_map h hr hr' hkey

theorem startedReport_spec (reports : Table ReconciliationReport.id)
    (hfree : (findReport reports dto.key).filter (fun r => r.status = .completed) = none) :
    Writable reports (startedReport reports dto) ∧ (startedReport reports dto).key = dto.key := by
  unfold startedReport
  cases hfind : findReport reports dto.key with
  | none =>
    exact ⟨.inl ⟨find_newId reports, findReport_eq_none hfind, rfl⟩, rfl⟩
  | some existing =>
    obtain ⟨hmem, hkey⟩ := findReport_mem hfind
    have hstatus : existing.status ≠ .completed := by simpa [hfind] using hfree
    exact ⟨.inr ⟨existing, hmem, rfl, rfl, hstatus, rfl⟩, hkey⟩

/-- **A call** finds a completed report or no client, and changes nothing; or it stores one record:
a completed one that counts the trades of the date, or a failed one. -/
theorem generateReport_cases (clients : Table InstitutionalClient.id) (hkeys : OnePerKey books.reports) (failure : Option String) :
    ((generateReport clients dto failure books).2 = books ∧
        (clients.find dto.institutionalClientId = none ∨ ¬ Unreported books.reports dto.key)) ∨
      ∃ client started r, clients.find dto.institutionalClientId = some client ∧
        Unreported books.reports dto.key ∧ Writable books.reports started ∧ started.key = dto.key ∧
        r.id = started.id ∧ r.key = dto.key ∧
        (generateReport clients dto failure books).2 = { books with reports := books.reports.save r } ∧
        (failure = none ∧ r.status = .completed ∧
            r.counted = tradesOn books.trades client.userId dto.reportDate ∨
          failure ≠ none ∧ r.status = .failed ∧ r.counted = started.counted) := by
  unfold generateReport
  cases hclient : clients.find dto.institutionalClientId with
  | none => exact .inl ⟨rfl, .inl rfl⟩
  | some client =>
    cases hfound : (findReport books.reports dto.key).filter fun existing => existing.status = .completed with
    | some existing =>
      obtain ⟨hfind, hcompleted⟩ := Option.filter_eq_some_iff.mp hfound
      obtain ⟨hmem, hkey⟩ := findReport_mem hfind
      exact .inl ⟨rfl, .inr fun hfree => hfree existing hmem hkey (by simpa using hcompleted)⟩
    | none =>
      right
      obtain ⟨hwritable, hkey⟩ := startedReport_spec books.reports hfound
      have hfree : Unreported books.reports dto.key := by
        intro r hr hrkey hcompleted
        cases hfind : findReport books.reports dto.key with
        | none => exact findReport_eq_none hfind r hr hrkey
        | some existing =>
          -- the row that is found is the only one with the key
          obtain ⟨hmem, hkey'⟩ := findReport_mem hfind
          obtain rfl := hkeys.eq hr hmem (hrkey.trans hkey'.symm)
          simp [hfind, hcompleted] at hfound
      cases failure with
      | none =>
        let started := startedReport books.reports dto
        let r := started.complete (tradesOn books.trades client.userId dto.reportDate)
        have hsave : (books.reports.save started).save r = books.reports.save r :=
          Table.save_save (show r.id = started.id from rfl)
        exact ⟨client, started, r, rfl, hfree, hwritable, hkey, rfl, hkey,
          congrArg (fun reports => { books with reports }) hsave, .inl ⟨rfl, rfl, rfl⟩⟩
      | some message =>
        let started := startedReport books.reports dto
        let r := { started with status := .failed, error := some message }
        have hsave : (books.reports.save started).save r = books.reports.save r :=
          Table.save_save (show r.id = started.id from rfl)
        exact ⟨client, started, r, rfl, hfree, hwritable, hkey, rfl, hkey,
          congrArg (fun reports => { books with reports }) hsave, .inr ⟨Option.some_ne_none _, rfl, rfl⟩⟩

end Call

/-! ## The invariant -/

/-- One report for each key, and each counted trade is a stored one of the report's date. -/
structure Sound (books : Books) : Prop where
  keys : OnePerKey books.reports
  windows : ∀ r ∈ books.reports.rows, ∀ t ∈ r.counted, InWindow r.reportDate t.createdAt
  stored : ∀ r ∈ books.reports.rows, ∀ t ∈ r.counted, t ∈ books.trades
  ids : ∀ t ∈ books.trades, t.id < books.trades.length

theorem sound_emptyBooks : Sound emptyBooks where
  keys := List.nodup_nil
  windows := fun _ hr => nomatch hr
  stored := fun _ hr => nomatch hr
  ids := fun _ ht => nomatch ht

section Steps

variable {books : Books} {reports : Table ReconciliationReport.id} {started r : ReconciliationReport}

/-- A record with the key of a started one keeps the keys distinct. -/
theorem OnePerKey.save (h : OnePerKey reports) (hw : Writable reports started) (hid : r.id = started.id)
    (hkey : r.key = started.key) : OnePerKey (reports.save r) := by
  unfold OnePerKey
  rcases hw with ⟨hnew, hkeys, -⟩ | ⟨old, hold, hoid, hokey, -⟩
  · rw [Table.rows_save_new (hid ▸ hnew), List.map_append, List.map_singleton, List.nodup_append]
    refine ⟨h, List.nodup_singleton _, ?_⟩
    intro key hmem key' hmem'
    obtain ⟨x, hx, rfl⟩ := List.mem_map.mp hmem
    obtain rfl := List.mem_singleton.mp hmem'
    exact hkey ▸ hkeys x hx
  · rw [Table.map_save_of_eq hold (hoid.trans hid.symm) (hkey.trans hokey.symm)]
    exact h

/-- What is known of the counted trades of the stored reports is known of those of a started one. -/
theorem Writable.counted {P : ℤ → Trade → Prop} (hw : Writable reports started)
    (h : ∀ x ∈ reports.rows, ∀ t ∈ x.counted, P x.reportDate t) : ∀ t ∈ started.counted, P started.reportDate t := by
  intro t ht
  rcases hw with ⟨-, -, hnone⟩ | ⟨old, hold, -, hkey, -, hcounted⟩
  · rw [hnone] at ht
    cases ht
  · have hdate : old.reportDate = started.reportDate := congrArg (fun k => k.2.1) hkey
    exact hdate ▸ h old hold t (hcounted ▸ ht)

/-- Every trade and every call keep the invariant. -/
theorem sound_opStep (h : Sound books) (op : Op) : Sound (opStep clients books op) := by
  cases op with
  | store userId draft =>
    constructor
    · exact h.keys
    · exact h.windows
    · intro r hr t ht
      exact List.mem_append_left _ (h.stored r hr t ht)
    · intro t ht
      rw [opStep, List.length_append, List.length_singleton]
      rcases List.mem_append.mp ht with ht | ht
      · exact (h.ids t ht).trans (Nat.lt_succ_self _)
      · obtain rfl := List.mem_singleton.mp ht
        exact Nat.lt_succ_self _
  | report dto failure =>
    rcases generateReport_cases clients h.keys failure with
      ⟨hsame, -⟩ | ⟨client, started, r, -, -, hw, hkey, hid, hrkey, hsave, hcounted⟩
    · rw [opStep, hsame]
      exact h
    have hdate : r.reportDate = dto.reportDate := congrArg (fun k => k.2.1) hrkey
    have hdate' : started.reportDate = r.reportDate := congrArg (fun k => k.2.1) (hkey.trans hrkey.symm)
    -- the counted trades of the record: those of the date, or those of the record it replaces
    have hrecord : ∀ t ∈ r.counted, InWindow r.reportDate t.createdAt ∧ t ∈ books.trades := by
      intro t ht
      rcases hcounted with ⟨-, -, hc⟩ | ⟨-, -, hc⟩
      · rw [hc] at ht
        obtain ⟨hmem, hon⟩ := List.mem_filter.mp ht
        have hon' : t.userId = client.userId ∧ InWindow dto.reportDate t.createdAt := by simpa using hon
        exact ⟨hdate ▸ hon'.2, hmem⟩
      · have hold := hw.counted (P := fun date t => InWindow date t.createdAt ∧ t ∈ books.trades)
          fun x hx t ht => ⟨h.windows x hx t ht, h.stored x hx t ht⟩
        exact hdate' ▸ hold t (hc ▸ ht)
    rw [opStep, hsave]
    constructor
    · exact h.keys.save hw hid (hrkey.trans hkey.symm)
    · intro x hx t ht
      rcases Table.mem_save.mp hx with rfl | ⟨hx, -⟩
      · exact (hrecord t ht).1
      · exact h.windows x hx t ht
    · intro x hx t ht
      rcases Table.mem_save.mp hx with rfl | ⟨hx, -⟩
      · exact (hrecord t ht).2
      · exact h.stored x hx t ht
    · exact h.ids

theorem sound_run (clients : Table InstitutionalClient.id) (h : Sound books) (es : List Op) : Sound (run (opStep clients) books es) := by
  refine run_invariant' (I := Sound) ?_ h es
  intro books op h
  exact sound_opStep h op

/-- A completed report stays as it is. -/
theorem completed_stays (h : Sound books) (op : Op) (hr : r ∈ books.reports.rows) (hc : r.status = .completed) :
    r ∈ (opStep clients books op).reports.rows := by
  cases op with
  | store userId draft => exact hr
  | report dto failure =>
    rcases generateReport_cases clients h.keys failure with
      ⟨hsame, -⟩ | ⟨client, started, r', -, -, hw, -, hid, -, hsave, -⟩
    · rw [opStep, hsame]
      exact hr
    · rw [opStep, hsave]
      refine Table.mem_save.mpr (.inr ⟨hr, fun heq => ?_⟩)
      -- the record that is overwritten is not completed
      rcases hw with ⟨hnew, -⟩ | ⟨old, hold, hoid, -, hstatus, -⟩
      · exact Table.find_eq_none_iff.mp hnew r hr (heq.trans hid)
      · obtain rfl := Table.eq_of_key_eq hr hold (heq.trans (hid.trans hoid.symm))
        exact hstatus hc

theorem completed_stays_run (clients : Table InstitutionalClient.id) (h : Sound books) (es : List Op)
    (hr : r ∈ books.reports.rows) (hc : r.status = .completed) : r ∈ (run (opStep clients) books es).reports.rows := by
  induction es generalizing books with
  | nil => exact hr
  | cons op es ih => exact ih (sound_opStep h op) (completed_stays h op hr hc)

end Steps

/-! ## The first call for a date -/

/-- A completed daily report of the client counts the trade. -/
def Counts (books : Books) (clientId : ℕ) (t : Trade) : Prop :=
  ∃ r ∈ books.reports.rows,
    r.key = (clientId, dayOf t.createdAt, .daily) ∧ r.status = .completed ∧ t ∈ r.counted

/-- The call asks for the daily report of the client on the date, and its queries go through. -/
def Op.Completes (clientId : ℕ) (date : ℤ) : Op → Prop
  | .store _ _ => False
  | .report dto failure => dto.key = (clientId, date, .daily) ∧ failure = none

section First

variable {books : Books} {clientId : ℕ} {client : InstitutionalClient} {date : ℤ} {op : Op} {t : Trade}

/-- Only a call that completes the report of the date completes it. -/
theorem unreported_opStep (h : Sound books) (hfree : Unreported books.reports (clientId, date, .daily))
    (hop : ¬ op.Completes clientId date) : Unreported (opStep clients books op).reports (clientId, date, .daily) := by
  cases op with
  | store userId draft => exact hfree
  | report dto failure =>
    rcases generateReport_cases clients h.keys failure with
      ⟨hsame, -⟩ | ⟨client, started, r, -, -, -, -, -, hrkey, hsave, hcounted⟩
    · rw [opStep, hsame]
      exact hfree
    · rw [opStep, hsave]
      intro x hx hkey hcompleted
      rcases Table.mem_save.mp hx with rfl | ⟨hx, -⟩
      · rcases hcounted with ⟨hnone, -, -⟩ | ⟨-, hfailed, -⟩
        · exact hop ⟨hrkey.symm.trans hkey, hnone⟩
        · rw [hfailed] at hcompleted
          cases hcompleted
      · exact hfree x hx hkey hcompleted

/-- The first call that goes through counts the trades of the date. -/
theorem completes_opStep (h : Sound books) (hclient : clients.find clientId = some client)
    (hfree : Unreported books.reports (clientId, date, .daily)) (hop : op.Completes clientId date) :
    ∃ r ∈ (opStep clients books op).reports.rows, r.key = (clientId, date, .daily) ∧ r.status = .completed ∧
      r.counted = tradesOn books.trades client.userId date := by
  cases op with
  | store => cases hop
  | report dto failure =>
    obtain ⟨hkey, rfl⟩ := hop
    have hid : dto.institutionalClientId = clientId := congrArg (fun k => k.1) hkey
    have hdate : dto.reportDate = date := congrArg (fun k => k.2.1) hkey
    rcases generateReport_cases clients h.keys none with
      ⟨-, hnone | hreported⟩ | ⟨client', started, r, hclient', -, -, -, -, hrkey, hsave, hcounted⟩
    · rw [hid, hclient] at hnone
      cases hnone
    · rw [hkey] at hreported
      exact absurd hfree hreported
    · obtain rfl : client' = client := by simpa [hid, hclient, eq_comm] using hclient'
      rcases hcounted with ⟨-, hstatus, hc⟩ | ⟨hne, -⟩
      · refine ⟨r, ?_, hrkey.trans hkey, hstatus, hdate ▸ hc⟩
        rw [opStep, hsave]
        exact Table.mem_save_self _ _
      · exact absurd rfl hne

/-- A report is completed by the calls before, when one of them goes through. -/
theorem unreported_run_iff (h : Sound books) (hclient : clients.find clientId = some client)
    (hfree : Unreported books.reports (clientId, date, .daily)) (es : List Op) :
    Unreported (run (opStep clients) books es).reports (clientId, date, .daily) ↔
      ∀ op ∈ es, ¬ op.Completes clientId date := by
  induction es generalizing books with
  | nil => exact iff_of_true hfree fun _ h => nomatch h
  | cons op es ih =>
    rw [run_cons, List.forall_mem_cons]
    by_cases hop : op.Completes clientId date
    · refine iff_of_false ?_ fun hall => hall.1 hop
      intro hlast
      obtain ⟨r, hr, hkey, hstatus, -⟩ := completes_opStep h hclient hfree hop
      exact hlast r (completed_stays_run clients (sound_opStep h op) es hr hstatus) hkey hstatus
    · rw [ih (sound_opStep h op) (unreported_opStep h hfree hop), and_iff_right hop]

/-- A trade stored before the first call is counted by it. -/
theorem counts_of_completes (h : Sound books) (hclient : clients.find clientId = some client)
    (hfree : Unreported books.reports (clientId, dayOf t.createdAt, .daily)) (ht : t ∈ books.trades)
    (huser : t.userId = client.userId) (hwindow : InWindow (dayOf t.createdAt) t.createdAt) (es : List Op)
    (hcompletes : ∃ op ∈ es, op.Completes clientId (dayOf t.createdAt)) :
    Counts (run (opStep clients) books es) clientId t := by
  induction es generalizing books with
  | nil =>
    obtain ⟨op, hop, -⟩ := hcompletes
    cases hop
  | cons op es ih =>
    by_cases hop : op.Completes clientId (dayOf t.createdAt)
    · obtain ⟨r, hr, hkey, hstatus, hcounted⟩ := completes_opStep h hclient hfree hop
      refine ⟨r, completed_stays_run clients (sound_opStep h op) es hr hstatus, hkey, hstatus, ?_⟩
      rw [hcounted]
      exact List.mem_filter.mpr ⟨ht, by simpa using ⟨huser, hwindow⟩⟩
    · refine ih (sound_opStep h op) (unreported_opStep h hfree hop) ?_ ?_
      · cases op with
        | store userId draft => exact List.mem_append_left _ ht
        | report dto failure =>
          rcases generateReport_cases clients h.keys failure with
            ⟨hsame, -⟩ | ⟨client, started, r, -, -, -, -, -, -, hsave, -⟩
          · rw [opStep, hsame]
            exact ht
          · rw [opStep, hsave]
            exact ht
      · obtain ⟨op', hmem, hop'⟩ := hcompletes
        rcases List.mem_cons.mp hmem with rfl | hmem
        · exact absurd hop' hop
        · exact ⟨op', hmem, hop'⟩

/-- **A stored trade is counted** exactly when no call for its date went through before it, and one
does after it, unless it is of the last millisecond of the date. -/
theorem counts_run_iff (hclient : clients.find clientId = some client) (draft : TradeDraft) (pre post : List Op) :
    Counts (run (opStep clients) emptyBooks (pre ++ .store client.userId draft :: post)) clientId
        (storedTrade (run (opStep clients) emptyBooks pre).trades client.userId draft) ↔
      InWindow (dayOf draft.createdAt) draft.createdAt ∧
        (∀ op ∈ pre, ¬ op.Completes clientId (dayOf draft.createdAt)) ∧
        ∃ op ∈ post, op.Completes clientId (dayOf draft.createdAt) := by
  have hempty : Unreported emptyBooks.reports (clientId, dayOf draft.createdAt, .daily) := fun _ hr => nomatch hr
  have hpre := unreported_run_iff sound_emptyBooks hclient hempty pre
  rw [run_append, run_cons]
  set before := run (opStep clients) emptyBooks pre
  have hsound : Sound before := sound_run clients sound_emptyBooks pre
  set stored := opStep clients before (.store client.userId draft)
  have hsound' : Sound stored := sound_opStep hsound _
  set t := storedTrade before.trades client.userId draft
  have htime : t.createdAt = draft.createdAt := rfl
  constructor
  · rintro ⟨r, hr, hkey, hstatus, hcounted⟩
    have hlast := sound_run clients hsound' post
    have hdate : r.reportDate = dayOf draft.createdAt := congrArg (fun k => k.2.1) hkey
    have hwindow := hlast.windows r hr t hcounted
    rw [hdate, htime] at hwindow
    have hfree : Unreported before.reports (clientId, dayOf draft.createdAt, .daily) := by
      intro r' hr' hkey' hstatus'
      -- a report completed before the trade was stored would be the one that counts it
      have hr'' := completed_stays_run clients hsound' post hr' hstatus'
      obtain rfl := hlast.keys.eq hr'' hr (hkey'.trans hkey.symm)
      exact lt_irrefl _ (hsound.ids t (hsound.stored r' hr' t hcounted))
    refine ⟨hwindow, hpre.mp hfree, ?_⟩
    by_contra hnone
    have hall : ∀ op ∈ post, ¬ op.Completes clientId (dayOf draft.createdAt) :=
      fun op hop hc => hnone ⟨op, hop, hc⟩
    exact (unreported_run_iff hsound' hclient hfree post).mpr hall r hr hkey hstatus
  · rintro ⟨hwindow, hnone, hcompletes⟩
    have hfree : Unreported stored.reports (clientId, dayOf t.createdAt, .daily) := hpre.mpr hnone
    have hmem : t ∈ stored.trades := List.mem_append_right _ (List.mem_singleton_self _)
    exact counts_of_completes hsound' hclient hfree hmem rfl hwindow post hcompletes

end First

/-! ## Histories -/

/-- The event generates the daily report of the client on the date, and its queries go through. -/
def BooksEvent.Reports (client : InstitutionalClient) (date : ℤ) : BooksEvent → Prop
  | .trade _ _ => False
  | .generateReport dto failure => dto.key = (client.id, date, .daily) ∧ failure = none
  | .midnightRun now failures => client.isActive ∧ dayOf now = date ∧ failures client.id = none

theorem completes_ops_iff {client : InstitutionalClient} (hclient : client ∈ clients.rows) (date : ℤ)
    (e : BooksEvent) : (∃ op ∈ ops clients e, op.Completes client.id date) ↔ e.Reports client date := by
  cases e with
  | trade => simp [ops, Op.Completes, BooksEvent.Reports]
  | generateReport dto failure => simp [ops, Op.Completes, BooksEvent.Reports]
  | midnightRun now failures =>
    constructor
    · rintro ⟨op, hop, hcompletes⟩
      obtain ⟨c, hc, rfl⟩ := List.mem_map.mp hop
      obtain ⟨hmem, hactive⟩ := List.mem_filter.mp hc
      obtain ⟨hkey, hnone⟩ := hcompletes
      have hid : c.id = client.id := congrArg (fun k => k.1) hkey
      have hdate : dayOf now = date := congrArg (fun k => k.2.1) hkey
      obtain rfl := Table.eq_of_key_eq hmem hclient hid
      exact ⟨hactive, hdate, hnone⟩
    · rintro ⟨hactive, rfl, hnone⟩
      exact ⟨_, List.mem_map_of_mem (List.mem_filter.mpr ⟨hclient, hactive⟩), rfl, hnone⟩

/-- A trade is counted by at most one report, and by one exactly when a report of its date counts
it. -/
theorem length_countingReports {books : Books} (h : Sound books) (clientId : ℕ) (t : Trade) :
    (countingReports books clientId t).length ≤ 1 ∧
      ((countingReports books clientId t).length = 1 ↔ Counts books clientId t) := by
  have hmem : ∀ r, r ∈ countingReports books clientId t ↔ r ∈ books.reports.rows ∧
      r.key = (clientId, dayOf t.createdAt, .daily) ∧ r.status = .completed ∧ t ∈ r.counted := by
    intro r
    simp only [countingReports, List.mem_filter, decide_eq_true_eq]
    constructor
    · rintro ⟨hr, rfl, htype, hstatus, hcounted⟩
      have hdate := dayOf_of_inWindow (h.windows r hr t hcounted)
      exact ⟨hr, by rw [ReconciliationReport.key, hdate, htype], hstatus, hcounted⟩
    · rintro ⟨hr, hkey, hstatus, hcounted⟩
      exact ⟨hr, congrArg (fun k => k.1) hkey, congrArg (fun k => k.2.2) hkey, hstatus, hcounted⟩
  have hle : (countingReports books clientId t).length ≤ 1 := by
    have hnodup : ((countingReports books clientId t).map fun r => r.key).Nodup :=
      h.keys.sublist (List.filter_sublist.map _)
    have hsubset : ((countingReports books clientId t).map fun r => r.key) ⊆
        [(clientId, dayOf t.createdAt, ReportType.daily)] := by
      intro key hkey
      obtain ⟨r, hr, rfl⟩ := List.mem_map.mp hkey
      exact List.mem_singleton.mpr ((hmem r).mp hr).2.1
    simpa using (List.subperm_of_subset hnodup hsubset).length_le
  refine ⟨hle, ?_⟩
  constructor
  · intro hone
    obtain ⟨r, hr⟩ := List.exists_mem_of_length_pos (hone ▸ Nat.one_pos : 0 < (countingReports books clientId t).length)
    obtain ⟨hrow, hcounts⟩ := (hmem r).mp hr
    exact ⟨r, hrow, hcounts⟩
  · rintro ⟨r, hrow, hcounts⟩
    exact le_antisymm hle (List.length_pos_of_mem ((hmem r).mpr ⟨hrow, hcounts⟩))

/-- **The reports that count a trade.** In every history, the completed daily reports of a client
count its trade at most once, and they count it exactly when the trade was stored before the first
report of its date was completed, a report of its date is completed after it, and it is not of the
last millisecond of its date. -/
theorem counted_once_iff (clients : Table InstitutionalClient.id) {client : InstitutionalClient}
    (hclient : client ∈ clients.rows) (draft : TradeDraft) (pre post : List BooksEvent) :
    let last := run (booksStep clients) emptyBooks (pre ++ .trade client.userId draft :: post)
    let t := storedTrade (run (booksStep clients) emptyBooks pre).trades client.userId draft
    (countingReports last client.id t).length ≤ 1 ∧
      ((countingReports last client.id t).length = 1 ↔
        InWindow (dayOf draft.createdAt) draft.createdAt ∧
          (∀ e ∈ pre, ¬ e.Reports client (dayOf draft.createdAt)) ∧
          ∃ e ∈ post, e.Reports client (dayOf draft.createdAt)) := by
  intro last t
  have hfind : clients.find client.id = some client := Table.find_of_mem hclient
  have hlast : last = run (opStep clients) emptyBooks
      (pre.flatMap (ops clients) ++ .store client.userId draft :: post.flatMap (ops clients)) := by
    simp only [last, run_booksStep, List.flatMap_append, List.flatMap_cons, ops, List.singleton_append]
  have hsound : Sound last := hlast ▸ sound_run clients sound_emptyBooks _
  obtain ⟨hle, hone⟩ := length_countingReports hsound client.id t
  refine ⟨hle, hone.trans ?_⟩
  have hcounts := counts_run_iff hfind draft (pre.flatMap (ops clients)) (post.flatMap (ops clients))
  rw [← hlast, ← run_booksStep] at hcounts
  rw [hcounts]
  -- an event reports the date when one of its calls does
  have hpre : (∀ op ∈ pre.flatMap (ops clients), ¬ op.Completes client.id (dayOf draft.createdAt)) ↔
      ∀ e ∈ pre, ¬ e.Reports client (dayOf draft.createdAt) := by
    simp only [← completes_ops_iff hclient, List.mem_flatMap]
    grind
  have hpost : (∃ op ∈ post.flatMap (ops clients), op.Completes client.id (dayOf draft.createdAt)) ↔
      ∃ e ∈ post, e.Reports client (dayOf draft.createdAt) := by
    simp only [← completes_ops_iff hclient, List.mem_flatMap]
    grind
  rw [hpre, hpost]

/-! ## A day -/

/-- A trade at the given time. -/
def tradeAt (createdAt : ℤ) : TradeDraft := ⟨.buy, 1, 100, 100, createdAt⟩

def activeClient : InstitutionalClient := { id := 1, userId := 7 }

/-- One active client. -/
def activeClients : Table InstitutionalClient.id := Table.empty.save activeClient

/-- A trade of noon, reported by a call on the next day that no midnight run of its own day came
before. -/
theorem counted_once_next_day :
    let pre : List BooksEvent := []
    let post : List BooksEvent := [.midnightRun dayLength fun _ => none,
      .generateReport { institutionalClientId := 1, reportDate := 0 } none]
    let draft := tradeAt (dayLength / 2)
    let last := run (booksStep activeClients) emptyBooks (pre ++ .trade activeClient.userId draft :: post)
    let t := storedTrade (run (booksStep activeClients) emptyBooks pre).trades activeClient.userId draft
    (countingReports last activeClient.id t).length ≤ 1 ∧
      ((countingReports last activeClient.id t).length = 1 ↔
        InWindow (dayOf draft.createdAt) draft.createdAt ∧
          (∀ e ∈ pre, ¬ e.Reports activeClient (dayOf draft.createdAt)) ∧
          ∃ e ∈ post, e.Reports activeClient (dayOf draft.createdAt)) :=
  counted_once_iff activeClients (Table.mem_save_self _ _) _ _ _

/-- **Two midnight runs and a trade of noon between them**: the first run completes the report of
the day before the trade, the second one reports the next day, and a later call for the day returns
the completed report. -/
theorem trade_of_noon_not_counted :
    let history : List BooksEvent := [.midnightRun 0 fun _ => none, .trade 7 (tradeAt (dayLength / 2)),
      .midnightRun dayLength fun _ => none, .generateReport { institutionalClientId := 1, reportDate := 0 } none]
    let last := run (booksStep activeClients) emptyBooks history
    last.trades.length = 1 ∧ last.reports.rows.length = 2 ∧
      ∀ t ∈ last.trades, countingReports last 1 t = [] := by
  decide +kernel

end Institutional.Reconciliation
