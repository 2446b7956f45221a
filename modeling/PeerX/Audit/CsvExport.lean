import PeerX.Audit.Chain
import PeerX.Foundations.Csv
import PeerX.Foundations.RecentGroups

/-!
# Audit: the export of the log

The entries of a period are written as a table of 15 columns. Every field stands between quotes, but
the quotes inside it are doubled in four of the columns only. A quote in another column ends its
field early: what is behind it is read as further fields, or as further rows. The log is also read
page by page, newest entries first.

## Main results

* `parse_toCsv_iff`: the lists of entries that are read back
* `readBack_iff`: the periods whose export is read back
* `getAuditTrail_pages`: the pages miss no entry, also when others are added between two requests
-/

namespace Audit

open Csv Queue Serialization

def AuditSeverity.text : AuditSeverity → String
  | .info => "INFO"
  | .warning => "WARNING"
  | .critical => "CRITICAL"

/-- An `AuditLog`, with all of its columns. -/
structure AuditLogRow where
  id : JsString
  content : Content
  severity : AuditSeverity
  metadata : Option Value
  ipAddress : Option JsString
  userAgent : Option JsString
  requestId : Option JsString
  checksum : JsString
  previousChecksum : Option JsString
  createdAt : ℤ

/-- The bounds of a period. -/
structure DateRange where
  fromDate : ℤ
  toDate : ℤ

def DateRange.Between (dateRange : DateRange) (time : ℤ) : Prop :=
  dateRange.fromDate ≤ time ∧ time ≤ dateRange.toDate

instance (dateRange : DateRange) (time : ℤ) : Decidable (dateRange.Between time) := inferInstanceAs (Decidable (_ ∧ _))

/-- `find`, in the order of creation. -/
def findBetween (table : List AuditLogRow) (dateRange : DateRange) : List AuditLogRow :=
  (table.filter fun log => dateRange.Between log.createdAt).insertionSort fun a b => a.createdAt ≤ b.createdAt

/-- The names of the columns. -/
def headers : List JsString :=
  ["ID", "User ID", "Event Type", "Severity", "Entity Type", "Entity ID", "Before State", "After State", "Metadata",
    "IP Address", "User Agent", "Request ID", "Checksum", "Previous Checksum", "Created At"].map ascii

/-- A value that counts as true. -/
def isTruthy : Value → Bool
  | .leaf (.scalar .null) => false
  | .leaf (.scalar (.boolean b)) => b
  | .leaf (.scalar (.number n)) => n.text ≠ ascii "0"
  | .leaf (.scalar (.string s)) => s ≠ []
  | _ => true

/-- `JSON.stringify(state || {})`. -/
def stateText (state : Option Value) : JsString := stringify ((state.filter isTruthy).getD (.object []))

/-- The characters of CSV. -/
def csv : Format CodeUnit := ⟨0x22, 0x2C, 0x0A, by decide, by decide, by decide⟩

def escapeCSV (value : JsString) : JsString := csv.escape value

/-- The fields of an entry, as they are put between quotes. -/
def row (log : AuditLogRow) : List JsString :=
  [log.id, log.content.userId.getD [], ascii log.content.eventType.text, ascii log.severity.text,
    log.content.entityType.getD [], log.content.entityId.getD [], escapeCSV (stateText log.content.beforeState),
    escapeCSV (stateText log.content.afterState), escapeCSV (stateText log.metadata), log.ipAddress.getD [],
    escapeCSV (log.userAgent.getD []), log.requestId.getD [], log.checksum, log.previousChecksum.getD [],
    toISOString log.createdAt]

/-- The text of the entries. -/
def toCsv (logs : List AuditLogRow) : JsString :=
  (ascii "\n").intercalate ((ascii ",").intercalate headers ::
    logs.map fun log => (ascii ",").intercalate ((row log).map fun field => ascii "\"" ++ field ++ ascii "\""))

def exportAuditLog (table : List AuditLogRow) (dateRange : DateRange) : JsString := toCsv (findBetween table dateRange)

/-- The values of an entry, as they are rendered. -/
def rendered (log : AuditLogRow) : List JsString :=
  [log.id, log.content.userId.getD [], ascii log.content.eventType.text, ascii log.severity.text,
    log.content.entityType.getD [], log.content.entityId.getD [], stateText log.content.beforeState,
    stateText log.content.afterState, stateText log.metadata, log.ipAddress.getD [], log.userAgent.getD [],
    log.requestId.getD [], log.checksum, log.previousChecksum.getD [], toISOString log.createdAt]

/-- The export is read back: the names of the columns, and one row of 15 values for each
entry. -/
def ReadBack (table : List AuditLogRow) (dateRange : DateRange) : Prop :=
  csv.parse (exportAuditLog table dateRange) = some (headers :: (findBetween table dateRange).map rendered)

/-- The strings whose quotes are not doubled. -/
def unescaped (log : AuditLogRow) : List JsString :=
  [log.id, log.content.userId.getD [], log.content.entityType.getD [], log.content.entityId.getD [],
    log.ipAddress.getD [], log.requestId.getD [], log.checksum, log.previousChecksum.getD []]

theorem mark_not_mem_digits (width n : ℕ) : csv.mark ∉ digits width n := by
  induction width generalizing n with
  | zero => exact List.not_mem_nil
  | succ width ih =>
    rw [digits, List.mem_append, not_or]
    refine ⟨ih _, fun h => ?_⟩
    have hval : (0x22 : ℕ) = (0x30 + n % 10) % 65536 := congrArg Fin.val (List.mem_singleton.mp h)
    omega

theorem mark_not_mem_toISOString (time : ℤ) : csv.mark ∉ toISOString time := by
  have hsigns : csv.mark ∉ ascii "-" ∧ csv.mark ∉ ascii "+" := by decide
  have hseparators : csv.mark ∉ ascii "T" ∧ csv.mark ∉ ascii ":" ∧ csv.mark ∉ ascii "." ∧ csv.mark ∉ ascii "Z" := by
    decide
  have hyear : ∀ year : ℤ, csv.mark ∉ if 0 ≤ year ∧ year ≤ 9999 then digits 4 year.toNat
      else ascii (if year < 0 then "-" else "+") ++ digits 6 year.natAbs := by
    intro year
    split
    · exact mark_not_mem_digits _ _
    · rw [List.mem_append, not_or]
      refine ⟨?_, mark_not_mem_digits _ _⟩
      split
      · exact hsigns.1
      · exact hsigns.2
  unfold toISOString
  generalize civilFromDays (time / 86400000) = date
  obtain ⟨year, month, day⟩ := date
  simp only [List.mem_append, hyear, mark_not_mem_digits, hsigns, hseparators, or_self, not_false_eq_true]

theorem mark_not_mem_eventType (eventType : AuditEventType) : csv.mark ∉ ascii eventType.text := by
  cases eventType <;> decide

theorem mark_not_mem_severity (severity : AuditSeverity) : csv.mark ∉ ascii severity.text := by
  cases severity <;> decide

/-- The columns whose quotes are doubled. -/
def escapedColumns : List Bool :=
  [false, false, false, false, false, false, true, true, true, false, true, false, false, false, false]

/-- The cells of an entry. -/
def columns (log : AuditLogRow) : List (Cell CodeUnit) := List.zipWith Cell.mk (rendered log) escapedColumns

theorem map_value_columns (log : AuditLogRow) : (columns log).map Cell.value = rendered log := rfl

theorem map_field_columns (log : AuditLogRow) : (columns log).map (Cell.field csv) = row log := rfl

theorem clean_columns_iff (log : AuditLogRow) :
    (∀ cell ∈ columns log, cell.Clean csv) ↔ ∀ value ∈ unescaped log, csv.mark ∉ value := by
  simp only [columns, rendered, escapedColumns, unescaped, List.zipWith, List.forall_mem_cons, Cell.Clean,
    List.not_mem_nil, mark_not_mem_eventType, mark_not_mem_severity, mark_not_mem_toISOString, true_or,
    Bool.false_eq_true, false_or, true_and, and_true, not_false_eq_true, implies_true, false_imp_iff]

theorem toCsv_eq (logs : List AuditLogRow) :
    toCsv logs = csv.tableText headers ((logs.map columns).map (List.map (Cell.field csv))) := by
  have hfields : (logs.map columns).map (List.map (Cell.field csv)) = logs.map row := by
    rw [List.map_map]
    exact List.map_congr_left fun log _ => map_field_columns log
  rw [hfields, toCsv, Format.tableText, List.map_map]
  rfl

/-- **The lists of entries that are read back.** -/
theorem parse_toCsv_iff (logs : List AuditLogRow) :
    csv.parse (toCsv logs) = some (headers :: logs.map rendered) ↔
      ∀ log ∈ logs, ∀ value ∈ unescaped log, csv.mark ∉ value := by
  have hvalues : (logs.map columns).map (List.map Cell.value) = logs.map rendered := by
    rw [List.map_map]
    exact List.map_congr_left fun log _ => map_value_columns log
  have hcolumns : ∀ cells ∈ logs.map columns, cells ≠ [] := by
    intro cells hcells
    obtain ⟨log, -, rfl⟩ := List.mem_map.mp hcells
    exact List.cons_ne_nil _ _
  rw [toCsv_eq, ← hvalues, Format.parse_table_eq_iff (by decide) (by decide) hcolumns, List.forall_mem_map]
  exact forall₂_congr fun log _ => clean_columns_iff log

theorem mem_findBetween {table : List AuditLogRow} {dateRange : DateRange} {log : AuditLogRow} :
    log ∈ findBetween table dateRange ↔ log ∈ table ∧ dateRange.Between log.createdAt := by
  rw [findBetween, List.mem_insertionSort, List.mem_filter, decide_eq_true_iff]

/-- **The periods whose export is read back**: the strings whose quotes are not doubled have
none. -/
theorem readBack_iff (table : List AuditLogRow) (dateRange : DateRange) :
    ReadBack table dateRange ↔ ∀ log ∈ table, dateRange.Between log.createdAt →
      ∀ value ∈ unescaped log, csv.mark ∉ value := by
  rw [ReadBack, exportAuditLog, parse_toCsv_iff]
  simp only [mem_findBetween, and_imp]

/-- A registration with a request id that contains quotes. -/
def registration : AuditLogRow where
  id := ascii "2b1c"
  content := { (login "u1").toContent with eventType := .register }
  severity := .info
  metadata := none
  ipAddress := none
  userAgent := none
  requestId := some (ascii "r1\",\"x")
  checksum := ascii "9f"
  previousChecksum := some genesis
  createdAt := 0

/-- **The request id is read as two fields.** -/
theorem not_readBack_registration : ¬ ReadBack [registration] ⟨0, 1⟩ := by
  have hfound : findBetween [registration] ⟨0, 1⟩ = [registration] := rfl
  rw [ReadBack, exportAuditLog, hfound, parse_toCsv_iff]
  intro h
  exact h registration List.mem_cons_self (ascii "r1\",\"x") (by decide) (by decide)

/-- An `AuditFilterDto` without dates, whose numbers are natural ones. -/
structure AuditFilterDto where
  userId : Option JsString := none
  eventType : Option AuditEventType := none
  severity : Option AuditSeverity := none
  entityType : Option JsString := none
  entityId : Option JsString := none
  ipAddress : Option JsString := none
  requestId : Option JsString := none
  page : Option ℕ := none
  limit : Option ℕ := none

/-- A text that is asked for; an empty one is not. -/
def asked (text stored : Option JsString) : Bool := (text.filter (· ≠ [])).all fun text => stored = some text

/-- The condition on the entries. -/
def AuditFilterDto.where (filter : AuditFilterDto) (log : AuditLogRow) : Bool :=
  asked filter.userId log.content.userId && (filter.eventType.all (log.content.eventType = ·)) &&
    (filter.severity.all (log.severity = ·)) && asked filter.entityType log.content.entityType &&
    asked filter.entityId log.content.entityId && asked filter.ipAddress log.ipAddress &&
    asked filter.requestId log.requestId

/-- The entries of all pages, as the store lists them for a request: newest first, and those of
one time in any order. -/
def AuditFilterDto.Lists (filter : AuditFilterDto) (table listed : List AuditLogRow) : Prop :=
  listed.Perm (table.filter filter.where) ∧ listed.Pairwise fun a b => b.createdAt ≤ a.createdAt

/-- `number || otherwise`. -/
def numberOr : Option ℕ → ℕ → ℕ
  | some (n + 1), _ => n + 1
  | _, otherwise => otherwise

structure AuditTrail where
  data : List AuditLogRow
  total : ℕ
  page : ℕ
  limit : ℕ
  totalPages : ℕ

/-- `getAuditTrail`, with the entries as they are listed for it. They are counted by a query of
its own. -/
def getAuditTrail (listed : List AuditLogRow) (total : ℕ) (filter : AuditFilterDto) : AuditTrail :=
  let page := numberOr filter.page 1
  let limit := numberOr filter.limit 50
  { data := (listed.drop ((page - 1) * limit)).take limit
    total := total
    page := page
    limit := limit
    totalPages := (total + (limit - 1)) / limit }

/-- Later entries were added. -/
def Appended (table table' : List AuditLogRow) : Prop :=
  ∃ news, table' = table ++ news ∧ ∀ log ∈ table, ∀ new ∈ news, log.createdAt < new.createdAt

theorem numberOr_pos (number : Option ℕ) {otherwise : ℕ} (h : 0 < otherwise) : 0 < numberOr number otherwise := by
  unfold numberOr
  split
  · omega
  · exact h

/-- What is listed after later entries were added ends in what was listed before them. -/
theorem AuditFilterDto.Lists.suffix {filter : AuditFilterDto} {table table' listed listed' : List AuditLogRow}
    (h : filter.Lists table listed) (h' : filter.Lists table' listed') (happended : Appended table table')
    (hdistinct : table'.Pairwise fun a b => a.createdAt ≠ b.createdAt) : listed <:+ listed' := by
  obtain ⟨news, rfl, hlater⟩ := happended
  have hold := (List.pairwise_append.mp hdistinct).1
  rw [RecentGroups.eq_byRecency h.1 h.2 (hold.filter _), RecentGroups.eq_byRecency h'.1 h'.2 (hdistinct.filter _),
    List.filter_append, RecentGroups.byRecency_append fun log hlog new hnew =>
      hlater log (List.mem_of_mem_filter hlog) new (List.mem_of_mem_filter hnew)]
  exact List.suffix_append _ _

/-- **The pages miss no entry**: when no two entries have one time, one that was there at the first
request is on a page if and only if it is asked for. The entries are counted after they are
listed. -/
theorem getAuditTrail_pages (filter : AuditFilterDto) {tables listed : ℕ → List AuditLogRow} {total : ℕ → ℕ}
    (happended : ∀ i, Appended (tables i) (tables (i + 1)))
    (hdistinct : ∀ i, (tables i).Pairwise fun a b => a.createdAt ≠ b.createdAt)
    (hlists : ∀ i, filter.Lists (tables i) (listed i)) (htotal : ∀ i, (listed i).length ≤ total i) {n : ℕ}
    (hlast : (getAuditTrail (listed n) (total n) { filter with page := some (n + 1) }).totalPages ≤ n + 1) :
    ∀ log ∈ tables 0,
      (∃ i ≤ n, log ∈ (getAuditTrail (listed i) (total i) { filter with page := some (i + 1) }).data) ↔
        filter.where log := by
  intro log hlog
  have hlimit := numberOr_pos filter.limit (Nat.zero_lt_succ 49)
  constructor
  · rintro ⟨i, -, hmem⟩
    have hfound := (hlists i).1.mem_iff.mp (List.mem_of_mem_drop (List.mem_of_mem_take hmem))
    exact (List.mem_filter.mp hfound).2
  · intro hwhere
    have hlength : (listed n).length ≤ (n + 1) * numberOr filter.limit 50 := by
      refine (htotal n).trans ?_
      rw [Nat.mul_comm]
      exact Nat.add_le_add_iff_right.mp ((Nat.div_le_iff_le_mul_add_pred hlimit).mp hlast)
    exact RecentGroups.exists_mem_page
      (fun i => (hlists i).suffix (hlists (i + 1)) (happended i) (hdistinct (i + 1)))
      ((hlists 0).1.mem_iff.mpr (List.mem_filter.mpr ⟨hlog, hwhere⟩)) hlength

/-- Another registration arrives between the requests. -/
def registrations : ℕ → List AuditLogRow
  | 0 => [registration]
  | _ => [registration, { registration with createdAt := 1 }]

/-- With one entry a page, and the later registration listed first. -/
theorem getAuditTrail_pages_registrations : ∃ i ≤ 1, registration ∈
    (getAuditTrail (registrations i).reverse 2 { limit := some 1, page := some (i + 1) }).data := by
  refine (@getAuditTrail_pages { limit := some 1 } registrations (fun i => (registrations i).reverse) (fun _ => 2)
    (fun i => ?_) (fun i => ?_) (fun i => ⟨?_, ?_⟩) (fun i => ?_) 1 (by decide) registration List.mem_cons_self).mpr rfl
  · cases i with
    | zero => exact ⟨[{ registration with createdAt := 1 }], rfl, by decide⟩
    | succ i => exact ⟨[], rfl, by simp⟩
  · cases i <;> simp [registrations, registration]
  · rw [List.filter_eq_self.mpr (by cases i <;> simp [registrations, AuditFilterDto.where, asked])]
    exact List.reverse_perm _
  · cases i <;> simp [registrations, registration]
  · cases i <;> simp [registrations]

end Audit
