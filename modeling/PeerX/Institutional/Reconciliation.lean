import PeerX.Foundations.Runs
import PeerX.Institutional.Entities

/-!
# Institutional clients: reconciliation reports

`generateReport` summarizes the trades of a client on a date. A completed report is returned as it
is from then on; another one is computed again. `generateDailyReportsForAllClients` runs at midnight
and generates the reports of the date on which it runs. Times are numbers of microseconds and dates
numbers of days, both in UTC.
-/

namespace Institutional.Reconciliation

open Relational Concurrency Orders

/-- The microseconds of a day. -/
def dayLength : ℤ := 86400000000

/-- The date of a time: `toISOString().split('T')[0]`. -/
def dayOf (time : ℤ) : ℤ := time / dayLength

/-- `dayStart.setHours(0, 0, 0, 0)`. -/
def dayStart (date : ℤ) : ℤ := date * dayLength

/-- `dayEnd.setHours(23, 59, 59, 999)`. -/
def dayEnd (date : ℤ) : ℤ := date * dayLength + 86399999000

/-- `createdAt: Between(dayStart, dayEnd)`. -/
def InWindow (date time : ℤ) : Prop := dayStart date ≤ time ∧ time ≤ dayEnd date

instance (date time : ℤ) : Decidable (InWindow date time) := inferInstanceAs (Decidable (_ ∧ _))

theorem dayOf_of_inWindow {date time : ℤ} (h : InWindow date time) : dayOf time = date := by
  obtain ⟨hstart, hend⟩ := h
  unfold dayStart dayEnd dayLength at *
  unfold dayOf dayLength
  omega

/-- A row of `trades`. -/
structure Trade where
  id : ℕ
  userId : ℕ
  type : OrderSide
  amount : ℚ
  price : ℚ
  totalValue : ℚ
  createdAt : ℤ
deriving DecidableEq

inductive ReportType : Type
  | daily
  | weekly
  | monthly
  | custom
deriving DecidableEq

inductive ReportStatus : Type
  | pending
  | generating
  | completed
  | failed
deriving DecidableEq

/-- A row of `reconciliation_reports`. `counted` lists the trades that `totalTrades` counts. -/
structure ReconciliationReport where
  id : ℕ
  institutionalClientId : ℕ
  reportDate : ℤ
  reportType : ReportType
  totalTrades : ℕ := 0
  totalBuyVolume : ℚ := 0
  totalSellVolume : ℚ := 0
  netPnl : ℚ := 0
  totalFees : ℚ := 0
  openingBalance : ℚ := 0
  closingBalance : ℚ := 0
  discrepancy : ℚ := 0
  isReconciled : Bool := false
  status : ReportStatus
  error : Option String := none
  generatedBy : String := "SYSTEM"
  counted : List Trade := []
deriving DecidableEq

/-- What `generateReport` looks for. -/
def ReconciliationReport.key (r : ReconciliationReport) : ℕ × ℤ × ReportType :=
  (r.institutionalClientId, r.reportDate, r.reportType)

structure GenerateReconciliationReportDto where
  institutionalClientId : ℕ
  reportDate : ℤ
  reportType : Option ReportType := none
deriving DecidableEq

/-- The key of the report that is asked for. -/
def GenerateReconciliationReportDto.key (dto : GenerateReconciliationReportDto) : ℕ × ℤ × ReportType :=
  (dto.institutionalClientId, dto.reportDate, dto.reportType.getD .daily)

/-- The exceptions of `generateReport`. -/
inductive ReportError : Type
  | notFound (message : String)
  /-- What a query threw. -/
  | query (message : String)
deriving DecidableEq

/-- The tables. -/
structure Books where
  trades : List Trade
  reports : Table ReconciliationReport.id

def Trade.value (t : Trade) : ℚ := if t.totalValue ≠ 0 then t.totalValue else t.amount * t.price

/-- The volume of one side. -/
def volume (side : OrderSide) (trades : List Trade) : ℚ :=
  ((trades.filter fun t => t.type = side).map Trade.value).sum

/-- The report with the statistics of the trades. -/
def ReconciliationReport.complete (report : ReconciliationReport) (trades : List Trade) : ReconciliationReport :=
  let totalBuyVolume := volume .buy trades
  let totalSellVolume := volume .sell trades
  let totalFees := (totalBuyVolume + totalSellVolume) * (1 / 1000)
  let netPnl := totalSellVolume - totalBuyVolume - totalFees
  let openingBalance := 0
  let closingBalance := openingBalance + netPnl
  let discrepancy := closingBalance - (openingBalance + netPnl)
  { report with
    totalTrades := trades.length
    totalBuyVolume
    totalSellVolume
    netPnl
    totalFees
    openingBalance
    closingBalance
    discrepancy
    isReconciled := |discrepancy| < 1 / 10000
    status := .completed
    counted := trades }

/-- The trades of the user on the date. -/
def tradesOn (trades : List Trade) (userId : ℕ) (date : ℤ) : List Trade :=
  trades.filter fun t => t.userId = userId ∧ InWindow date t.createdAt

/-- A generated identifier: no stored report has it. -/
def newId (reports : Table ReconciliationReport.id) : ℕ := (reports.rows.map fun r => r.id).foldr max 0 + 1

/-- The first report with the key. -/
def findReport (reports : Table ReconciliationReport.id) (key : ℕ × ℤ × ReportType) : Option ReconciliationReport :=
  reports.rows.find? fun r => r.key = key

/-- The record that is saved before the trades are read. An `error` that is `undefined` is not
written, so the stored text stays. -/
def startedReport (reports : Table ReconciliationReport.id) (dto : GenerateReconciliationReportDto) :
    ReconciliationReport :=
  match findReport reports dto.key with
  | some existing => { existing with status := .generating }
  | none =>
    { id := newId reports
      institutionalClientId := dto.institutionalClientId
      reportDate := dto.reportDate
      reportType := dto.reportType.getD .daily
      status := .generating }

/-- `ReconciliationService.generateReport`. The queries for the trades and the orders throw
`failure`, if it is given. -/
def generateReport (clients : Table InstitutionalClient.id) (dto : GenerateReconciliationReportDto)
    (failure : Option String) (books : Books) : Except ReportError ReconciliationReport × Books :=
  match clients.find dto.institutionalClientId with
  | none =>
    (.error (.notFound ("Institutional client " ++ toString dto.institutionalClientId ++ " not found")), books)
  | some client =>
    match (findReport books.reports dto.key).filter fun existing => existing.status = .completed with
    | some existing => (.ok existing, books)
    | none =>
      let report := startedReport books.reports dto
      let reports := books.reports.save report
      match failure with
      | some message =>
        (.error (.query message),
          { books with reports := reports.save { report with status := .failed, error := some message } })
      | none =>
        let report := report.complete (tradesOn books.trades client.userId dto.reportDate)
        (.ok report, { books with reports := reports.save report })

/-- The clients of `generateDailyReportsForAllClients`, one after the other. A client whose report
fails is left out of the result. -/
def generateDailyReports (clients : Table InstitutionalClient.id) (date : ℤ) (failures : ℕ → Option String) :
    List InstitutionalClient → Books → List ReconciliationReport × Books
  | [], books => ([], books)
  | client :: rest, books =>
    let (outcome, books) := generateReport clients
      { institutionalClientId := client.id, reportDate := date, reportType := some .daily } (failures client.id) books
    let (reports, books) := generateDailyReports clients date failures rest books
    match outcome with
    | .ok report => (report :: reports, books)
    | .error _ => (reports, books)

def generateDailyReportsForAllClients (clients : Table InstitutionalClient.id) (now : ℤ)
    (reportDate : Option ℤ) (failures : ℕ → Option String) (books : Books) : List ReconciliationReport × Books :=
  let date := reportDate.getD (dayOf now)
  generateDailyReports clients date failures (clients.rows.filter fun client => client.isActive) books

/-- What is known of a trade before it is stored. -/
structure TradeDraft where
  type : OrderSide
  amount : ℚ
  price : ℚ
  totalValue : ℚ
  createdAt : ℤ
deriving DecidableEq

/-- The row that is stored for a trade. Its identifier is the generated one. -/
def storedTrade (trades : List Trade) (userId : ℕ) (draft : TradeDraft) : Trade :=
  { draft with id := trades.length, userId }

/-- A trade of a user, a call of `generateReport`, or a run of the cron job. -/
inductive BooksEvent : Type
  | trade (userId : ℕ) (draft : TradeDraft)
  | generateReport (dto : GenerateReconciliationReportDto) (failure : Option String)
  | midnightRun (now : ℤ) (failures : ℕ → Option String)

/-- The tables after an event. -/
def booksStep (clients : Table InstitutionalClient.id) (books : Books) : BooksEvent → Books
  | .trade userId draft => { books with trades := books.trades ++ [storedTrade books.trades userId draft] }
  | .generateReport dto failure => (generateReport clients dto failure books).2
  | .midnightRun now failures => (generateDailyReportsForAllClients clients now none failures books).2

/-- No trades and no reports. -/
def emptyBooks : Books := ⟨[], .empty⟩

/-- The `COMPLETED` daily reports of a client that count the trade. -/
def countingReports (books : Books) (clientId : ℕ) (t : Trade) : List ReconciliationReport :=
  books.reports.rows.filter fun r =>
    r.institutionalClientId = clientId ∧ r.reportType = .daily ∧ r.status = .completed ∧ t ∈ r.counted

end Institutional.Reconciliation
