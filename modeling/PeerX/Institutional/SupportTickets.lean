import PeerX.Foundations.Runs
import PeerX.Foundations.Table
import Mathlib.Data.Rat.Floor
import Mathlib.Tactic.Linarith

/-!
# Institutional: support tickets and their deadlines

A ticket has a deadline for the first response and one for the resolution, and a flag for each that
records whether it was met. The flags are to be set when the staff responds and when the ticket is
resolved, but only while they are `undefined`, and a ticket that is loaded has `null` in them: they
are only ever set to `false`, when a deadline is found to have passed.

Each ticket carries what the code does not store: when the staff first acted on it, when it was
first resolved, and how many times a breach has escalated it.

## Main results

* `Recorded`, `recorded_step`: what the flags record after every call
* `percent_mem`: the statistics are percentages
* `tickets_sound_iff`: the runs in which the flags tell the truth
-/

namespace SupportTickets

open Concurrency Relational

/-! ## The tickets -/

inductive TicketPriority where
  | low
  | medium
  | high
  | critical
  deriving DecidableEq

inductive SlaTier where
  | platinum
  | gold
  | silver

/-- `SupportTicket`, with its history. The number is written from a time and a count. -/
structure Ticket where
  id : String
  ticketNumber : ℤ × ℕ
  institutionalClientId : String
  createdById : ℤ
  subject : String
  description : String
  category : String
  priority : TicketPriority
  status : String
  assignedToId : Option ℤ
  accountManagerId : Option ℤ
  slaResponseDeadline : Option ℤ
  slaResolutionDeadline : Option ℤ
  slaResponseMet : Option Bool
  slaResolutionMet : Option Bool
  internalNotes : Option String
  resolvedAt : Option ℤ
  closedAt : Option ℤ
  firstAction : Option ℤ
  firstResolution : Option ℤ
  responseBreaches : ℕ
  resolutionBreaches : ℕ

/-- What the service reads of an `InstitutionalClient`. A tier may be none of the known ones. -/
structure InstitutionalClient where
  id : String
  slaTier : Option SlaTier
  accountManagerId : Option ℤ

structure CreateSupportTicketDto where
  subject : String
  description : String
  category : Option String
  priority : Option TicketPriority
  assignedToId : Option ℤ

def ticketSlaResponseMinutes : TicketPriority → SlaTier → ℤ
  | .critical, .platinum => 5
  | .critical, .gold => 15
  | .critical, .silver => 30
  | .high, .platinum => 15
  | .high, .gold => 30
  | .high, .silver => 60
  | .medium, .platinum => 30
  | .medium, .gold => 60
  | .medium, .silver => 240
  | .low, .platinum => 60
  | .low, .gold => 240
  | .low, .silver => 480

def ticketSlaResolutionMinutes : TicketPriority → SlaTier → ℤ
  | .critical, .platinum => 60
  | .critical, .gold => 240
  | .critical, .silver => 480
  | .high, .platinum => 240
  | .high, .gold => 480
  | .high, .silver => 1440
  | .medium, .platinum => 480
  | .medium, .gold => 1440
  | .medium, .silver => 2880
  | .low, .platinum => 1440
  | .low, .gold => 2880
  | .low, .silver => 4320

/-- A nullable flag in the memory of the service. -/
inductive Flag where
  | undefined
  | null
  | value (b : Bool)
  deriving DecidableEq

/-- A flag as it is loaded: a column that is `NULL` is loaded as `null`. -/
def Flag.load : Option Bool → Flag
  | none => .null
  | some b => .value b

/-- The deadline is met at this time. A ticket without a deadline meets it. -/
def inTime (deadline : Option ℤ) (now : ℤ) : Bool :=
  match deadline with
  | some deadline => now ≤ deadline
  | none => true

def escalatePriority : TicketPriority → TicketPriority
  | .low => .medium
  | .medium => .high
  | .high => .critical
  | .critical => .critical

/-- A status that resolves a ticket. -/
def IsResolution (status : String) : Prop := status = "RESOLVED" ∨ status = "CLOSED"

instance (status : String) : Decidable (IsResolution status) := inferInstanceAs (Decidable (_ ∨ _))

namespace Ticket

/-- The staff acts on the ticket. -/
def acted (now : ℤ) (ticket : Ticket) :
    Ticket := { ticket with firstAction := ticket.firstAction.or (some now) }

/-- The ticket is resolved. -/
def resolved (now : ℤ) (ticket : Ticket) : Ticket :=
  { ticket with firstResolution := ticket.firstResolution.or (some now) }

/-- What `updateTicketStatus` writes into a ticket that it has loaded. -/
def update (status : String) (internalNotes : Option String) (now : ℤ) (ticket : Ticket) : Ticket :=
  { ticket with
    status := status
    slaResponseMet :=
      if status ≠ "OPEN" ∧ Flag.load ticket.slaResponseMet = .undefined then
        some (inTime ticket.slaResponseDeadline now)
      else ticket.slaResponseMet
    resolvedAt := if IsResolution status then some now else ticket.resolvedAt
    slaResolutionMet :=
      if IsResolution status ∧ Flag.load ticket.slaResolutionMet = .undefined then
        some (inTime ticket.slaResolutionDeadline now)
      else ticket.slaResolutionMet
    closedAt := if status = "CLOSED" then some now else ticket.closedAt
    internalNotes := if internalNotes.any (· ≠ "") then internalNotes else ticket.internalNotes }

/-- The update, with what the history says of it. -/
def updated (status : String) (internalNotes : Option String) (now : ℤ)
    (ticket : Ticket) : Ticket :=
  let ticket := ticket.update status internalNotes now
  let ticket := if status ≠ "OPEN" then ticket.acted now else ticket
  if IsResolution status then ticket.resolved now else ticket

/-- What `assignTicket` writes. -/
def assign (assignedToId : ℤ) (ticket : Ticket) : Ticket :=
  { ticket with
    assignedToId := some assignedToId
    status := if ticket.status = "OPEN" then "IN_PROGRESS" else ticket.status }

/-- What `escalateTicket` writes. -/
def escalate (reason : String) (ticket : Ticket) : Ticket :=
  { ticket with
    status := "ESCALATED"
    priority := escalatePriority ticket.priority
    internalNotes := some (match ticket.internalNotes with
      | none => s!"[ESCALATION] {reason}"
      | some notes => if notes = "" then s!"[ESCALATION] {reason}" else notes ++ "\n\n" ++
        s!"[ESCALATION] {reason}") }

end Ticket

/-! ## The service -/

/-- `SupportTicketService`, and the time of the last call. -/
structure SupportTicketService where
  tickets : Table Ticket.id
  ticketCounter : ℕ
  clock : ℤ

namespace SupportTicketService

/-- A new service. -/
def new : SupportTicketService := ⟨.empty, 0, 0⟩

/-- `createTicket`, with the client that is found. The database gives an id that no other ticket
has. -/
def createTicket (s : SupportTicketService) (id institutionalClientId : String)
    (client : Option InstitutionalClient) (createdById : ℤ) (dto : CreateSupportTicketDto) :
    Except String Ticket × SupportTicketService :=
  match client with
  | none => (.error s!"Institutional client {institutionalClientId} not found", s)
  | some client =>
    let priority := dto.priority.getD .high
    let responseMinutes := (client.slaTier.map (ticketSlaResponseMinutes priority)).getD 30
    let resolutionMinutes := (client.slaTier.map (ticketSlaResolutionMinutes priority)).getD 480
    let ticket : Ticket :=
      { id := id
        ticketNumber := (s.clock, s.ticketCounter + 1)
        institutionalClientId := institutionalClientId
        createdById := createdById
        subject := dto.subject
        description := dto.description
        category := dto.category.getD "GENERAL"
        priority := priority
        status := "OPEN"
        assignedToId := dto.assignedToId
        accountManagerId := client.accountManagerId
        slaResponseDeadline := some (s.clock + responseMinutes * 60 * 1000)
        slaResolutionDeadline := some (s.clock + resolutionMinutes * 60 * 1000)
        slaResponseMet := none
        slaResolutionMet := none
        internalNotes := none
        resolvedAt := none
        closedAt := none
        firstAction := none
        firstResolution := none
        responseBreaches := 0
        resolutionBreaches := 0 }
    if (s.tickets.find id).isSome then
      (.error "duplicate key", { s with ticketCounter := s.ticketCounter + 1 })
    else
      (.ok ticket,
        { s with tickets := s.tickets.save ticket, ticketCounter := s.ticketCounter + 1 })

/-- A ticket is loaded, changed and saved. -/
def change (s : SupportTicketService) (ticketId : String) (f : Ticket → Ticket) :
    Except String Ticket × SupportTicketService :=
  match s.tickets.find ticketId with
  | none => (.error s!"Support ticket {ticketId} not found", s)
  | some ticket => (.ok (f ticket), { s with tickets := s.tickets.save (f ticket) })

def updateTicketStatus (s : SupportTicketService) (ticketId status : String)
    (internalNotes : Option String) :
    Except String Ticket × SupportTicketService :=
  s.change ticketId (Ticket.updated status internalNotes s.clock)

def assignTicket (s : SupportTicketService) (ticketId : String) (assignedToId : ℤ) :
    Except String Ticket × SupportTicketService :=
  s.change ticketId fun ticket => (ticket.assign assignedToId).acted s.clock

/-- `escalateTicket`, by the staff. -/
def escalateTicket (s : SupportTicketService) (ticketId reason : String) :
    Except String Ticket × SupportTicketService :=
  s.change ticketId fun ticket => (ticket.escalate reason).acted s.clock

/-- The response deadline has passed. -/
def responseBreached (now : ℤ) (ticket : Ticket) : Bool :=
  ticket.slaResponseDeadline.any (· < now) && ticket.slaResponseMet.isNone &&
    ["OPEN", "IN_PROGRESS"].contains ticket.status

/-- The resolution deadline has passed. -/
def resolutionBreached (now : ℤ) (ticket : Ticket) : Bool :=
  ticket.slaResolutionDeadline.any (· < now) && ticket.slaResolutionMet.isNone &&
    !(["RESOLVED", "CLOSED"].contains ticket.status)

/-- The response deadline was missed. -/
def missResponse (ticket : Ticket) : Ticket :=
  { ticket with slaResponseMet := some false, responseBreaches := ticket.responseBreaches + 1 }

/-- The resolution deadline was missed. -/
def missResolution (ticket : Ticket) : Ticket :=
  { ticket with
    slaResolutionMet := some false, resolutionBreaches := ticket.resolutionBreaches + 1 }

/-- Each ticket that was found is marked and saved, and escalated. -/
def breach (s : SupportTicketService) (found : List Ticket) (mark : Ticket → Ticket)
    (reason : Ticket → String) :
    SupportTicketService :=
  found.foldl (fun s ticket =>
    (change { s with tickets := s.tickets.save (mark ticket) } ticket.id
      (Ticket.escalate (reason ticket))).2) s

/-- `checkSlaBreaches`. `dateText` writes a deadline. -/
def checkSlaBreaches (dateText : Option ℤ → String) (s : SupportTicketService) :
    List Ticket × SupportTicketService :=
  let responseBreaches := s.tickets.rows.filter (responseBreached s.clock)
  let responded := s.breach responseBreaches missResponse fun ticket =>
    "SLA response deadline breached. Deadline was " ++ dateText ticket.slaResponseDeadline
  let resolutionBreaches := responded.tickets.rows.filter (resolutionBreached s.clock)
  let resolved := responded.breach resolutionBreaches missResolution fun ticket =>
    "SLA resolution deadline breached. Deadline was " ++ dateText ticket.slaResolutionDeadline
  (responseBreaches.map missResponse ++ resolutionBreaches.map missResolution, resolved)

end SupportTicketService

/-! ### The statistics -/

/-- `Math.round`. -/
def mathRound (x : ℚ) : ℚ := ⌊x + 1 / 2⌋

/-- A share in percent, with two decimals. Nothing out of nothing is all of it. -/
def percent (met total : ℕ) : ℚ :=
  if 0 < total then mathRound ((met : ℚ) / total * 100 * 100) / 100 else 100

/-- What `getSlaComplianceStats` returns. -/
structure SlaComplianceStats where
  totalTickets : ℕ
  slaResponseMetCount : ℕ
  slaResolutionMetCount : ℕ
  slaResponseCompliancePercent : ℚ
  slaResolutionCompliancePercent : ℚ
  averageResponseTimeMinutes : ℚ
  averageResolutionTimeMinutes : ℚ
  openTickets : ℕ
  escalatedTickets : ℕ

def SupportTicketService.getSlaComplianceStats (s : SupportTicketService)
    (institutionalClientId : Option String) :
    SlaComplianceStats :=
  let tickets := s.tickets.rows.filter fun ticket =>
    institutionalClientId.all fun id => id = "" || ticket.institutionalClientId = id
  let closedTickets := tickets.filter fun ticket =>
    Flag.load ticket.slaResponseMet ≠ .undefined ∧ Flag.load ticket.slaResponseMet ≠ .null
  let responseMetCount :=
    (closedTickets.filter fun ticket => Flag.load ticket.slaResponseMet = .value true).length
  let resolutionMetCount :=
    (tickets.filter fun ticket => Flag.load ticket.slaResolutionMet = .value true).length
  let resolvedTickets := tickets.filter fun ticket => ticket.resolvedAt.isSome
  { totalTickets := tickets.length
    slaResponseMetCount := responseMetCount
    slaResolutionMetCount := resolutionMetCount
    slaResponseCompliancePercent := percent responseMetCount closedTickets.length
    slaResolutionCompliancePercent := percent resolutionMetCount resolvedTickets.length
    averageResponseTimeMinutes := 0
    averageResolutionTimeMinutes := 0
    openTickets :=
      (tickets.filter fun ticket => ["OPEN", "IN_PROGRESS",
        "ESCALATED"].contains ticket.status).length
    escalatedTickets := (tickets.filter fun ticket => ticket.status = "ESCALATED").length }

/-! ### The calls -/

inductive TicketCall where
  | createTicket (id institutionalClientId : String) (client : Option InstitutionalClient)
    (createdById : ℤ)
      (dto : CreateSupportTicketDto)
  | updateTicketStatus (ticketId status : String) (internalNotes : Option String)
  | assignTicket (ticketId : String) (assignedToId : ℤ)
  | escalateTicket (ticketId reason : String)
  | checkSlaBreaches

/-- The call at the time of the service. -/
def SupportTicketService.perform (dateText : Option ℤ → String) (s : SupportTicketService) :
    TicketCall → SupportTicketService
  | .createTicket id institutionalClientId client createdById dto =>
    (s.createTicket id institutionalClientId client createdById dto).2
  | .updateTicketStatus ticketId status internalNotes =>
    (s.updateTicketStatus ticketId status internalNotes).2
  | .assignTicket ticketId assignedToId => (s.assignTicket ticketId assignedToId).2
  | .escalateTicket ticketId reason => (s.escalateTicket ticketId reason).2
  | .checkSlaBreaches => (s.checkSlaBreaches dateText).2

/-- The service after some time. -/
def SupportTicketService.wait (s : SupportTicketService) (elapsed : ℕ) : SupportTicketService :=
  { s with clock := s.clock + elapsed }

/-- One call, a while after the one before. -/
def step (dateText : Option ℤ → String) (s : SupportTicketService) (call : ℕ × TicketCall) :
    SupportTicketService :=
  (s.wait call.1).perform dateText call.2

/-! ## What is promised -/

/-- The response flag tells whether the staff acted in time, once it has acted or the deadline was
found to have passed. -/
def ResponseSound (ticket : Ticket) : Prop :=
  ticket.firstAction.isSome ∨ 0 < ticket.responseBreaches →
    ticket.slaResponseMet = some (ticket.firstAction.any (inTime ticket.slaResponseDeadline))

/-- The resolution flag tells whether the ticket was resolved in time. -/
def ResolutionSound (ticket : Ticket) : Prop :=
  ∀ first, ticket.firstResolution = some first →
    ticket.slaResolutionMet = some (inTime ticket.slaResolutionDeadline first)

def IsPercentage (x : ℚ) : Prop := 0 ≤ x ∧ x ≤ 100

/-- The flags tell the truth, each breach escalates its ticket at most once, and the statistics
are percentages. -/
structure Sound (s : SupportTicketService) : Prop where
  response : ∀ ticket ∈ s.tickets.rows, ResponseSound ticket
  resolution : ∀ ticket ∈ s.tickets.rows, ResolutionSound ticket
  once : ∀ ticket ∈ s.tickets.rows, ticket.responseBreaches ≤ 1 ∧ ticket.resolutionBreaches ≤ 1
  percentages : ∀ clientId,
    IsPercentage (s.getSlaComplianceStats clientId).slaResponseCompliancePercent ∧
    IsPercentage (s.getSlaComplianceStats clientId).slaResolutionCompliancePercent

/-- The staff is late: it acts on tickets whose response deadline was found to have passed, and
resolves those whose resolution deadline was. -/
def Late (s : SupportTicketService) : ℕ × TicketCall → Prop
  | (_, .updateTicketStatus ticketId status _) => ∀ ticket, s.tickets.find ticketId = some ticket →
      (status ≠ "OPEN" → ticket.slaResponseMet.isSome) ∧
      (IsResolution status → ticket.slaResolutionMet.isSome)
  | (_, .assignTicket ticketId _) => ∀ ticket, s.tickets.find ticketId = some ticket →
  ticket.slaResponseMet.isSome
  | (_, .escalateTicket ticketId _) => ∀ ticket, s.tickets.find ticketId = some ticket →
  ticket.slaResponseMet.isSome
  | _ => True

/-! ## What the flags record -/

variable {s : SupportTicketService} {ticket : Ticket} {now : ℤ}

/-- **What is recorded of a ticket**: a flag is `false` when its deadline was found to have passed,
and `null` before. -/
structure Recorded (now : ℤ) (ticket : Ticket) : Prop where
  response : ticket.slaResponseMet = none ∧ ticket.responseBreaches = 0 ∨
    ticket.slaResponseMet = some false ∧ ticket.responseBreaches = 1 ∧
      inTime ticket.slaResponseDeadline now = false
  resolution : ticket.slaResolutionMet = none ∧ ticket.resolutionBreaches = 0 ∨
    ticket.slaResolutionMet = some false ∧ ticket.resolutionBreaches = 1 ∧
      inTime ticket.slaResolutionDeadline now = false

/-- No flag is loaded as `undefined`. -/
@[simp] theorem load_ne_undefined (column : Option Bool) : Flag.load column ≠ .undefined := by
  cases column <;> exact Flag.noConfusion

/-- An update never sets a flag. -/
theorem update_eq (status : String) (internalNotes : Option String) (now : ℤ) (ticket : Ticket) :
    ticket.update status internalNotes now = { ticket with
      status := status
      resolvedAt := if IsResolution status then some now else ticket.resolvedAt
      closedAt := if status = "CLOSED" then some now else ticket.closedAt
      internalNotes := if internalNotes.any (· ≠ "") then internalNotes
        else ticket.internalNotes } := by
  simp only [Ticket.update, load_ne_undefined, and_false, if_false]

theorem inTime_mono {deadline : Option ℤ} {later : ℤ} (h : inTime deadline now = false)
    (hle : now ≤ later) :
    inTime deadline later = false := by
  cases deadline with
  | none => exact h
  | some deadline =>
    simp only [inTime, decide_eq_false_iff_not] at h ⊢
    omega

theorem Recorded.later {later : ℤ} (h : Recorded now ticket) (hle : now ≤ later) :
    Recorded later ticket where
  response :=
    h.response.imp_right fun ⟨hflag, hcount, hpassed⟩ => ⟨hflag, hcount, inTime_mono hpassed hle⟩
  resolution :=
    h.resolution.imp_right fun ⟨hflag, hcount, hpassed⟩ => ⟨hflag, hcount, inTime_mono hpassed hle⟩

/-- The staff acts on a ticket: its response flag tells the truth when it was set before. -/
theorem Recorded.responseSound_acted_iff (h : Recorded now ticket) (hsound : ResponseSound ticket) :
    ResponseSound (ticket.acted now) ↔ ticket.slaResponseMet.isSome := by
  have hacted : (ticket.acted now).firstAction.isSome := by
    cases hfirst : ticket.firstAction <;> simp [Ticket.acted, hfirst]
  constructor
  · -- acting leaves the flag as it was
    intro hafter
    exact Option.isSome_iff_exists.mpr ⟨_, hafter (.inl hacted)⟩
  · rintro hflag -
    rcases h.response with ⟨hnull, -⟩ | ⟨hfalse, hcount, hpassed⟩
    · rw [hnull] at hflag
      cases hflag
    · -- the deadline had passed before, so that it has passed at the first action
      cases hfirst : ticket.firstAction with
      | none => simp [Ticket.acted, hfirst, hfalse, hpassed]
      | some first =>
        have hbefore := hsound (.inl (by rw [hfirst]; rfl))
        simpa [Ticket.acted, hfirst] using hbefore

/-- A ticket is resolved: its resolution flag tells the truth when it was set before. -/
theorem Recorded.resolutionSound_resolved_iff (h : Recorded now ticket)
    (hsound : ResolutionSound ticket) :
    ResolutionSound (ticket.resolved now) ↔ ticket.slaResolutionMet.isSome := by
  cases hfirst : ticket.firstResolution with
  | some first =>
    -- the first resolution is on record already
    have hflag := hsound first hfirst
    refine iff_of_true (fun other hother => ?_) (Option.isSome_iff_exists.mpr ⟨_, hflag⟩)
    refine hsound other ?_
    simpa [Ticket.resolved, hfirst] using hother
  | none =>
    have hresolved : (ticket.resolved now).firstResolution = some now := by
      simp [Ticket.resolved, hfirst]
    constructor
    · intro hafter
      exact Option.isSome_iff_exists.mpr ⟨_, hafter now hresolved⟩
    · intro hflag other hother
      obtain rfl := Option.some.inj (hresolved.symm.trans hother)
      rcases h.resolution with ⟨hnull, -⟩ | ⟨hfalse, -, hpassed⟩
      · rw [hnull] at hflag
        cases hflag
      · exact hfalse.trans (congrArg some hpassed.symm)

/-! ### Changes of the tickets -/

theorem forall_change_iff {P : Ticket → Prop} (h : ∀ ticket ∈ s.tickets.rows, P ticket)
    (ticketId : String)
    (f : Ticket → Ticket) : (∀ ticket ∈ (s.change ticketId f).2.tickets.rows, P ticket) ↔
      ∀ ticket, s.tickets.find ticketId = some ticket → P (f ticket) := by
  rw [SupportTicketService.change]
  cases hfind : s.tickets.find ticketId with
  | none => exact iff_of_true h fun ticket hnone => by cases hnone
  | some ticket =>
    constructor
    · intro hafter other hother
      obtain rfl := Option.some.inj hother
      exact hafter _ (Table.mem_save_self _ _)
    · intro hchanged other hother
      rcases Table.mem_save.mp hother with rfl | ⟨hbefore, -⟩
      · exact hchanged ticket rfl
      · exact h other hbefore

@[simp] theorem clock_change (s : SupportTicketService) (ticketId : String) (f : Ticket → Ticket) :
    (s.change ticketId f).2.clock = s.clock := by
  rw [SupportTicketService.change]
  split <;> rfl

/-- The tickets that were found are marked and escalated, the others stay. -/
theorem forall_breach {P : Ticket → Prop} (h : ∀ ticket ∈ s.tickets.rows, P ticket)
    {found : List Ticket} {mark : Ticket → Ticket} {reason : Ticket → String}
    (hid : ∀ ticket, (mark ticket).id = ticket.id)
    (hmark : ∀ ticket ∈ found, P ((mark ticket).escalate (reason ticket))) :
    ∀ ticket ∈ (s.breach found mark reason).tickets.rows, P ticket := by
  induction found generalizing s with
  | nil => exact h
  | cons first found ih =>
    obtain ⟨hfirst, hothers⟩ := List.forall_mem_cons.mp hmark
    refine ih (fun ticket hticket => ?_) hothers
    -- the ticket that is escalated is the one that was just saved
    simp only [SupportTicketService.change, Table.find_save, if_pos (hid first).symm] at hticket
    rcases Table.mem_save.mp hticket with rfl | ⟨hsaved, hne⟩
    · exact hfirst
    · rcases Table.mem_save.mp hsaved with rfl | ⟨hbefore, -⟩
      · exact absurd rfl hne
      · exact h ticket hbefore

@[simp] theorem clock_breach (s : SupportTicketService) (found : List Ticket)
    (mark : Ticket → Ticket)
    (reason : Ticket → String) : (s.breach found mark reason).clock = s.clock := by
  induction found generalizing s with
  | nil => rfl
  | cons first found ih => exact (ih _).trans (clock_change _ _ _)

/-! ## What each call does -/

theorem inTime_eq_false {deadline : Option ℤ} (h : deadline.any (· < now)) :
    inTime deadline now = false := by
  cases deadline with
  | none => cases h
  | some deadline => simpa [inTime] using h

theorem slaResponseMet_of_breached (h : SupportTicketService.responseBreached now ticket) :
    ticket.slaResponseMet = none ∧ inTime ticket.slaResponseDeadline now = false := by
  simp only [SupportTicketService.responseBreached, Bool.and_eq_true] at h
  exact ⟨Option.isNone_iff_eq_none.mp h.1.2, inTime_eq_false h.1.1⟩

theorem slaResolutionMet_of_breached (h : SupportTicketService.resolutionBreached now ticket) :
    ticket.slaResolutionMet = none ∧ inTime ticket.slaResolutionDeadline now = false := by
  simp only [SupportTicketService.resolutionBreached, Bool.and_eq_true] at h
  exact ⟨Option.isNone_iff_eq_none.mp h.1.2, inTime_eq_false h.1.1⟩

/-- A property of all tickets after a check: it is kept by marking those whose deadline has
passed. -/
theorem forall_checkSlaBreaches {P : Ticket → Prop} (dateText : Option ℤ → String)
    (h : ∀ ticket ∈ s.tickets.rows, P ticket)
    (hresponse : ∀ ticket reason, P ticket → SupportTicketService.responseBreached s.clock ticket →
      P ((SupportTicketService.missResponse ticket).escalate reason))
    (hresolution : ∀ ticket reason, P ticket →
      SupportTicketService.resolutionBreached s.clock ticket →
      P ((SupportTicketService.missResolution ticket).escalate reason)) :
    ∀ ticket ∈ (s.checkSlaBreaches dateText).2.tickets.rows, P ticket := by
  have hresponded : ∀ ticket ∈
    (s.breach (s.tickets.rows.filter (SupportTicketService.responseBreached s.clock))
      SupportTicketService.missResponse fun ticket =>
        "SLA response deadline breached. Deadline was " ++
          dateText ticket.slaResponseDeadline).tickets.rows, P ticket := by
    refine forall_breach h (fun _ => rfl) fun ticket hticket => ?_
    exact hresponse ticket _ (h ticket (List.mem_of_mem_filter hticket))
      (List.of_mem_filter hticket)
  refine forall_breach hresponded (fun _ => rfl) fun ticket hticket => ?_
  exact hresolution ticket _ (hresponded ticket (List.mem_of_mem_filter hticket))
    (List.of_mem_filter hticket)

/-- A new ticket is open, and nothing is recorded of it. -/
theorem forall_createTicket {P : Ticket → Prop} (h : ∀ ticket ∈ s.tickets.rows, P ticket)
    {id clientId : String} {client : Option InstitutionalClient} {createdById : ℤ}
    {dto : CreateSupportTicketDto}
    (hnew : ∀ ticket : Ticket, ticket.slaResponseMet = none → ticket.slaResolutionMet = none →
      ticket.firstAction = none → ticket.firstResolution = none → ticket.responseBreaches = 0 →
        ticket.resolutionBreaches = 0 → P ticket) :
    ∀ ticket ∈ (s.createTicket id clientId client createdById dto).2.tickets.rows, P ticket := by
  cases client with
  | none => exact h
  | some client =>
    simp only [SupportTicketService.createTicket]
    split
    · exact h
    · intro ticket hticket
      rcases Table.mem_save.mp hticket with rfl | ⟨hbefore, -⟩
      · exact hnew _ rfl rfl rfl rfl rfl rfl
      · exact h ticket hbefore

theorem Recorded.updated (h : Recorded now ticket) (status : String)
    (internalNotes : Option String) :
    Recorded now (ticket.updated status internalNotes now) := by
  rw [Ticket.updated, update_eq]
  split <;> split <;> exact ⟨h.response, h.resolution⟩

/-- An update counts as a response, unless it opens the ticket. -/
theorem Recorded.responseSound_updated_iff (h : Recorded now ticket) (hsound : ResponseSound ticket)
    (status : String)
    (internalNotes : Option String) : ResponseSound (ticket.updated status internalNotes now) ↔
      (status ≠ "OPEN" → ticket.slaResponseMet.isSome) := by
  have hresolved : ResponseSound (ticket.updated status internalNotes now) ↔
      ResponseSound (if status ≠ "OPEN" then ticket.acted now else ticket) := by
    rw [Ticket.updated, update_eq]
    split <;> split <;> exact Iff.rfl
  rw [hresolved]
  split
  next hstaff => exact (h.responseSound_acted_iff hsound).trans (imp_iff_right hstaff).symm
  next hopen => exact iff_of_true hsound fun hstaff => absurd hstaff hopen

theorem Recorded.resolutionSound_updated_iff (h : Recorded now ticket)
    (hsound : ResolutionSound ticket) (status : String)
    (internalNotes : Option String) : ResolutionSound (ticket.updated status internalNotes now) ↔
      (IsResolution status → ticket.slaResolutionMet.isSome) := by
  have hacted : ResolutionSound (ticket.updated status internalNotes now) ↔
      ResolutionSound (if IsResolution status then ticket.resolved now else ticket) := by
    rw [Ticket.updated, update_eq]
    split <;> split <;> exact Iff.rfl
  rw [hacted]
  split
  next hresolution =>
    exact (h.resolutionSound_resolved_iff hsound).trans (imp_iff_right hresolution).symm
  next hother => exact iff_of_true hsound fun hresolution => absurd hresolution hother

/-! ## Whole runs -/

/-- What is recorded of all tickets. -/
def AllRecorded (s : SupportTicketService) : Prop :=
  ∀ ticket ∈ s.tickets.rows, Recorded s.clock ticket

theorem clock_perform (dateText : Option ℤ → String) (s : SupportTicketService)
    (call : TicketCall) :
    (s.perform dateText call).clock = s.clock := by
  cases call with
  | createTicket id clientId client createdById dto =>
    cases client with
    | none => rfl
    | some client =>
      simp only [SupportTicketService.perform, SupportTicketService.createTicket]
      split <;> rfl
  | updateTicketStatus => exact clock_change ..
  | assignTicket => exact clock_change ..
  | escalateTicket => exact clock_change ..
  | checkSlaBreaches => exact (clock_breach ..).trans (clock_breach ..)

/-- What every call keeps. -/
theorem AllRecorded.perform (h : AllRecorded s) (dateText : Option ℤ → String) (call : TicketCall) :
    AllRecorded (s.perform dateText call) := by
  rw [AllRecorded, clock_perform]
  have hfound : ∀ ticketId ticket, s.tickets.find ticketId = some ticket →
      Recorded s.clock ticket :=
    fun _ ticket hfind => h ticket (Table.mem_of_find hfind)
  cases call with
  | createTicket =>
    exact forall_createTicket h fun ticket hresponse hresolution _ _ hresponses hresolutions =>
      ⟨.inl ⟨hresponse, hresponses⟩, .inl ⟨hresolution, hresolutions⟩⟩
  | updateTicketStatus ticketId status notes =>
    exact (forall_change_iff h ticketId _).mpr fun ticket hfind =>
      (hfound ticketId ticket hfind).updated status notes
  | assignTicket ticketId =>
    refine (forall_change_iff h ticketId _).mpr fun ticket hfind => ?_
    have hrecorded := hfound ticketId ticket hfind
    exact ⟨hrecorded.response, hrecorded.resolution⟩
  | escalateTicket ticketId =>
    refine (forall_change_iff h ticketId _).mpr fun ticket hfind => ?_
    have hrecorded := hfound ticketId ticket hfind
    exact ⟨hrecorded.response, hrecorded.resolution⟩
  | checkSlaBreaches =>
    refine forall_checkSlaBreaches dateText h
      (fun ticket _ hrecorded hbreached => ?_) fun ticket _ hrecorded hbreached => ?_
    · obtain ⟨hnull, hpassed⟩ := slaResponseMet_of_breached hbreached
      rcases hrecorded.response with ⟨-, hcount⟩ | ⟨hfalse, -⟩
      · exact ⟨.inr ⟨rfl, congrArg (· + 1) hcount, hpassed⟩, hrecorded.resolution⟩
      · exact absurd (hnull.symm.trans hfalse) (by simp)
    · obtain ⟨hnull, hpassed⟩ := slaResolutionMet_of_breached hbreached
      rcases hrecorded.resolution with ⟨-, hcount⟩ | ⟨hfalse, -⟩
      · exact ⟨hrecorded.response, .inr ⟨rfl, congrArg (· + 1) hcount, hpassed⟩⟩
      · exact absurd (hnull.symm.trans hfalse) (by simp)

theorem AllRecorded.wait (h : AllRecorded s) (elapsed : ℕ) : AllRecorded (s.wait elapsed) :=
  fun ticket hticket =>
    (h ticket hticket).later (Int.le_add_of_nonneg_right (Int.natCast_nonneg elapsed))

/-- **What every call keeps**, a while after the one before. -/
theorem recorded_step (dateText : Option ℤ → String) (s : SupportTicketService)
    (call : ℕ × TicketCall) (h : AllRecorded s) : AllRecorded (step dateText s call) :=
  (h.wait call.1).perform dateText call.2

/-! ### The statistics -/

/-- **A part of a whole is a percentage.** -/
theorem percent_mem {met total : ℕ} (h : met ≤ total) : IsPercentage (percent met total) := by
  rw [percent]
  split
  next hpos =>
    have htotal : (0 : ℚ) < total := Nat.cast_pos.mpr hpos
    have hshare : (met : ℚ) / total ≤ 1 := (div_le_one htotal).mpr (Nat.cast_le.mpr h)
    have hnonneg : (0 : ℚ) ≤ (met : ℚ) / total := by positivity
    have hlow : (0 : ℤ) ≤ ⌊(met : ℚ) / total * 100 * 100 + 1 / 2⌋ :=
      Int.floor_nonneg.mpr (by linarith)
    have hhigh : ⌊(met : ℚ) / total * 100 * 100 + 1 / 2⌋ < 10001 :=
      Int.floor_lt.mpr (by push_cast; linarith)
    constructor
    · rw [mathRound]
      have := Int.cast_nonneg (R := ℚ) hlow
      positivity
    · rw [mathRound, div_le_iff₀ (by norm_num)]
      have : ((⌊(met : ℚ) / total * 100 * 100 + 1 / 2⌋ : ℤ) : ℚ) ≤ (10000 : ℤ) :=
        Int.cast_le.mpr (by omega)
      norm_num at this ⊢
      exact this
  next => exact ⟨by norm_num, le_refl _⟩

/-- No flag is ever set to `true`. -/
theorem Recorded.ne_true (h : Recorded now ticket) :
    Flag.load ticket.slaResolutionMet ≠ .value true := by
  rcases h.resolution with ⟨hnull, -⟩ | ⟨hfalse, -⟩
  · rw [hnull]
    exact Flag.noConfusion
  · rw [hfalse]
    decide

/-- The statistics are percentages after every call. -/
theorem AllRecorded.percentages (h : AllRecorded s) (clientId : Option String) :
    IsPercentage (s.getSlaComplianceStats clientId).slaResponseCompliancePercent ∧
      IsPercentage (s.getSlaComplianceStats clientId).slaResolutionCompliancePercent := by
  refine ⟨percent_mem (List.length_filter_le _ _), percent_mem ?_⟩
  have hnone : ((s.tickets.rows.filter fun ticket =>
      clientId.all fun id => id = "" || ticket.institutionalClientId = id).filter fun ticket =>
        Flag.load ticket.slaResolutionMet = .value true) = [] := by
    refine List.filter_eq_nil_iff.mpr fun ticket hticket => ?_
    simpa using (h ticket (List.mem_of_mem_filter hticket)).ne_true
  rw [hnone]
  exact Nat.zero_le _

theorem Recorded.once (h : Recorded now ticket) : ticket.responseBreaches ≤ 1 ∧
    ticket.resolutionBreaches ≤ 1 := by
  constructor
  · rcases h.response with ⟨-, hcount⟩ | ⟨-, hcount, -⟩ <;> omega
  · rcases h.resolution with ⟨-, hcount⟩ | ⟨-, hcount, -⟩ <;> omega

/-! ### The truth of the flags -/

/-- The flags after every call tell the truth exactly when the call finds the deadlines
missed. -/
theorem flags_perform_iff (dateText : Option ℤ → String) (h : AllRecorded s)
    (hresponse : ∀ ticket ∈ s.tickets.rows, ResponseSound ticket)
    (hresolution : ∀ ticket ∈ s.tickets.rows, ResolutionSound ticket) (elapsed : ℕ)
    (call : TicketCall) :
    ((∀ ticket ∈ (s.perform dateText call).tickets.rows, ResponseSound ticket) ∧
      ∀ ticket ∈ (s.perform dateText call).tickets.rows, ResolutionSound ticket) ↔
        Late s (elapsed, call) := by
  have hfound : ∀ ticketId ticket, s.tickets.find ticketId = some ticket →
      Recorded s.clock ticket ∧ ResponseSound ticket ∧
        ResolutionSound ticket := fun _ ticket hfind =>
    ⟨h ticket (Table.mem_of_find hfind), hresponse ticket (Table.mem_of_find hfind),
      hresolution ticket (Table.mem_of_find hfind)⟩
  cases call with
  | createTicket =>
    refine iff_of_true
      ⟨forall_createTicket hresponse fun ticket hnull _ hfirst _ hcount _ hsome => ?_,
      forall_createTicket hresolution fun ticket _ _ _ hfirst _ _ first hsome => ?_⟩ trivial
    · rw [hfirst, hcount] at hsome
      rcases hsome with hsome | hsome <;> cases hsome
    · rw [hfirst] at hsome
      cases hsome
  | updateTicketStatus ticketId status notes =>
    refine (and_congr (forall_change_iff hresponse ticketId _)
      (forall_change_iff hresolution ticketId _)).trans ?_
    rw [Late, ← forall₂_and]
    refine forall₂_congr fun ticket hfind => ?_
    obtain ⟨hrecorded, hfirst, hsecond⟩ := hfound ticketId ticket hfind
    exact and_congr (hrecorded.responseSound_updated_iff hfirst status notes)
      (hrecorded.resolutionSound_updated_iff hsecond status notes)
  | assignTicket ticketId assignedToId =>
    have hkept : ∀ ticket ∈ (s.assignTicket ticketId assignedToId).2.tickets.rows,
        ResolutionSound ticket :=
      (forall_change_iff hresolution ticketId _).mpr fun ticket hfind =>
        (hfound ticketId ticket hfind).2.2
    refine (and_iff_left hkept).trans ((forall_change_iff hresponse ticketId _).trans ?_)
    refine forall₂_congr fun ticket hfind => ?_
    obtain ⟨hrecorded, hfirst, -⟩ := hfound ticketId ticket hfind
    exact hrecorded.responseSound_acted_iff hfirst
  | escalateTicket ticketId reason =>
    have hkept : ∀ ticket ∈ (s.escalateTicket ticketId reason).2.tickets.rows,
        ResolutionSound ticket :=
      (forall_change_iff hresolution ticketId _).mpr fun ticket hfind =>
        (hfound ticketId ticket hfind).2.2
    refine (and_iff_left hkept).trans ((forall_change_iff hresponse ticketId _).trans ?_)
    refine forall₂_congr fun ticket hfind => ?_
    obtain ⟨hrecorded, hfirst, -⟩ := hfound ticketId ticket hfind
    exact hrecorded.responseSound_acted_iff hfirst
  | checkSlaBreaches =>
    refine iff_of_true ⟨?_, ?_⟩ trivial
    · refine forall_checkSlaBreaches dateText hresponse
        (fun ticket _ hsound hbreached _ => ?_) fun _ _ hsound _ => hsound
      -- nobody has acted on a ticket without a flag
      obtain ⟨hnull, -⟩ := slaResponseMet_of_breached hbreached
      cases hfirst : ticket.firstAction with
      | none =>
        show some false = some (ticket.firstAction.any _)
        rw [hfirst]
        rfl
      | some first =>
        have hflag := hsound (.inl (by rw [hfirst]; rfl))
        rw [hnull] at hflag
        cases hflag
    · refine forall_checkSlaBreaches dateText hresolution
        (fun _ _ hsound _ => hsound) fun ticket _ hsound hbreached => ?_
      obtain ⟨hnull, -⟩ := slaResolutionMet_of_breached hbreached
      intro first hfirst
      have hflag := hsound first hfirst
      rw [hnull] at hflag
      cases hflag

/-- What each call does to the promises. -/
theorem sound_step_iff (dateText : Option ℤ → String) (s : SupportTicketService)
    (call : ℕ × TicketCall)
    (h : AllRecorded s) (hs : Sound s) : Sound (step dateText s call) ↔ Late s call := by
  have hflags := flags_perform_iff dateText (h.wait call.1) hs.response hs.resolution call.1 call.2
  have hrecorded := recorded_step dateText s call h
  refine Iff.trans ⟨fun hafter => ⟨hafter.response, hafter.resolution⟩, fun hafter => ?_⟩ hflags
  exact ⟨hafter.1, hafter.2, fun ticket hticket => (hrecorded ticket hticket).once,
    hrecorded.percentages⟩

theorem allRecorded_new : AllRecorded .new := fun _ hticket => by cases hticket

/-- **The flags tell the truth throughout a run** exactly when the staff is late at each of its
calls. -/
theorem tickets_sound_iff (dateText : Option ℤ → String) (calls : List (ℕ × TicketCall)) :
    Throughout (step dateText) Sound .new calls ↔ Along (step dateText) Late .new calls := by
  refine throughout_iff_along (recorded_step dateText) (sound_step_iff dateText) allRecorded_new ?_
  have hnone : ∀ ticket, ticket ∉ SupportTicketService.new.tickets.rows := fun _ hticket => by
    cases hticket
  exact ⟨fun ticket hticket => absurd hticket (hnone ticket),
    fun ticket hticket => absurd hticket (hnone ticket),
    fun ticket hticket => absurd hticket (hnone ticket), allRecorded_new.percentages⟩

/-- **A ticket is answered at once**, and its flag is not set. -/
theorem answered_in_time : ¬ Throughout (step fun _ => "") Sound .new
    [(0, .createTicket "t" "c" (some ⟨"c", some .gold, none⟩) 1
      ⟨"subject", "description", none, none, none⟩),
      (0, .assignTicket "t" 2)] := by
  intro h
  have hflag := h.last.response _ (Table.mem_of_find (k := "t") rfl)
  exact absurd (hflag (.inl rfl)) (by decide)

end SupportTickets
