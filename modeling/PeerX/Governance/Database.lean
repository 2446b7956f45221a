import PeerX.Foundations.Fallible
import PeerX.Foundations.Table
import PeerX.Foundations.Runs
import Mathlib.Algebra.Order.Field.Rat

/-!
# Governance: the database

The rows of the governance services, and the statements that they issue. A save of a proposal reads
its row and writes the columns in which the entity differs from it. A write may fail, and then has
no effect: it is refused by a unique index or a column that may not be null, or its transaction is
rolled back.
-/

namespace Governance

open Concurrency Relational

inductive ProposalType : Type
  | parameterChange
  | feeStructure
  | newFeature
  | treasury
  | emergency
  | upgrade
deriving DecidableEq

inductive ProposalStatus : Type
  | pending
  | active
  | passed
  | executed
  | defeated
  | cancelled
deriving DecidableEq

def ProposalStatus.text : ProposalStatus → String
  | .pending => "PENDING"
  | .active => "ACTIVE"
  | .passed => "PASSED"
  | .executed => "EXECUTED"
  | .defeated => "DEFEATED"
  | .cancelled => "CANCELLED"

/-- `VoteType`: for, against, abstain. -/
inductive VoteType : Type
  | forVote
  | againstVote
  | abstainVote
deriving DecidableEq

/-- The vote type of a text: `Object.values(VoteType)`. -/
def VoteType.ofText (text : String) : Option VoteType :=
  if text = "FOR" then some .forVote
  else if text = "AGAINST" then some .againstVote
  else if text = "ABSTAIN" then some .abstainVote
  else none

inductive ExecutionStatus : Type
  | pending
  | success
  | failed
deriving DecidableEq

structure TokenHolding where
  userId : String
  assetId : ℕ
  balance : ℚ
  balance_nonneg : 0 ≤ balance
deriving DecidableEq

/-- The unique index of the holdings. -/
def TokenHolding.key (holding : TokenHolding) : String × ℕ := (holding.userId, holding.assetId)

/-- A proposal. Times are in milliseconds. -/
structure GovernanceProposal where
  id : String
  proposerId : String
  type : ProposalType
  status : ProposalStatus
  forVotes : ℚ
  againstVotes : ℚ
  abstainVotes : ℚ
  quorumVotes : ℚ
  totalSupply : ℚ
  passThresholdVotes : ℚ
  votingPeriodDays : ℤ
  startTime : ℤ
  endTime : ℤ
  executedAt : Option ℤ := none
  cancellationReason : Option String := none
  executionReason : Option String := none
deriving DecidableEq

structure GovernanceVote where
  proposalId : String
  voterId : String
  voterAddress : String
  voteType : VoteType
  weight : ℚ
  balanceAtVote : ℚ
  timestamp : ℤ
  reason : Option String
deriving DecidableEq

/-- The unique index of the votes. -/
def GovernanceVote.key (vote : GovernanceVote) : String × String := (vote.proposalId, vote.voterId)

structure VoteDelegation where
  id : String
  delegatorId : String
  delegateeId : String
  proposalId : Option String := none
  delegatedBalance : ℚ
  isActive : Bool
  startTime : ℤ
  endTime : Option ℤ
deriving DecidableEq

/-- An execution of a proposal. No service assigns its column `executedAt`, which may not be
null. -/
structure GovernanceExecution where
  proposalId : String
  executionStatus : ExecutionStatus
  executedBy : String
  errorMessage : Option String := none
deriving DecidableEq

/-- The columns of a proposal that the services assign. -/
inductive ProposalColumn : Type
  | status
  | forVotes
  | againstVotes
  | abstainVotes
  | totalSupply
  | votingPeriodDays
  | startTime
  | endTime
  | executedAt
  | cancellationReason
  | executionReason
deriving DecidableEq

/-- The columns, in the order of the entity. -/
def ProposalColumn.all : List ProposalColumn :=
  [.status, .forVotes, .againstVotes, .abstainVotes, .totalSupply, .votingPeriodDays, .startTime, .endTime,
    .executedAt, .cancellationReason, .executionReason]

/-- Two versions of a proposal agree in a column. -/
def ProposalColumn.Same (p q : GovernanceProposal) : ProposalColumn → Prop
  | .status => p.status = q.status
  | .forVotes => p.forVotes = q.forVotes
  | .againstVotes => p.againstVotes = q.againstVotes
  | .abstainVotes => p.abstainVotes = q.abstainVotes
  | .totalSupply => p.totalSupply = q.totalSupply
  | .votingPeriodDays => p.votingPeriodDays = q.votingPeriodDays
  | .startTime => p.startTime = q.startTime
  | .endTime => p.endTime = q.endTime
  | .executedAt => p.executedAt = q.executedAt
  | .cancellationReason => p.cancellationReason = q.cancellationReason
  | .executionReason => p.executionReason = q.executionReason

instance (p q : GovernanceProposal) : DecidablePred (ProposalColumn.Same p q) := fun column => by
  cases column <;> exact inferInstanceAs (Decidable (_ = _))

/-- The columns in which an entity differs from its row. -/
def changedColumns (entity row : GovernanceProposal) : List ProposalColumn :=
  ProposalColumn.all.filter fun column => ¬ column.Same entity row

/-- The row with some columns of the entity. -/
def writeColumns (columns : List ProposalColumn) (entity row : GovernanceProposal) : GovernanceProposal :=
  { row with
    status := if .status ∈ columns then entity.status else row.status
    forVotes := if .forVotes ∈ columns then entity.forVotes else row.forVotes
    againstVotes := if .againstVotes ∈ columns then entity.againstVotes else row.againstVotes
    abstainVotes := if .abstainVotes ∈ columns then entity.abstainVotes else row.abstainVotes
    totalSupply := if .totalSupply ∈ columns then entity.totalSupply else row.totalSupply
    votingPeriodDays := if .votingPeriodDays ∈ columns then entity.votingPeriodDays else row.votingPeriodDays
    startTime := if .startTime ∈ columns then entity.startTime else row.startTime
    endTime := if .endTime ∈ columns then entity.endTime else row.endTime
    executedAt := if .executedAt ∈ columns then entity.executedAt else row.executedAt
    cancellationReason :=
      if .cancellationReason ∈ columns then entity.cancellationReason else row.cancellationReason
    executionReason := if .executionReason ∈ columns then entity.executionReason else row.executionReason }

theorem mem_changedColumns {column : ProposalColumn} {entity row : GovernanceProposal} :
    column ∈ changedColumns entity row ↔ ¬ column.Same entity row := by
  have hall : column ∈ ProposalColumn.all := by cases column <;> decide
  simp [changedColumns, hall]

/-- The columns that no service assigns. -/
def GovernanceProposal.fixed (p : GovernanceProposal) : String × String × ProposalType × ℚ × ℚ :=
  (p.id, p.proposerId, p.type, p.quorumVotes, p.passThresholdVotes)

/-- A column that is written where it differs holds the value of the entity. -/
theorem write_changed {α : Type} {column : ProposalColumn} {entity row : GovernanceProposal} {a b : α}
    (hsame : column.Same entity row ↔ a = b) :
    (if column ∈ changedColumns entity row then a else b) = a := by
  by_cases h : column ∈ changedColumns entity row
  · exact if_pos h
  · rw [if_neg h]
    exact (hsame.mp (not_not.mp (mt mem_changedColumns.mpr h))).symm

/-- Writing the columns that differ writes the entity. -/
theorem writeColumns_changed {entity row : GovernanceProposal} (h : entity.fixed = row.fixed) :
    writeColumns (changedColumns entity row) entity row = entity := by
  obtain ⟨hid, hproposer, htype, hquorum, hthreshold⟩ : entity.id = row.id ∧
      entity.proposerId = row.proposerId ∧ entity.type = row.type ∧ entity.quorumVotes = row.quorumVotes ∧
      entity.passThresholdVotes = row.passThresholdVotes := by
    simpa [GovernanceProposal.fixed] using h
  unfold writeColumns
  rw [write_changed Iff.rfl, write_changed Iff.rfl, write_changed Iff.rfl, write_changed Iff.rfl,
    write_changed Iff.rfl, write_changed Iff.rfl, write_changed Iff.rfl, write_changed Iff.rfl,
    write_changed Iff.rfl, write_changed Iff.rfl, write_changed Iff.rfl]
  cases entity
  cases row
  simp_all

/-- The tables, and how the next writes go: a text is the error of a write that is rolled
back. -/
structure GovernanceDb where
  holdings : Table TokenHolding.key
  proposals : Table GovernanceProposal.id
  votes : Table GovernanceVote.key
  delegations : Table VoteDelegation.id
  executions : List GovernanceExecution
  fates : List (Option String)

/-- The statements. -/
inductive GovernanceCommand : Type
  | findHolding (userId : String) (assetId : ℕ)
  | findProposal (proposalId : String)
  | findVote (proposalId voterId : String)
  /-- `find({ delegateeId, isActive: true })`. -/
  | findDelegations (delegateeId : String)
  /-- `findOne({ delegatorId, delegateeId, isActive: true })`. -/
  | findActiveDelegation (delegatorId delegateeId : String)
  | findDelegation (delegationId : String)
  | insertProposal (proposal : GovernanceProposal)
  /-- The `UPDATE` of a save. Without a column, none is sent. -/
  | updateProposal (columns : List ProposalColumn) (proposal : GovernanceProposal)
  | insertVote (vote : GovernanceVote)
  | insertDelegation (delegation : VoteDelegation)
  | updateDelegation (delegation : VoteDelegation)
  | insertExecution (execution : GovernanceExecution)

/-- The values of the statements. -/
abbrev GovernanceCommand.Value : GovernanceCommand → Type
  | .findHolding _ _ => Option TokenHolding
  | .findProposal _ => Option GovernanceProposal
  | .findVote _ _ => Option GovernanceVote
  | .findDelegations _ => List VoteDelegation
  | .findActiveDelegation _ _ => Option VoteDelegation
  | .findDelegation _ => Option VoteDelegation
  | _ => Unit

/-- An exception of the services, by its kind, with its message. -/
inductive GovernanceError : Type
  | notFound (message : String)
  | badRequest (message : String)
  | forbidden (message : String)
  | database (message : String)
deriving DecidableEq

/-- `(err as Error).message`. -/
def GovernanceError.message : GovernanceError → String
  | .notFound message => message
  | .badRequest message => message
  | .forbidden message => message
  | .database message => message

/-- The replies: values, or exceptions. -/
abbrev GovernanceCommand.Reply (c : GovernanceCommand) : Type := Except GovernanceError c.Value

/-- The value of a statement. -/
def GovernanceCommand.value : (c : GovernanceCommand) → GovernanceDb → c.Value
  | .findHolding userId assetId, db => db.holdings.find (userId, assetId)
  | .findProposal proposalId, db => db.proposals.find proposalId
  | .findVote proposalId voterId, db => db.votes.find (proposalId, voterId)
  | .findDelegations delegateeId, db =>
    db.delegations.rows.filter fun d => d.delegateeId = delegateeId ∧ d.isActive = true
  | .findActiveDelegation delegatorId delegateeId, db =>
    db.delegations.rows.find? fun d =>
      d.delegatorId = delegatorId ∧ d.delegateeId = delegateeId ∧ d.isActive = true
  | .findDelegation delegationId, db => db.delegations.find delegationId
  | .insertProposal _, _ => ()
  | .updateProposal _ _, _ => ()
  | .insertVote _, _ => ()
  | .insertDelegation _, _ => ()
  | .updateDelegation _, _ => ()
  | .insertExecution _, _ => ()

/-- The effect of a statement. -/
def GovernanceCommand.effect : GovernanceCommand → GovernanceDb → GovernanceDb
  | .insertProposal proposal, db => { db with proposals := db.proposals.save proposal }
  | .updateProposal columns proposal, db =>
    match db.proposals.find proposal.id with
    | some row => { db with proposals := db.proposals.save (writeColumns columns proposal row) }
    | none => db
  | .insertVote vote, db => { db with votes := db.votes.save vote }
  | .insertDelegation delegation, db => { db with delegations := db.delegations.save delegation }
  | .updateDelegation delegation, db => { db with delegations := db.delegations.save delegation }
  | .insertExecution execution, db => { db with executions := execution :: db.executions }
  | _, db => db

/-- The statement writes. -/
def GovernanceCommand.writes : GovernanceCommand → Bool
  | .insertProposal _ | .updateProposal _ _ | .insertVote _ | .insertDelegation _ => true
  | .updateDelegation _ | .insertExecution _ => true
  | _ => false

/-- An insertion violates a unique index, or has a null where there may be none: that of every
execution does. -/
def GovernanceCommand.Violates (db : GovernanceDb) : GovernanceCommand → Bool
  | .insertProposal proposal => (db.proposals.find proposal.id).isSome
  | .insertVote vote => (db.votes.find vote.key).isSome
  | .insertDelegation delegation => (db.delegations.find delegation.id).isSome
  | .insertExecution _ => true
  | _ => false

/-- The error of a write that violates a constraint. -/
def GovernanceCommand.violation : GovernanceCommand → String
  | .insertExecution _ => "null value in column executedAt violates not-null constraint"
  | _ => "duplicate key value violates unique constraint"

/-- The error of a statement, or `none` when it goes through. -/
def GovernanceCommand.refusal (c : GovernanceCommand) (db : GovernanceDb) : Option String :=
  if c.writes then (db.fates.headD none).or (if c.Violates db then some c.violation else none) else none

/-- How the writes after the statement go. -/
def GovernanceCommand.nextFates (c : GovernanceCommand) (db : GovernanceDb) : List (Option String) :=
  if c.writes then db.fates.tail else db.fates

/-- The reply to a statement, and the tables after it. -/
def serve (c : GovernanceCommand) (db : GovernanceDb) : c.Reply × GovernanceDb :=
  match c.refusal db with
  | some message => (.error (.database message), { db with fates := c.nextFates db })
  | none => (.ok (c.value db), { c.effect db with fates := c.nextFates db })

section Serve

variable {c : GovernanceCommand} {db : GovernanceDb}

theorem serve_of_accepted (h : c.refusal db = none) :
    serve c db = (.ok (c.value db), { c.effect db with fates := c.nextFates db }) := by
  simp only [serve, h]

theorem serve_of_refused {message : String} (h : c.refusal db = some message) :
    serve c db = (.error (.database message), { db with fates := c.nextFates db }) := by
  simp only [serve, h]

theorem refusal_of_isOk (h : (serve c db).1.isOk = true) : c.refusal db = none := by
  cases hrefusal : c.refusal db with
  | none => rfl
  | some message =>
    rw [serve_of_refused hrefusal] at h
    cases h

/-- An insertion that goes through violates no constraint. -/
theorem not_violates (hc : c.writes = true) (h : c.refusal db = none) : c.Violates db = false := by
  rw [GovernanceCommand.refusal, if_pos hc, Option.or_eq_none_iff] at h
  simpa using h.2

theorem serve_of_reads (hc : c.writes = false) : serve c db = (.ok (c.value db), db) := by
  cases c <;> first | rfl | cases hc

end Serve

/-- The programs of the services. -/
abbrev GovernanceTask (α : Type) := Prog GovernanceCommand GovernanceCommand.Reply GovernanceError α

abbrev statement (c : GovernanceCommand) : GovernanceTask c.Value := issue c

end Governance
