import PeerX.Foundations.JsNumber
import PeerX.Governance.Database

/-!
# Governance: the services

Proposals are created, approved, cancelled, finalized and executed; votes are cast, with the tokens
of the voter and those delegated to it; delegations are made and revoked. A call reads the clock
once.

Postgres returns the decimal columns as texts. Where the sum of two of them is stored, the text that
`+` makes of them is no number, and the write is refused: it is one of the writes that fail. Sums of
numbers stand for the others. The finalization compares such a sum, so the texts are kept there.
-/

namespace Governance

open Arithmetic Concurrency Relational

def votingPeriodDays : ℤ := 7

def emergencyVotingPeriodDays : ℤ := 1

def minTokenThreshold : ℚ := 10000

/-- `QUORUM_PERCENTAGE`: minimum participation percentage of total supply. -/
def quorumPercentage : ℚ := 40

/-- The default of the column `passThresholdVotes`. -/
def defaultPassThreshold : ℚ := 51

/-- The asset whose holdings vote. -/
def governanceAsset : ℕ := 0

/-- `date.setDate(date.getDate() + days)`. -/
def addDays (time days : ℤ) : ℤ := time + days * 86400000

/-- The voting period of a proposal. -/
def ProposalType.votingPeriod (type : ProposalType) : ℤ :=
  if type = .emergency then emergencyVotingPeriodDays else votingPeriodDays

def getTokenBalance (userId : String) (assetId : ℕ) : GovernanceTask ℚ := do
  let holding ← statement (.findHolding userId assetId)
  return (holding.map (·.balance)).getD 0

/-- A delegation adds to the power of a vote on the proposal: it is for all proposals or for this
one, and it has not ended. An empty id is no restriction. -/
def VoteDelegation.Counts (delegation : VoteDelegation) (proposalId : String) (now : ℤ) : Prop :=
  (∀ p ∈ delegation.proposalId, p = "" ∨ p = proposalId) ∧ ∀ endTime ∈ delegation.endTime, now ≤ endTime

instance (delegation : VoteDelegation) (proposalId : String) (now : ℤ) :
    Decidable (delegation.Counts proposalId now) := inferInstanceAs (Decidable (_ ∧ _))

/-- The loop of `getEffectiveVotingPower`. -/
def addDelegations (proposalId : String) (now : ℤ) : List VoteDelegation → ℚ → ℚ
  | [], power => power
  | delegation :: delegations, power =>
    if delegation.Counts proposalId now then
      addDelegations proposalId now delegations (power + delegation.delegatedBalance)
    else
      addDelegations proposalId now delegations power

def getEffectiveVotingPower (userId proposalId : String) (now : ℤ) : GovernanceTask ℚ := do
  let delegations ← statement (.findDelegations userId)
  let power ← getTokenBalance userId governanceAsset
  return addDelegations proposalId now delegations power

/-- `canUserVote`: the reason why the user may not, or `none`. -/
def canUserVote (userId proposalId : String) (now : ℤ) : GovernanceTask (Option String) := do
  match ← statement (.findProposal proposalId) with
  | none => return some "Proposal not found"
  | some proposal =>
    if proposal.status ≠ .active then
      return some "Proposal is not active for voting"
    else if now < proposal.startTime then
      return some "Voting period has not started"
    else if now > proposal.endTime then
      return some "Voting period has ended"
    else if proposal.proposerId = userId then
      return some "Cannot vote on your own proposal"
    else
      match ← statement (.findVote proposalId userId) with
      | some _ => return some "User has already voted on this proposal"
      | none => return none

/-- The votes cast on a proposal, as its row has them: the number of the text of the three
columns. -/
def GovernanceProposal.totalVotes (proposal : GovernanceProposal) : JsNumber :=
  .ofDigits (JsNumber.decimalText proposal.forVotes ++ JsNumber.decimalText proposal.againstVotes ++
    JsNumber.decimalText proposal.abstainVotes)

def checkQuorumMet (proposalId : String) : GovernanceTask Bool := do
  match ← statement (.findProposal proposalId) with
  | none => return false
  | some proposal =>
    return JsNumber.le (.num (proposal.totalSupply * proposal.quorumVotes / 100)) proposal.totalVotes

/-- `proposalHasPassed`. A text is never `=== 0`. -/
def proposalHasPassed (proposalId : String) : GovernanceTask Bool := do
  match ← statement (.findProposal proposalId) with
  | none => return false
  | some proposal =>
    let quorumMet ← checkQuorumMet proposalId
    if ¬ quorumMet then
      return false
    else
      return JsNumber.le (.num proposal.passThresholdVotes) (.num proposal.forVotes / proposal.totalVotes * .num 100)

/-- `proposalRepo.save` of a loaded entity: the row is read, and the columns that differ are
written. -/
def saveProposal (proposal : GovernanceProposal) : GovernanceTask Unit := do
  match ← statement (.findProposal proposal.id) with
  | none => statement (.insertProposal proposal)
  | some row => statement (.updateProposal (changedColumns proposal row) proposal)

/-- The exception for a proposal that does not exist. -/
def proposalNotFound (proposalId : String) : GovernanceError :=
  .notFound ("Proposal " ++ proposalId ++ " not found")

/-- The entity of `createProposal`. -/
def newProposal (id proposerId : String) (type : ProposalType) (balance : ℚ) (now : ℤ) :
    GovernanceProposal where
  id := id
  proposerId := proposerId
  type := type
  status := .pending
  forVotes := 0
  againstVotes := 0
  abstainVotes := 0
  quorumVotes := quorumPercentage
  totalSupply := balance
  passThresholdVotes := defaultPassThreshold
  votingPeriodDays := type.votingPeriod
  startTime := now
  endTime := addDays now type.votingPeriod

/-- `createProposal`, under the id that the database generates. -/
def createProposal (id proposerId : String) (type : ProposalType) (now : ℤ) :
    GovernanceTask GovernanceProposal := do
  let balance ← getTokenBalance proposerId governanceAsset
  if balance < minTokenThreshold then
    throw (.forbidden ("Minimum token threshold not met. Required: " ++ toString minTokenThreshold ++
      ", Current: " ++ toString balance))
  else
    let proposal := newProposal id proposerId type balance now
    statement (.insertProposal proposal)
    return proposal

/-- The entity of `approveProposal`. -/
def GovernanceProposal.approved (proposal : GovernanceProposal) (now : ℤ) : GovernanceProposal :=
  { proposal with
    status := .active
    startTime := now
    endTime := addDays now proposal.type.votingPeriod
    votingPeriodDays := proposal.type.votingPeriod }

def approveProposal (proposalId : String) (now : ℤ) : GovernanceTask GovernanceProposal := do
  match ← statement (.findProposal proposalId) with
  | none => throw (proposalNotFound proposalId)
  | some proposal =>
    saveProposal (proposal.approved now)
    return proposal.approved now

/-- The entity of `cancelProposal`. -/
def GovernanceProposal.withCancellation (proposal : GovernanceProposal) (reason : String) :
    GovernanceProposal :=
  { proposal with status := .cancelled, cancellationReason := some reason }

def cancelProposal (proposalId reason : String) : GovernanceTask GovernanceProposal := do
  match ← statement (.findProposal proposalId) with
  | none => throw (proposalNotFound proposalId)
  | some proposal =>
    if proposal.status = .active ∨ proposal.status = .executed then
      throw (.badRequest ("Cannot cancel proposal in status " ++ proposal.status.text))
    else
      saveProposal (proposal.withCancellation reason)
      return proposal.withCancellation reason

/-- The entity of `finalizeProposal`. The text of a supply is true, so the supply stays. -/
def GovernanceProposal.finalized (proposal : GovernanceProposal) (hasPassed : Bool) : GovernanceProposal :=
  { proposal with status := if hasPassed then .passed else .defeated }

def finalizeProposal (proposalId : String) (now : ℤ) : GovernanceTask GovernanceProposal := do
  match ← statement (.findProposal proposalId) with
  | none => throw (proposalNotFound proposalId)
  | some proposal =>
    if proposal.status ≠ .active then
      throw (.badRequest "Only active proposals can be finalized")
    else if now < proposal.endTime then
      throw (.badRequest "Voting period has not ended yet")
    else
      let hasPassed ← proposalHasPassed proposalId
      saveProposal (proposal.finalized hasPassed)
      return proposal.finalized hasPassed

/-- The entity of `executeProposal`. -/
def GovernanceProposal.markedExecuted (proposal : GovernanceProposal) (now : ℤ) : GovernanceProposal :=
  { proposal with status := .executed, executedAt := some now }

/-- The entity of `executeProposal`, when it could not be saved. -/
def GovernanceProposal.executionFailed (proposal : GovernanceProposal) (now : ℤ) (message : String) :
    GovernanceProposal :=
  { proposal.markedExecuted now with status := .passed, executionReason := some message }

def executeProposal (proposalId actorId : String) (now : ℤ) : GovernanceTask GovernanceExecution := do
  match ← statement (.findProposal proposalId) with
  | none => throw (proposalNotFound proposalId)
  | some proposal =>
    if proposal.status ≠ .passed then
      throw (.badRequest "Only passed proposals can be executed")
    else
      let execution : GovernanceExecution ← tryCatch
        (do
          saveProposal (proposal.markedExecuted now)
          return ⟨proposalId, .success, actorId, none⟩)
        fun err => do
          saveProposal (proposal.executionFailed now err.message)
          return ⟨proposalId, .failed, actorId, some err.message⟩
      statement (.insertExecution execution)
      return execution

/-- The entity with the votes of a ballot added. -/
def GovernanceProposal.voted (proposal : GovernanceProposal) (voteType : VoteType) (votingPower : ℚ) :
    GovernanceProposal :=
  match voteType with
  | .forVote => { proposal with forVotes := proposal.forVotes + votingPower }
  | .againstVote => { proposal with againstVotes := proposal.againstVotes + votingPower }
  | .abstainVote => { proposal with abstainVotes := proposal.abstainVotes + votingPower }

def castVote (proposalId voterId voterAddress voteType : String) (reason : Option String) (now : ℤ) :
    GovernanceTask GovernanceVote := do
  match ← canUserVote voterId proposalId now with
  | some reason => throw (.forbidden reason)
  | none =>
    match VoteType.ofText voteType with
    | none => throw (.badRequest ("Invalid vote type: " ++ voteType))
    | some voteType =>
      match ← statement (.findProposal proposalId) with
      | none => throw (proposalNotFound proposalId)
      | some proposal =>
        let votingPower ← getEffectiveVotingPower voterId proposalId now
        if votingPower ≤ 0 then
          throw (.badRequest "No voting power available")
        else
          let balanceAtVote ← getTokenBalance voterId governanceAsset
          let vote : GovernanceVote :=
            ⟨proposalId, voterId, voterAddress, voteType, votingPower, balanceAtVote, now, reason⟩
          statement (.insertVote vote)
          saveProposal (proposal.voted voteType votingPower)
          return vote

/-- `delegateVotes`, under the id that the database generates. -/
def delegateVotes (id delegatorId delegateeId : String) (delegationDays now : ℤ) :
    GovernanceTask VoteDelegation := do
  if delegatorId = delegateeId then
    throw (.badRequest "Cannot delegate to yourself")
  else
    match ← statement (.findActiveDelegation delegatorId delegateeId) with
    | some _ => throw (.badRequest "Active delegation already exists for this delegatee")
    | none =>
      let balance ← getTokenBalance delegatorId governanceAsset
      if balance ≤ 0 then
        throw (.badRequest "Cannot delegate without token holdings")
      else
        let delegation : VoteDelegation :=
          ⟨id, delegatorId, delegateeId, none, balance, true, now, some (addDays now delegationDays)⟩
        statement (.insertDelegation delegation)
        return delegation

/-- The entity of `revokeDelegation`. -/
def VoteDelegation.revoked (delegation : VoteDelegation) (now : ℤ) : VoteDelegation :=
  { delegation with isActive := false, endTime := some now }

def revokeDelegation (delegationId : String) (now : ℤ) : GovernanceTask VoteDelegation := do
  match ← statement (.findDelegation delegationId) with
  | none => throw (.badRequest "Delegation not found")
  | some delegation =>
    if delegation.isActive = false then
      throw (.badRequest "Delegation is already inactive")
    else
      statement (.updateDelegation (delegation.revoked now))
      return delegation.revoked now

/-- A call of a service, with what it reads of the clock and of the generator of ids. -/
inductive GovernanceCall : Type
  | createProposal (id proposerId : String) (type : ProposalType) (now : ℤ)
  | approveProposal (proposalId : String) (now : ℤ)
  | cancelProposal (proposalId reason : String)
  | finalizeProposal (proposalId : String) (now : ℤ)
  | executeProposal (proposalId actorId : String) (now : ℤ)
  | castVote (proposalId voterId voterAddress voteType : String) (reason : Option String) (now : ℤ)
  | delegateVotes (id delegatorId delegateeId : String) (delegationDays now : ℤ)
  | revokeDelegation (delegationId : String) (now : ℤ)

def GovernanceCall.program : GovernanceCall → GovernanceTask Unit
  | .createProposal id proposerId type now => (fun _ => ()) <$> Governance.createProposal id proposerId type now
  | .approveProposal proposalId now => (fun _ => ()) <$> Governance.approveProposal proposalId now
  | .cancelProposal proposalId reason => (fun _ => ()) <$> Governance.cancelProposal proposalId reason
  | .finalizeProposal proposalId now => (fun _ => ()) <$> Governance.finalizeProposal proposalId now
  | .executeProposal proposalId actorId now =>
    (fun _ => ()) <$> Governance.executeProposal proposalId actorId now
  | .castVote proposalId voterId voterAddress voteType reason now =>
    (fun _ => ()) <$> Governance.castVote proposalId voterId voterAddress voteType reason now
  | .delegateVotes id delegatorId delegateeId delegationDays now =>
    (fun _ => ()) <$> Governance.delegateVotes id delegatorId delegateeId delegationDays now
  | .revokeDelegation delegationId now => (fun _ => ()) <$> Governance.revokeDelegation delegationId now

/-- A call alone: the tables after it. -/
def govern (db : GovernanceDb) (call : GovernanceCall) : GovernanceDb := (call.program.eval serve db).2

/-- Two holders, and an active proposal of a third. -/
def twoHolders : GovernanceDb where
  holdings := (Table.empty.save ⟨"alice", governanceAsset, 100, by decide⟩).save
    ⟨"bob", governanceAsset, 50, by decide⟩
  proposals := Table.empty.save
    { newProposal "p" "carol" .treasury 10000 0 with status := .active }
  votes := .empty
  delegations := .empty
  executions := []
  fates := []

end Governance
