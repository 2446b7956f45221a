import PeerX.Foundations.Uuid
import PeerX.Bridges.Database

/-!
# Bridges: the bridge service

`addApproval` stores an approval, counts it and moves the bridge on in one transaction. The call
whose update of the status affected the row then runs `executeBridge` outside the transaction, on
the entity it has read inside: it pays at the destination, and on any failure marks the bridge and
refunds it. The id of a bridge is a `uuid`, compared by value; an approval keeps the text of the
request.

`executeBridge` and `refundBridge` are written over their dependencies, the repository of the
bridges and the Stellar service, in any monad with exceptions.
-/

namespace Bridges

open Relational Concurrency

/-- `Repository<CrossChainBridge>`. -/
structure BridgeRepo (m : Type → Type) where
  save : CrossChainBridge → m CrossChainBridge

/-- `StellarService`: a withdrawal of a user, to an address, of an amount, with a memo. -/
structure Stellar (m : Type → Type) where
  withdraw : String → String → String → String → m Withdrawn

section Execution

variable {m : Type → Type} [Monad m] [MonadExceptOf BridgeError m] (bridgeRepo : BridgeRepo m)
  (stellarService : Stellar m) (bridge : CrossChainBridge)

/-- The payment back to the source. -/
def payBack : m Unit :=
  if bridge.sourceNetwork = .stellar then do
    let _ ← stellarService.withdraw bridge.userId bridge.sourceAddress bridge.amount
      ("refund:" ++ bridge.id)
    return ()
  else return ()

/-- `refundBridge`. A failure is logged and dropped. -/
def refundBridge : m Unit :=
  tryCatch (do
      payBack stellarService bridge
      let _ ← bridgeRepo.save { bridge with status := .refunded }
      return ())
    fun _ => return ()

/-- The payment at the destination. Nothing is paid here on Ethereum. -/
def payDestination : m CrossChainBridge :=
  if bridge.destinationNetwork = .stellar then do
    let tx ← stellarService.withdraw bridge.userId bridge.destinationAddress bridge.amount
      ("bridge:" ++ bridge.id)
    return { bridge with destinationTxHash := tx.txHash }
  else return bridge

/-- The `catch` of `executeBridge`. The save before the refund is not protected. -/
def failBridge (err : BridgeError) : m CrossChainBridge := do
  let _ ← bridgeRepo.save { bridge with status := .failed, errorMessage := some err.message }
  refundBridge bridgeRepo stellarService
    { bridge with status := .failed, errorMessage := some err.message }
  throw (.transactionFailed { bridgeId := some bridge.id, error := some err.message })

def executeBridge : m CrossChainBridge := do
  let completed ← tryCatch (do
      let _ ← bridgeRepo.save { bridge with status := .destinationPending }
      let paid ← payDestination stellarService { bridge with status := .destinationPending }
      return { paid with status := .completed })
    (failBridge bridgeRepo stellarService bridge)
  -- a failure of the last save is not caught
  bridgeRepo.save completed

end Execution

/-- The second half of the transaction: the approval is counted, and the bridge is moved on when
there are enough. The row has the id `id`, and the request the text `bridgeId`. -/
def countApproval (id bridgeId : String) : Tx ApprovalOutcome := do
  -- the increment locks the row, and the row is read again under the lock
  query (.incrementApprovals id)
  match ← query (.findBridge id) with
  | none => throw (.transactionFailed
      { reason := some "Bridge record not found", bridgeId := some bridgeId })
  | some updated =>
    if updated.multisigApprovals < updated.multisigThreshold then
      return { bridge := updated, shouldExecute := false }
    else
      -- of the transactions that reach the threshold one affects the row
      let flipped ← query (.startProcessing id)
      return { bridge := { updated with status := .bridgeProcessing }, shouldExecute := flipped }

/-- The transaction of `addApproval`. The status is checked on an unlocked row. -/
def approve (id bridgeId signerId : String) : Tx ApprovalOutcome := do
  match ← query (.findBridge id) with
  | none => throw (.transactionFailed
      { reason := some "Bridge record not found", bridgeId := some bridgeId })
  | some bridge =>
    if ¬ bridge.status.Awaiting then
      throw (.transactionFailed
        { reason := some "Bridge is not awaiting approvals", bridgeId := some bridgeId })
    -- a second approval of the signer meets the unique constraint
    else if ← query (.insertApproval ⟨bridgeId, signerId⟩) then
      countApproval id bridgeId
    else
      throw (.transactionFailed { reason := some "Signer has already approved this bridge"
                                  bridgeId := some bridgeId, signerId := some signerId })

/-- How a save fails: before it reaches the database, or after it was carried out there. -/
inductive SaveFault : Type
  | refused (err : BridgeError)
  | unanswered (err : BridgeError)

/-- What a call meets outside the bridge tables: the failures of its saves, the results of its
withdrawals, and the statement of its transaction at which the database gives up. A transaction has
five statements and its commit. -/
structure Environment where
  saveFault : CrossChainBridge → Option SaveFault := fun _ => none
  withdraw : String → String → String → String → Except BridgeError Withdrawn :=
    fun _ _ _ _ => .ok .success
  faultAt : ℕ := 7
  fault : BridgeError := .error "Connection terminated"

/-- The statements of `save`. An entity that equals its row is not written. -/
def storeBridge (bridge : CrossChainBridge) : BridgeSession Unit := do
  match ← bare (.loadStored bridge) with
  | none =>
    let _ ← bare (.insertBridge bridge)
    return ()
  | some stored =>
    if stored = bridge then return () else bare (.updateBridge stored bridge)

/-- `bridgeRepo`, on the database. -/
def Environment.bridgeRepo (env : Environment) : BridgeRepo BridgeSession where
  save bridge :=
    match env.saveFault bridge with
    | none => do
      storeBridge bridge
      return bridge
    | some (.refused err) => throw err
    | some (.unanswered err) => do
      storeBridge bridge
      throw err

/-- `stellarService`, with the results it has for the call. -/
def Environment.stellarService (env : Environment) : Stellar BridgeSession where
  withdraw userId toAddress amount memo :=
    match env.withdraw userId toAddress amount memo with
    | .ok tx => return tx
    | .error err => throw err

/-- A call of `addApproval`. -/
structure Call where
  bridgeId : String
  signerId : String
  env : Environment := {}

/-- The transaction of the call. The first statement fails on a text that is no `uuid`. -/
def Call.tx (call : Call) : Tx ApprovalOutcome :=
  match storedSpelling call.bridgeId with
  | none => throw (.error ("invalid input syntax for type uuid: \"" ++ call.bridgeId ++ "\""))
  | some id => (approve id call.bridgeId call.signerId).failAt call.env.fault call.env.faultAt

/-- The call names the bridge as its row does, if it names any. -/
def Call.Spelled (call : Call) : Prop := ∀ id ∈ storedSpelling call.bridgeId, id = call.bridgeId

instance (call : Call) : Decidable call.Spelled := inferInstanceAs (Decidable (∀ _ ∈ _, _))

/-- What the call does after its transaction. -/
def Call.finish (call : Call) (outcome : ApprovalOutcome) : BridgeSession CrossChainBridge :=
  if outcome.shouldExecute then
    executeBridge call.env.bridgeRepo call.env.stellarService outcome.bridge
  else return outcome.bridge

def addApproval (authorizedSigners : List String) (call : Call) : BridgeSession CrossChainBridge :=
  if call.signerId ∉ authorizedSigners then
    throw (.transactionFailed
      { reason := some "Signer is not authorized to approve this bridge"
        bridgeId := some call.bridgeId, signerId := some call.signerId })
  else do
    let outcome ← transaction id call.tx
    -- the execution works on the entity that the transaction has read
    call.finish outcome

/-- The server of the bridge service. -/
abbrev BridgeServer (ι : Type) := Server BridgeDb Write RowKey ApprovalOutcome ι

/-- The configurations of the calls. -/
abbrev Approving (ι : Type) :=
  Clients Stmt.Reply BridgeDb Write RowKey ApprovalOutcome BridgeError CrossChainBridge ι

/-- Any number of calls at the same time, before their first statement. -/
def approving {ι : Type} (authorizedSigners : List String) (calls : ι → Call) (d₀ : BridgeDb) :
    Approving ι :=
  ⟨Server.idle d₀, fun i => addApproval authorizedSigners (calls i)⟩

/-- The record that `initiateBridge` creates. -/
def newBridge (multisigThreshold : ℕ) (id userId : String)
    (sourceNetwork destinationNetwork : BlockchainNetwork)
    (sourceAddress destinationAddress amount : String) : CrossChainBridge :=
  { id, userId, sourceNetwork, destinationNetwork, sourceAddress, destinationAddress, amount
    asset := "USDC", status := .initiated, multisigThreshold, multisigApprovals := 0 }

end Bridges
