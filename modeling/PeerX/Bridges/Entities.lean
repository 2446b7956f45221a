import PeerX.Foundations.Table

/-!
# Bridges: entities

The rows of `cross_chain_bridges`, `bridge_approvals` and `blockchain_transactions` that the bridge
and the Stellar service read and write, and the exceptions of the services. Amounts are the texts
that the services pass on.
-/

namespace Bridges

inductive BlockchainNetwork : Type
  | stellar
  | ethereum
deriving DecidableEq

inductive BridgeStatus : Type
  | initiated
  | sourceConfirmed
  | bridgeProcessing
  | destinationPending
  | completed
  | failed
  | refunded
deriving DecidableEq

/-- The bridge is awaiting approvals. -/
def BridgeStatus.Awaiting (status : BridgeStatus) : Prop :=
  status = .initiated ∨ status = .sourceConfirmed

instance (status : BridgeStatus) : Decidable status.Awaiting :=
  inferInstanceAs (Decidable (_ ∨ _))

/-- A row of `cross_chain_bridges`. -/
structure CrossChainBridge where
  id : String
  userId : String
  sourceNetwork : BlockchainNetwork
  destinationNetwork : BlockchainNetwork
  sourceAddress : String
  destinationAddress : String
  amount : String
  asset : String := "USDC"
  status : BridgeStatus := .initiated
  sourceTxHash : Option String := none
  destinationTxHash : Option String := none
  multisigApprovals : ℕ := 0
  multisigThreshold : ℕ := 2
  errorMessage : Option String := none
deriving DecidableEq

/-- A row of `bridge_approvals`. -/
structure BridgeApproval where
  bridgeId : String
  signerId : String
deriving DecidableEq

/-- The columns of the unique constraint. -/
abbrev BridgeApproval.key (a : BridgeApproval) : String × String := (a.bridgeId, a.signerId)

inductive TransactionType : Type
  | deposit
  | withdrawal
  | bridge
  | settlement
deriving DecidableEq

inductive TransactionStatus : Type
  | pending
  | confirmed
  | failed
  | refunded
deriving DecidableEq

/-- A row of `blockchain_transactions`. -/
structure BlockchainTransaction where
  userId : String
  network : BlockchainNetwork
  type : TransactionType
  status : TransactionStatus
  txHash : Option String := none
  fromAddress : String
  toAddress : String
  amount : String
  asset : String := "USDC"
  memo : Option String := none
  confirmations : ℕ := 0
  errorMessage : Option String := none
deriving DecidableEq

/-- The details of `BlockchainException.transactionFailed`. -/
structure FailureDetails where
  reason : Option String := none
  bridgeId : Option String := none
  signerId : Option String := none
  error : Option String := none
deriving DecidableEq

/-- What the services throw: their own exception, or the error of a library. -/
inductive BridgeError : Type
  | transactionFailed (details : FailureDetails)
  | error (message : String)
deriving DecidableEq

def BridgeError.message : BridgeError → String
  | .transactionFailed _ => "Blockchain transaction failed"
  | .error message => message

/-- What the transaction of `addApproval` commits with. -/
structure ApprovalOutcome where
  bridge : CrossChainBridge
  shouldExecute : Bool
deriving DecidableEq

/-- What `withdraw` resolves to: the stored record, or the object that the function registered with
the circuit breaker returns. -/
inductive Withdrawn : Type
  | record (tx : BlockchainTransaction)
  | success
deriving DecidableEq

/-- `tx.txHash`; the object without a record has none. -/
def Withdrawn.txHash : Withdrawn → Option String
  | .record tx => tx.txHash
  | .success => none

end Bridges
