import PeerX.Foundations.Table
import Mathlib.Algebra.Order.Field.Rat

/-!
# Protection: entities

The rows of `insurance_fund_tiers`, `insurance_funds`, `insurance_transactions` and
`liquidation_events` that the insurance fund services read and write, the results of the services
and their exceptions. Amounts are exact rationals.
-/

namespace Protection

inductive FundTier : Type
  | low
  | medium
  | high
  | critical
deriving DecidableEq

/-- The stored text of a tier. -/
def FundTier.text : FundTier → String
  | .low => "LOW"
  | .medium => "MEDIUM"
  | .high => "HIGH"
  | .critical => "CRITICAL"

inductive FundHealthStatus : Type
  | healthy
  | warning
  | critical
  | depleted
deriving DecidableEq

inductive InsuranceTxType : Type
  | deposit
  | payout
  | feeContribution
  | replenishment
deriving DecidableEq

/-- A row of `insurance_fund_tiers`. -/
structure InsuranceFundTier where
  id : ℕ
  tier : FundTier
deriving DecidableEq

/-- A row of `insurance_funds`. -/
structure InsuranceFund where
  id : ℕ
  tierId : ℕ
  asset : String
  balance : ℚ
  targetReserve : ℚ
  healthStatus : FundHealthStatus
  healthPercent : ℚ
deriving DecidableEq

/-- A row of `insurance_transactions`. -/
structure InsuranceTransaction where
  fundId : ℕ
  type : InsuranceTxType
  amount : ℚ
  balanceBefore : ℚ
  balanceAfter : ℚ
  referenceId : Option String
  userId : Option ℕ
deriving DecidableEq

/-- A row of `liquidation_events`. -/
structure LiquidationEvent where
  userId : ℕ
  positionId : Option String
  shortfallAmount : ℚ
  coveredAmount : ℚ
  fundId : Option ℕ
  cascadePrevented : Bool
  status : String
deriving DecidableEq

structure InsuranceTransactionOptions where
  referenceId : Option String
  userId : Option ℕ
deriving DecidableEq

/-- One entry of `CoverShortfallResult.fundsUsed`. -/
structure FundUsed where
  fundId : ℕ
  amount : ℚ
  tier : FundTier
deriving DecidableEq

structure CoverShortfallResult where
  liquidationEvent : LiquidationEvent
  coveredAmount : ℚ
  remainingShortfall : ℚ
  cascadePrevented : Bool
  fundsUsed : List FundUsed
deriving DecidableEq

/-- The exceptions of the insurance fund services, with their messages. -/
inductive ProtectionError : Type
  | notFound (message : String)
  | badRequest (message : String)
  | error (message : String)
deriving DecidableEq

/-- What a transaction of the insurance fund services commits with: the result of
`recordTransaction`, or that of `coverShortfall`. -/
inductive Outcome : Type
  | recorded (fund : InsuranceFund) (transaction : InsuranceTransaction)
  | covered (result : CoverShortfallResult)
deriving DecidableEq

end Protection
