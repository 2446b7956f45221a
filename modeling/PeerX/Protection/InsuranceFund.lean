import PeerX.Foundations.JsNumber
import PeerX.Protection.Database

/-!
# Protection: the insurance fund service

`recordTransaction` changes the balance of a fund by a guarded `UPDATE`, reads the fund back and
stores the audit row. Without a manager it runs in a transaction of its own, and refreshes the
health of the fund after the commit: it reads the fund and saves the whole entity, outside any
transaction.
-/

namespace Protection

open Relational Concurrency Arithmetic

def healthWarningThreshold : ℚ := 20

/-- The percentage, as it is calculated with doubles. -/
def calculateHealthPercent (balance targetReserve : ℚ) : ℚ :=
  if targetReserve ≤ 0 then 100 else min 100 (double (double (balance / targetReserve) * 100))

def resolveHealthStatus (healthPercent : ℚ) : FundHealthStatus :=
  if healthPercent ≤ 0 then .depleted
  else if healthPercent < healthWarningThreshold then .critical
  else if healthPercent < 50 then .warning
  else .healthy

/-- The fund with its health recalculated. -/
def InsuranceFund.refreshed (fund : InsuranceFund) : InsuranceFund :=
  let healthPercent := calculateHealthPercent (double fund.balance) (double fund.targetReserve)
  { fund with healthPercent := healthPercent, healthStatus := resolveHealthStatus healthPercent }

def updateFundHealth (fundId : ℕ) : ProtectionSession InsuranceFund := do
  match ← bare (.findFund fundId) with
  | none => throw (.error ("Fund " ++ toString fundId ++ " not found"))
  | some fund =>
    bare (.saveFund fund.refreshed)
    return fund.refreshed

/-- The fund after a debit or a credit. -/
def InsuranceFund.moved (fund : InsuranceFund) (type : InsuranceTxType) (amount : ℚ) :
    InsuranceFund :=
  { fund with balance := if type = .payout then fund.balance - amount else fund.balance + amount }

/-- The audit row of a fund as it is read back after the change. -/
def auditRow (fund : InsuranceFund) (type : InsuranceTxType) (amount : ℚ)
    (options : InsuranceTransactionOptions) : InsuranceTransaction where
  fundId := fund.id
  type := type
  amount := amount
  balanceBefore := if type = .payout then fund.balance + amount else fund.balance - amount
  balanceAfter := fund.balance
  referenceId := options.referenceId
  userId := options.userId

/-- `InsuranceFundService.getFund`, inside a transaction. -/
def getFund (fundId : ℕ) : Tx InsuranceFund := do
  match ← query (.findFund fundId) with
  | none => throw (.notFound ("Insurance fund " ++ toString fundId ++ " not found"))
  | some fund => return fund

/-- `executeRecordTransaction` after the balance change: the fund is read back, and the audit row is
stored. -/
def audit (fundId : ℕ) (type : InsuranceTxType) (amount : ℚ)
    (options : InsuranceTransactionOptions) : Tx (InsuranceFund × InsuranceTransaction) := do
  let fund ← getFund fundId
  let transaction := auditRow fund type amount options
  query (.insertTransaction transaction)
  return (fund, transaction)

def executeRecordTransaction (fundId : ℕ) (type : InsuranceTxType) (amount : ℚ)
    (options : InsuranceTransactionOptions) : Tx (InsuranceFund × InsuranceTransaction) := do
  if type = .payout then
    if ← query (.debit fundId amount) then
      audit fundId type amount options
    else
      throw (.badRequest "Insufficient fund balance for payout")
  else
    query (.credit fundId amount)
    audit fundId type amount options

/-- `InsuranceFundService.recordTransaction`, in a transaction of its own. -/
def recordTransaction (fundId : ℕ) (type : InsuranceTxType) (amount : ℚ)
    (options : InsuranceTransactionOptions) :
    ProtectionSession (InsuranceFund × InsuranceTransaction) := do
  let result ← transaction (fun r => .recorded r.1 r.2)
    (executeRecordTransaction fundId type amount options)
  let _ ← updateFundHealth fundId
  return result

def getFundsByTier (tier : FundTier) (asset : String) : ProtectionSession InsuranceFund := do
  match ← bare (.findTier tier) with
  | none => throw (.notFound ("Fund tier " ++ tier.text ++ " not found"))
  | some tierEntity =>
    match ← bare (.findFundOfTier tierEntity.id asset) with
    | none => throw (.notFound ("Fund for tier " ++ tier.text ++ " and asset " ++ asset ++ " not found"))
    | some fund => return fund

end Protection
