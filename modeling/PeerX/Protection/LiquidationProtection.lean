import PeerX.Foundations.Transactions
import PeerX.Protection.InsuranceFund

/-!
# Protection: the liquidation protection service

`coverShortfall` reads the funds of the tiers outside any transaction, and then walks the tiers in
one transaction: it debits from each fund as much as is needed and was there when the fund was read,
and tries once more with the current balance when the debit is refused. It ends with what is
covered, even when that is not everything.
-/

namespace Protection

open Relational Concurrency

def tierPriority : List FundTier := [.low, .medium, .high, .critical]

def maxDebitAttemptsPerTier : ℕ := 2

/-- `tiersToTry`: the preferred tier comes first. -/
def tiersToTry : Option FundTier → List FundTier
  | none => tierPriority
  | some preferredTier => preferredTier :: tierPriority.filter (· ≠ preferredTier)

/-- The advisory reads before the transaction. A tier without a fund is skipped. -/
def findFunds (asset : String) : List FundTier → ProtectionSession (List (FundTier × InsuranceFund))
  | [] => return []
  | tier :: tiers => do
    let found ← tryCatch (some <$> getFundsByTier tier asset) fun
      | .notFound _ => return none
      | err => throw err
    let fundsByTier ← findFunds asset tiers
    return match found with
      | none => fundsByTier
      | some fund => (tier, fund) :: fundsByTier

/-- The debit attempts for one fund, at most `attempts` more of them. A refused first attempt is
followed by a read of the current balance. The result is the amount of the attempt that
succeeded. -/
def attemptPayout (fundId : ℕ) (remaining : ℚ) (options : InsuranceTransactionOptions) :
    (attempts attempt : ℕ) → ℚ → Tx (Option ℚ)
  | 0, _, _ => return none
  | attempts + 1, attempt, coverAmount => do
    let record ← tryCatch
      (some <$> executeRecordTransaction fundId .payout coverAmount options) fun
      | .badRequest _ => return none
      | err => throw err
    match record with
    | some _ => return some coverAmount
    | none =>
      if 0 < attempt then
        return none
      else
        let fresh ← getFund fundId
        if fresh.balance ≤ 0 then
          return none
        else
          attemptPayout fundId remaining options attempts (attempt + 1) (min fresh.balance remaining)

/-- The variables of the tier walk. -/
structure Coverage where
  remaining : ℚ
  fundsUsed : List FundUsed
  primaryFundId : Option ℕ

/-- A fund was debited. The first one is the primary fund; an id of 0 counts as none. -/
def Coverage.use (c : Coverage) (fundId : ℕ) (tier : FundTier) (coverAmount : ℚ) : Coverage where
  remaining := c.remaining - coverAmount
  fundsUsed := c.fundsUsed ++ [⟨fundId, coverAmount, tier⟩]
  primaryFundId := if c.primaryFundId.getD 0 = 0 then some fundId else c.primaryFundId

/-- The tier walk. -/
def coverLoop (fundsByTier : List (FundTier × InsuranceFund)) (options : InsuranceTransactionOptions) :
    List FundTier → Coverage → Tx Coverage
  | [], c => return c
  | tier :: tiers, c => do
    if c.remaining ≤ 0 then
      return c
    else
      match fundsByTier.find? (·.1 = tier) with
      | none => coverLoop fundsByTier options tiers c
      | some (_, fund) =>
        if fund.balance ≤ 0 then
          coverLoop fundsByTier options tiers c
        else
          match ← attemptPayout fund.id c.remaining options maxDebitAttemptsPerTier 0
              (min fund.balance c.remaining) with
          | none => coverLoop fundsByTier options tiers c
          | some coverAmount =>
            coverLoop fundsByTier options tiers (c.use fund.id tier coverAmount)

/-- The result of the walk. -/
def Coverage.result (c : Coverage) (userId : ℕ) (shortfallAmount : ℚ)
    (positionId : Option String) : CoverShortfallResult :=
  let coveredAmount := shortfallAmount - c.remaining
  let cascadePrevented : Bool := c.remaining ≤ 0
  { liquidationEvent :=
      { userId
        positionId
        shortfallAmount
        coveredAmount
        fundId := c.primaryFundId
        cascadePrevented
        status := if cascadePrevented then "COVERED" else "PARTIAL" }
    coveredAmount
    remainingShortfall := c.remaining
    cascadePrevented
    fundsUsed := c.fundsUsed }

/-- The transaction of `coverShortfall`. -/
def coverTransaction (userId : ℕ) (shortfallAmount : ℚ) (positionId : Option String)
    (fundsByTier : List (FundTier × InsuranceFund)) (tiers : List FundTier) :
    Tx CoverShortfallResult := do
  let c ← coverLoop fundsByTier ⟨positionId, some userId⟩ tiers ⟨shortfallAmount, [], none⟩
  let result := c.result userId shortfallAmount positionId
  query (.insertLiquidation result.liquidationEvent)
  return result

/-- The health refreshes after the commit, one for each fund used. -/
def refreshAll : List FundUsed → ProtectionSession Unit
  | [] => return ()
  | used :: fundsUsed => do
    let _ ← updateFundHealth used.fundId
    refreshAll fundsUsed

def coverShortfall (userId : ℕ) (shortfallAmount : ℚ) (positionId : Option String) (asset : String)
    (preferredTier : Option FundTier) : ProtectionSession CoverShortfallResult := do
  if shortfallAmount ≤ 0 then
    throw (.error "Shortfall amount must be positive")
  else
    let fundsByTier ← findFunds asset (tiersToTry preferredTier)
    let outcome ← transaction .covered
      (coverTransaction userId shortfallAmount positionId fundsByTier (tiersToTry preferredTier))
    refreshAll outcome.fundsUsed
    return outcome

/-- A call of the services: `recordTransaction` (a payout, a deposit, a replenishment or a fee
contribution), or `coverShortfall`. -/
inductive Call : Type
  | record (fundId : ℕ) (type : InsuranceTxType) (amount : ℚ)
      (options : InsuranceTransactionOptions)
  | cover (userId : ℕ) (shortfallAmount : ℚ) (positionId : Option String) (asset : String)
      (preferredTier : Option FundTier)
deriving DecidableEq

def Call.session : Call → ProtectionSession Unit
  | .record fundId type amount options => do
    let _ ← recordTransaction fundId type amount options
    return ()
  | .cover userId shortfallAmount positionId asset preferredTier => do
    let _ ← coverShortfall userId shortfallAmount positionId asset preferredTier
    return ()

/-- The configurations of the calls. -/
abbrev Serving (ι : Type) := Clients Stmt.Reply ProtectionDb Write ℕ Outcome ProtectionError Unit ι

/-- Any number of calls at the same time, before their first statement. -/
def serving {ι : Type} (calls : ι → Call) (d₀ : ProtectionDb) : Serving ι :=
  ⟨Server.idle d₀, fun i => (calls i).session⟩

end Protection
