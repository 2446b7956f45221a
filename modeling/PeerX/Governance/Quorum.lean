import PeerX.Governance.Lifecycle
import PeerX.Governance.Tallies
import PeerX.Governance.VotingPower

/-!
# Governance: the quorum

A proposal should pass only when the votes cast reach the quorum, a percentage of all holdings, and
the share of the votes for it reaches its threshold. Postgres returns the three tallies as texts,
which `+` puts one behind the other. The result is no number, so it is not at least anything: no
proposal passes.
-/

namespace Governance

open Concurrency Relational

/-- The finalization passes the proposal. -/
def Passes (db : GovernanceDb) (p : String) (now : ℤ) : Prop :=
  db.status p ≠ some .passed ∧ (govern db (.finalizeProposal p now)).status p = some .passed

/-- The votes cast are a quorum of all holdings, and the share of those for the proposal reaches
its threshold. -/
def HasQuorum (db : GovernanceDb) (p : String) : Prop :=
  db.totalHoldings * quorumPercentage / 100 ≤ db.totalWeight p ∧
    ∀ row ∈ db.proposals.find p, row.passThresholdVotes ≤ db.weightOf p .forVote / db.totalWeight p * 100

theorem not_passes (db : GovernanceDb) (p : String) (now : ℤ) : ¬ Passes db p now := by
  rintro ⟨hbefore, hafter⟩
  have hdoes := does_govern db (.finalizeProposal p now)
  generalize govern db (.finalizeProposal p now) = db' at hdoes hafter
  cases hdoes with
  | nothing => exact hbefore hafter
  | @finalizes _ row _ _ hrow =>
    have hkey : p = (row.finalized false).id := (Table.key_of_find hrow).symm
    rw [status_save rfl, if_pos hkey] at hafter
    cases hafter

/-- **A finalization passes a proposal only with a quorum**: after every sequence of calls, whatever
writes fail, it passes none. -/
theorem passes_with_quorum (db : GovernanceDb) (calls : List GovernanceCall) (p : String) (now : ℤ) :
    (Passes (run govern db calls) p now → HasQuorum (run govern db calls) p) ∧ ¬ Passes (run govern db calls) p now :=
  ⟨fun h => absurd h (not_passes _ p now), not_passes _ p now⟩

end Governance
