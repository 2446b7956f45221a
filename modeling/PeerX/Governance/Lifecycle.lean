import PeerX.Governance.Effects

/-!
# Governance: the life of a proposal

A proposal is created, approved, finalized when its voting period has ended, and executed when it
has passed. It passes only by the finalization of an active proposal. An executed, cancelled or
defeated proposal stays what it is, and a proposal is executed once, as long as no such proposal is
approved and no defeated one is cancelled: an approval checks no status, and a cancellation does not
check for the defeated one. No execution is recorded.

## Main results

* `transition_govern`: what a call does to the status of a proposal
* `lifecycle`: final statuses are final, a proposal is executed once, and passes by a finalization
* `active_again`: a defeated proposal that is approved or cancelled
-/

namespace Governance

open Concurrency Relational

variable {db : GovernanceDb} {p : String}

/-- The status of a proposal. -/
def GovernanceDb.status (db : GovernanceDb) (proposalId : String) : Option ProposalStatus :=
  (db.proposals.find proposalId).map (·.status)

def ProposalStatus.Final (status : ProposalStatus) : Prop :=
  status = .executed ∨ status = .cancelled ∨ status = .defeated

instance : DecidablePred ProposalStatus.Final := fun _ => inferInstanceAs (Decidable (_ ∨ _))

/-- The status of a proposal after a call. -/
inductive Transition (db : GovernanceDb) (p : String) : GovernanceCall → Option ProposalStatus → Prop
  | keeps {call} : Transition db p call (db.status p)
  | creates {proposerId type now} (h : db.status p = none) :
      Transition db p (.createProposal p proposerId type now) (some .pending)
  | approves {now status} (h : db.status p = some status) :
      Transition db p (.approveProposal p now) (some .active)
  | cancels {reason status} (h : db.status p = some status) (hactive : status ≠ .active)
      (hexecuted : status ≠ .executed) : Transition db p (.cancelProposal p reason) (some .cancelled)
  | finalizes {row now status} (hrow : db.proposals.find p = some row) (hactive : row.status = .active)
      (hended : row.endTime ≤ now) (hstatus : status = .passed ∨ status = .defeated) :
      Transition db p (.finalizeProposal p now) (some status)
  | executes {actorId now} (h : db.status p = some .passed) :
      Transition db p (.executeProposal p actorId now) (some .executed)

variable {call : GovernanceCall}

theorem status_of_find {row : GovernanceProposal} (h : db.proposals.find p = some row) :
    db.status p = some row.status := by
  rw [GovernanceDb.status, h]
  rfl

theorem status_save {proposal : GovernanceProposal} {db' : GovernanceDb}
    (h : db'.proposals = db.proposals.save proposal) :
    db'.status p = if p = proposal.id then some proposal.status else db.status p := by
  rw [GovernanceDb.status, h, Table.find_save]
  split <;> rfl

theorem Transition.of_save {proposal : GovernanceProposal} {db' : GovernanceDb}
    (h : db'.proposals = db.proposals.save proposal)
    (hself : p = proposal.id → Transition db p call (some proposal.status)) :
    Transition db p call (db'.status p) := by
  rw [status_save h]
  by_cases hp : p = proposal.id
  · rw [if_pos hp]
    exact hself hp
  · rw [if_neg hp]
    exact .keeps

theorem Transition.of_same {row proposal : GovernanceProposal} {db' : GovernanceDb} {proposalId : String}
    (h : db'.proposals = db.proposals.save proposal) (hrow : db.proposals.find proposalId = some row)
    (hid : proposal.id = row.id) (hstatus : proposal.status = row.status) :
    Transition db p call (db'.status p) := by
  refine .of_save h fun hp => ?_
  have hkey : row.id = proposalId := Table.key_of_find hrow
  rw [hstatus, ← status_of_find hrow, ← hkey, ← hid, ← hp]
  exact .keeps

/-- **What a call does to the status of a proposal.** -/
theorem transition_govern (db : GovernanceDb) (p : String) (call : GovernanceCall) :
    Transition db p call ((govern db call).status p) := by
  have hdoes := does_govern db call
  generalize govern db call = db' at hdoes
  cases hdoes with
  | nothing | castsUntallied | delegates | revokes => exact .keeps
  | creates hnew =>
    refine .of_save rfl fun hp => ?_
    subst hp
    exact .creates (by rw [GovernanceDb.status, show db.proposals.find _ = none from hnew]; rfl)
  | approves hrow =>
    refine .of_save rfl fun hp => ?_
    obtain rfl : _ = p := (Table.key_of_find hrow).symm.trans hp.symm
    exact .approves (status_of_find hrow)
  | cancels hrow hactive hexecuted =>
    refine .of_save rfl fun hp => ?_
    obtain rfl : _ = p := (Table.key_of_find hrow).symm.trans hp.symm
    exact .cancels (status_of_find hrow) hactive hexecuted
  | finalizes hrow hactive hended =>
    refine .of_save rfl fun hp => ?_
    obtain rfl : _ = p := (Table.key_of_find hrow).symm.trans hp.symm
    refine .finalizes hrow hactive hended ?_
    -- a vote that has ended is passed or defeated
    unfold GovernanceProposal.finalized
    dsimp only
    split
    · exact .inl rfl
    · exact .inr rfl
  | executes hrow hpassed =>
    refine .of_save rfl fun hp => ?_
    obtain rfl : _ = p := (Table.key_of_find hrow).symm.trans hp.symm
    exact .executes ((status_of_find hrow).trans (congrArg some hpassed))
  | failsToExecute hrow hpassed => exact .of_same rfl hrow rfl hpassed.symm
  | @casts _ _ _ _ _ _ _ voteType _ hrow => exact .of_same rfl hrow (by cases voteType <;> rfl) (by cases voteType <;> rfl)

/-- No proposal in a final status is approved, and no defeated one is cancelled. -/
def RespectsEnd (db : GovernanceDb) : GovernanceCall → Prop
  | .approveProposal proposalId _ => ∀ status ∈ db.status proposalId, ¬ status.Final
  | .cancelProposal proposalId _ => db.status proposalId ≠ some .defeated
  | _ => True

instance (db : GovernanceDb) : DecidablePred (RespectsEnd db)
  | .approveProposal proposalId _ =>
    inferInstanceAs (Decidable (∀ status ∈ db.status proposalId, ¬ status.Final))
  | .cancelProposal proposalId _ => inferInstanceAs (Decidable (db.status proposalId ≠ some .defeated))
  | .createProposal _ _ _ _ | .finalizeProposal _ _ | .executeProposal _ _ _ => inferInstanceAs (Decidable True)
  | .castVote _ _ _ _ _ _ | .delegateVotes _ _ _ _ _ | .revokeDelegation _ _ =>
    inferInstanceAs (Decidable True)

/-- A final status stays. -/
theorem final_govern (hend : RespectsEnd db call) {status : ProposalStatus} (hfinal : status.Final)
    (h : db.status p = some status) : (govern db call).status p = some status := by
  have htransition := transition_govern db p call
  generalize (govern db call).status p = after at htransition
  cases htransition with
  | keeps => exact h
  | creates hnone =>
    rw [h] at hnone
    cases hnone
  | approves => exact absurd hfinal (hend status h)
  | cancels hstatus hactive hexecuted =>
    rw [h] at hstatus
    obtain rfl := Option.some.inj hstatus
    rcases hfinal with rfl | rfl | rfl
    · exact absurd rfl hexecuted
    · rfl
    · exact absurd h hend
  | finalizes hrow hactive =>
    rw [status_of_find hrow] at h
    obtain rfl := Option.some.inj h
    rw [hactive] at hfinal
    rcases hfinal with h | h | h <;> cases h
  | executes hpassed =>
    rw [hpassed] at h
    obtain rfl := Option.some.inj h
    rcases hfinal with h | h | h <;> cases h

/-- A proposal passes by the finalization of an active one whose voting period has ended. -/
theorem passed_govern (h : (govern db call).status p = some .passed) :
    db.status p = some .passed ∨ db.status p = some .active ∧
      ∃ row ∈ db.proposals.find p, ∃ now, call = .finalizeProposal p now ∧ row.endTime ≤ now := by
  suffices hcases : ∀ after, Transition db p call after → after = some .passed → _ from
    hcases _ (transition_govern db p call) h
  intro after htransition hafter
  cases htransition with
  | keeps => exact .inl hafter
  | creates | approves | cancels | executes => cases hafter
  | @finalizes row now _ hrow hactive hended =>
    exact .inr ⟨(status_of_find hrow).trans (congrArg some hactive), row, hrow, now, rfl, hended⟩

/-- The successful executions of a proposal. -/
def GovernanceDb.successes (db : GovernanceDb) (proposalId : String) : ℕ :=
  db.executions.countP fun execution =>
    execution.proposalId = proposalId ∧ execution.executionStatus = .success

/-- No execution is recorded. -/
theorem executions_govern (db : GovernanceDb) (call : GovernanceCall) : (govern db call).executions = db.executions := by
  have hdoes := does_govern db call
  generalize govern db call = db' at hdoes
  cases hdoes <;> rfl

/-- The call turns the status of the proposal into EXECUTED. -/
def Executes (db : GovernanceDb) (p : String) (call : GovernanceCall) : Prop :=
  db.status p ≠ some .executed ∧ (govern db call).status p = some .executed

/-- **The life of a proposal**, in every sequence of calls that meets the condition, whatever writes
fail: a proposal in a final status stays in it; a proposal is executed once, by its status and by
what is recorded; and a proposal that passes was active, and its voting period had ended. -/
theorem lifecycle (db : GovernanceDb) (hexecutions : db.executions = []) (calls : List GovernanceCall)
    (hend : Along govern RespectsEnd db calls) (p : String) :
    (∀ before after status, calls = before ++ after → (run govern db before).status p = some status →
      status.Final → (run govern db calls).status p = some status) ∧
    (∀ before call between call' after, calls = before ++ [call] ++ between ++ [call'] ++ after →
      Executes (run govern db before) p call →
        ¬ Executes (run govern db (before ++ [call] ++ between)) p call') ∧
    (run govern db calls).successes p ≤ 1 ∧
    ∀ before call after, calls = before ++ call :: after →
      (run govern db (before ++ [call])).status p = some .passed →
        (run govern db before).status p = some .passed ∨ (run govern db before).status p = some .active ∧
          ∃ row ∈ (run govern db before).proposals.find p, ∃ now,
            call = .finalizeProposal p now ∧ row.endTime ≤ now := by
  have hstays : ∀ {db : GovernanceDb} {calls : List GovernanceCall} {status : ProposalStatus},
      Along govern RespectsEnd db calls → db.status p = some status → status.Final →
        (run govern db calls).status p = some status := fun hend hstatus hfinal =>
    run_invariant (I := fun db => db.status p = some _) (fun db call h hend => final_govern hend hfinal h) hstatus hend
  refine ⟨?_, ?_, ?_, ?_⟩
  · rintro before after status rfl hstatus hfinal
    rw [run_append]
    exact hstays ((along_append _ _ _).mp hend).2 hstatus hfinal
  · rintro before call between call' after rfl hexecutes ⟨hnot, -⟩
    rw [run_append, run_append] at hnot
    simp only [along_append] at hend
    have hbetween := hend.1.1.2
    rw [run_append] at hbetween
    exact hnot (hstays hbetween hexecutes.2 (.inl rfl))
  · have hnone : (run govern db calls).executions = [] :=
      run_invariant' (I := fun db => db.executions = []) (fun db call h => (executions_govern db call).trans h)
        hexecutions calls
    simp [GovernanceDb.successes, hnone]
  · rintro before call after - hpassed
    rw [run_append] at hpassed
    exact passed_govern hpassed

def proposerAndVoter : GovernanceDb where
  holdings := (Table.empty.save ⟨"carol", governanceAsset, 10000, by decide⟩).save
    ⟨"alice", governanceAsset, 5000, by decide⟩
  proposals := .empty
  votes := .empty
  delegations := .empty
  executions := []
  fates := []

/-- A proposal is created, approved and voted on, and defeated after its voting period. -/
def defeat : List GovernanceCall :=
  [.createProposal "p" "carol" .treasury 0, .approveProposal "p" 0, .castVote "p" "alice" "0xa" "FOR" none 1,
    .finalizeProposal "p" 700000000]

/-- A defeated proposal is not finalized or executed again. -/
theorem lifecycle_defeated :
    (run govern proposerAndVoter defeat).status "p" = some .defeated ∧
      (run govern proposerAndVoter (defeat ++ [.finalizeProposal "p" 1400000000,
        .executeProposal "p" "dan" 1400000001])).status "p" = some .defeated := by
  have hdefeated : (run govern proposerAndVoter defeat).status "p" = some .defeated := by decide +kernel
  have hend : Along govern RespectsEnd proposerAndVoter (defeat ++ [.finalizeProposal "p" 1400000000,
      .executeProposal "p" "dan" 1400000001]) :=
    ⟨by decide +kernel, by decide +kernel, trivial, trivial, trivial, trivial, trivial⟩
  exact ⟨hdefeated, (lifecycle proposerAndVoter rfl _ hend "p").1 _ _ _ rfl hdefeated (.inr (.inr rfl))⟩

/-- **A defeated proposal is approved, and is active again. And it is cancelled.** -/
theorem active_again :
    (run govern proposerAndVoter defeat).status "p" = some .defeated ∧
    (run govern proposerAndVoter (defeat ++ [.approveProposal "p" 700000002])).status "p" = some .active ∧
    (run govern proposerAndVoter (defeat ++ [.cancelProposal "p" "obsolete"])).status "p" = some .cancelled := by
  refine ⟨?_, ?_, ?_⟩
  all_goals decide +kernel

end Governance
