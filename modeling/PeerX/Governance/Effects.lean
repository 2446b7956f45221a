import PeerX.Governance.Services

/-!
# Governance: what a call alone does

A call that runs alone either leaves the tables as they are, or makes one change, which depends on
what it has read. This is all that the properties of sequences of calls use of the programs.
-/

namespace Governance

open Arithmetic Concurrency Relational

variable {db : GovernanceDb}

/-! ## What the services read -/

/-- The balance of a user. -/
def GovernanceDb.balance (db : GovernanceDb) (userId : String) : ℚ :=
  ((db.holdings.find (userId, governanceAsset)).map (·.balance)).getD 0

/-- The active delegations to a user. -/
def GovernanceDb.delegationsTo (db : GovernanceDb) (userId : String) : List VoteDelegation :=
  db.delegations.rows.filter fun d => d.delegateeId = userId ∧ d.isActive = true

/-- The power of a vote. -/
def GovernanceDb.votingPower (db : GovernanceDb) (userId proposalId : String) (now : ℤ) : ℚ :=
  addDelegations proposalId now (db.delegationsTo userId) (db.balance userId)

/-- The user may vote on the proposal. -/
def GovernanceDb.MayVote (db : GovernanceDb) (userId proposalId : String) (now : ℤ) : Prop :=
  (∃ proposal ∈ db.proposals.find proposalId, proposal.status = .active ∧ proposal.startTime ≤ now ∧
    now ≤ proposal.endTime ∧ proposal.proposerId ≠ userId) ∧ db.votes.find (proposalId, userId) = none

instance (db : GovernanceDb) (userId proposalId : String) (now : ℤ) :
    Decidable (db.MayVote userId proposalId now) := inferInstanceAs (Decidable (_ ∧ _))

/-- No finalization finds a quorum: the votes cast are not a number. -/
theorem totalVotes_eq_nan (proposal : GovernanceProposal) : proposal.totalVotes = .nan := by
  rw [GovernanceProposal.totalVotes, JsNumber.ofDigits_append _ (JsNumber.point_mem_decimalText _)]
  exact List.mem_append_left _ (JsNumber.point_mem_decimalText _)

theorem eval_getTokenBalance (userId : String) :
    (getTokenBalance userId governanceAsset).eval serve db = (.ok (db.balance userId), db) := rfl

theorem eval_getEffectiveVotingPower (userId proposalId : String) (now : ℤ) :
    (getEffectiveVotingPower userId proposalId now).eval serve db =
      (.ok (db.votingPower userId proposalId now), db) := rfl

/-! ## Statements alone -/

section Statements

variable {α : Type} {Q : Except GovernanceError α → GovernanceDb → Prop}

theorem yields_read {c : GovernanceCommand} {v : c.Value} {f : c.Value → GovernanceTask α}
    (hc : c.writes = false) (hv : c.value db = v) (hf : (f v).Yields serve db Q) :
    (statement c >>= f).Yields serve db Q := by
  have hserve : serve c db = (.ok v, db) := by rw [serve_of_reads hc, hv]
  refine yields_issue_bind (fun u hu => ?_) fun e he => ?_
  · rw [hserve] at hu ⊢
    obtain rfl := Except.ok.inj hu
    exact hf
  · rw [hserve] at he
    cases he

/-- A statement that writes: it goes through, or it is refused. -/
theorem yields_write {c : GovernanceCommand} {f : c.Value → GovernanceTask α} (hc : c.writes = true)
    (hok : c.refusal db = none →
      (f (c.value db)).Yields serve { c.effect db with fates := db.fates.tail } Q)
    (hrefused : ∀ message, c.refusal db = some message →
      Q (.error (.database message)) { db with fates := db.fates.tail }) :
    (statement c >>= f).Yields serve db Q := by
  have hnext : c.nextFates db = db.fates.tail := if_pos hc
  cases hrefusal : c.refusal db with
  | none =>
    have hserve : serve c db = (.ok (c.value db), { c.effect db with fates := db.fates.tail }) := by
      rw [serve_of_accepted hrefusal, hnext]
    refine yields_issue_bind (fun u hu => ?_) fun e he => ?_
    · rw [hserve] at hu ⊢
      obtain rfl := Except.ok.inj hu
      exact hok hrefusal
    · rw [hserve] at he
      cases he
  | some message =>
    have hserve : serve c db = (.error (.database message), { db with fates := db.fates.tail }) := by
      rw [serve_of_refused hrefusal, hnext]
    refine yields_issue_bind (fun u hu => ?_) fun e he => ?_
    · rw [hserve] at hu
      cases hu
    · rw [hserve] at he ⊢
      obtain rfl := Except.error.inj he
      exact hrefused message hrefusal

theorem yields_of_eval {β : Type} {p : GovernanceTask β} {f : β → GovernanceTask α} {b : β}
    (hp : p.eval serve db = (.ok b, db)) (hf : (f b).Yields serve db Q) :
    (p >>= f).Yields serve db Q := by
  refine yields_bind (P := fun o db' => (o, db') = (.ok b, db)) hp ?_ ?_
  · rintro a db' h
    obtain ⟨ha, rfl⟩ := Prod.mk.inj h
    obtain rfl := Except.ok.inj ha
    exact hf
  · rintro e db' h
    cases h

end Statements

/-- `canUserVote` allows the vote exactly when the user may vote. -/
theorem eval_canUserVote (userId proposalId : String) (now : ℤ) :
    ∃ reason, (canUserVote userId proposalId now).eval serve db = (.ok reason, db) ∧
      (reason = none ↔ db.MayVote userId proposalId now) := by
  suffices h : (canUserVote userId proposalId now).Yields serve db fun o db' =>
      ∃ reason, (o, db') = (.ok reason, db) ∧ (reason = none ↔ db.MayVote userId proposalId now) from h
  cases hrow : db.proposals.find proposalId with
  | none => exact yields_read rfl hrow ⟨_, rfl, by simp [GovernanceDb.MayVote, hrow]⟩
  | some proposal =>
    refine yields_read rfl hrow ?_
    dsimp only
    by_cases hactive : proposal.status = .active
    · rw [if_neg (not_not.mpr hactive)]
      by_cases hstart : now < proposal.startTime
      · rw [if_pos hstart]
        exact yields_ret ⟨_, rfl, by simp [GovernanceDb.MayVote, hrow, not_le.mpr hstart]⟩
      · rw [if_neg hstart]
        by_cases hend : now > proposal.endTime
        · rw [if_pos hend]
          exact yields_ret ⟨_, rfl, by simp [GovernanceDb.MayVote, hrow, not_le.mpr hend]⟩
        · rw [if_neg hend]
          by_cases hown : proposal.proposerId = userId
          · rw [if_pos hown]
            exact yields_ret ⟨_, rfl, by simp [GovernanceDb.MayVote, hrow, hown]⟩
          · rw [if_neg hown]
            -- the last check: a vote that is there already
            cases hvote : db.votes.find (proposalId, userId) with
            | none =>
              refine yields_read rfl hvote ⟨_, rfl, iff_of_true rfl ⟨⟨proposal, hrow, ?_⟩, hvote⟩⟩
              exact ⟨hactive, not_lt.mp hstart, not_lt.mp hend, hown⟩
            | some vote =>
              exact yields_read rfl hvote ⟨_, rfl, by simp [GovernanceDb.MayVote, hvote]⟩
    · rw [if_pos hactive]
      exact yields_ret ⟨_, rfl, by simp [GovernanceDb.MayVote, hrow, hactive]⟩

/-- `proposalHasPassed`. -/
theorem eval_proposalHasPassed {proposalId : String} {proposal : GovernanceProposal}
    (hrow : db.proposals.find proposalId = some proposal) :
    (proposalHasPassed proposalId).eval serve db = (.ok false, db) := by
  suffices h : (proposalHasPassed proposalId).Yields serve db fun o db' => (o, db') = (.ok false, db) from h
  have hquorum : (checkQuorumMet proposalId).eval serve db = (.ok false, db) := by
    suffices h : (checkQuorumMet proposalId).Yields serve db fun o db' => (o, db') = _ from h
    refine yields_read rfl hrow ?_
    dsimp only
    rw [totalVotes_eq_nan]
    rfl
  exact yields_read rfl hrow (yields_of_eval hquorum (yields_ret rfl))

/-! ## Saves -/

/-- A loaded entity is saved, or the write is rolled back. -/
theorem yields_saveProposal {proposalId : String} {proposal row : GovernanceProposal}
    (hrow : db.proposals.find proposalId = some row) (hfixed : proposal.fixed = row.fixed) :
    (saveProposal proposal).Yields serve db fun o db' =>
      (o = .ok () ∧ db' = { db with proposals := db.proposals.save proposal, fates := db.fates.tail }) ∨
        ∃ message, o = .error (.database message) ∧ db.fates ≠ [] ∧
          db' = { db with fates := db.fates.tail } := by
  have hkey : row.id = proposalId := Table.key_of_find hrow
  have hid : proposal.id = row.id := congrArg Prod.fst hfixed
  rw [← hkey, ← hid] at hrow
  refine yields_read rfl hrow ?_
  change (statement (.updateProposal (changedColumns proposal row) proposal)).Yields serve db _
  rw [← bind_pure (statement _)]
  refine yields_write rfl (fun _ => yields_ret (.inl ⟨rfl, ?_⟩)) fun message hmessage =>
    .inr ⟨message, rfl, ?_, rfl⟩
  · simp only [GovernanceCommand.effect, hrow, writeColumns_changed hfixed]
  · rintro hfates
    simp [GovernanceCommand.refusal, GovernanceCommand.writes, GovernanceCommand.Violates, hfates] at hmessage

theorem yields_save_bind {α : Type} {Q : Except GovernanceError α → GovernanceDb → Prop} {proposalId : String}
    {proposal row : GovernanceProposal} {f : Unit → GovernanceTask α}
    (hrow : db.proposals.find proposalId = some row) (hfixed : proposal.fixed = row.fixed)
    (hsaved : (f ()).Yields serve
      { db with proposals := db.proposals.save proposal, fates := db.fates.tail } Q)
    (hrolledBack : ∀ message, db.fates ≠ [] →
      Q (.error (.database message)) { db with fates := db.fates.tail }) :
    (saveProposal proposal >>= f).Yields serve db Q := by
  refine yields_bind (yields_saveProposal hrow hfixed) ?_ ?_
  · rintro u db' (⟨-, rfl⟩ | ⟨message, h, -⟩)
    · exact hsaved
    · cases h
  · rintro e db' (⟨h, -⟩ | ⟨message, h, hfates, rfl⟩)
    · cases h
    · obtain rfl := Except.error.inj h
      exact hrolledBack message hfates

/-! ## Changes -/

/-- What a call alone does: one of its changes, or nothing. -/
inductive Does (db : GovernanceDb) : GovernanceCall → GovernanceDb → Prop
  | nothing {call fates} : Does db call { db with fates }
  | creates {id proposerId type now fates} (hnew : db.proposals.find id = none)
      (hbalance : minTokenThreshold ≤ db.balance proposerId) :
      Does db (.createProposal id proposerId type now)
        { db with
          proposals := db.proposals.save (newProposal id proposerId type (db.balance proposerId) now)
          fates }
  | approves {proposalId row now fates} (hrow : db.proposals.find proposalId = some row) :
      Does db (.approveProposal proposalId now)
        { db with proposals := db.proposals.save (row.approved now), fates }
  | cancels {proposalId row reason fates} (hrow : db.proposals.find proposalId = some row)
      (hactive : row.status ≠ .active) (hexecuted : row.status ≠ .executed) :
      Does db (.cancelProposal proposalId reason)
        { db with proposals := db.proposals.save (row.withCancellation reason), fates }
  | finalizes {proposalId row now fates} (hrow : db.proposals.find proposalId = some row)
      (hactive : row.status = .active) (hended : row.endTime ≤ now) :
      Does db (.finalizeProposal proposalId now)
        { db with proposals := db.proposals.save (row.finalized false), fates }
  /-- The execution is not recorded. -/
  | executes {proposalId row actorId now fates}
      (hrow : db.proposals.find proposalId = some row) (hpassed : row.status = .passed) :
      Does db (.executeProposal proposalId actorId now)
        { db with proposals := db.proposals.save (row.markedExecuted now), fates }
  | failsToExecute {proposalId row actorId now message fates}
      (hrow : db.proposals.find proposalId = some row) (hpassed : row.status = .passed) :
      Does db (.executeProposal proposalId actorId now)
        { db with proposals := db.proposals.save (row.executionFailed now message), fates }
  | casts {proposalId voterId voterAddress text reason now row voteType fates}
      (hrow : db.proposals.find proposalId = some row) (hmay : db.MayVote voterId proposalId now)
      (htype : VoteType.ofText text = some voteType) (hpower : 0 < db.votingPower voterId proposalId now) :
      Does db (.castVote proposalId voterId voterAddress text reason now)
        { db with
          votes := db.votes.save ⟨proposalId, voterId, voterAddress, voteType,
            db.votingPower voterId proposalId now, db.balance voterId, now, reason⟩
          proposals := db.proposals.save (row.voted voteType (db.votingPower voterId proposalId now))
          fates }
  /-- The vote is stored, and the save of the proposal is rolled back. -/
  | castsUntallied {proposalId voterId voterAddress text reason now row voteType fates}
      (hrow : db.proposals.find proposalId = some row) (hmay : db.MayVote voterId proposalId now)
      (htype : VoteType.ofText text = some voteType) (hpower : 0 < db.votingPower voterId proposalId now)
      (hfates : db.fates ≠ []) :
      Does db (.castVote proposalId voterId voterAddress text reason now)
        { db with
          votes := db.votes.save ⟨proposalId, voterId, voterAddress, voteType,
            db.votingPower voterId proposalId now, db.balance voterId, now, reason⟩
          fates }
  | delegates {id delegatorId delegateeId delegationDays now fates} (hself : delegatorId ≠ delegateeId)
      (hnew : db.delegations.find id = none)
      (hactive : ∀ d ∈ db.delegations.rows, d.delegatorId = delegatorId → d.delegateeId = delegateeId →
        d.isActive = false)
      (hbalance : 0 < db.balance delegatorId) :
      Does db (.delegateVotes id delegatorId delegateeId delegationDays now)
        { db with
          delegations := db.delegations.save ⟨id, delegatorId, delegateeId, none, db.balance delegatorId,
            true, now, some (addDays now delegationDays)⟩
          fates }
  | revokes {delegationId row now fates} (hrow : db.delegations.find delegationId = some row)
      (hactive : row.isActive = true) :
      Does db (.revokeDelegation delegationId now)
        { db with delegations := db.delegations.save (row.revoked now), fates }

/-- The program makes a change of the call. -/
abbrev DoesCall (db : GovernanceDb) (call : GovernanceCall) {α : Type} (p : GovernanceTask α) : Prop :=
  p.Yields serve db fun _ db' => Does db call db'

theorem doesCall_createProposal {id proposerId : String} {type : ProposalType} {now : ℤ} :
    DoesCall db (.createProposal id proposerId type now) (createProposal id proposerId type now) := by
  refine yields_of_eval (eval_getTokenBalance _) ?_
  by_cases hbalance : db.balance proposerId < minTokenThreshold
  · rw [if_pos hbalance]
    exact yields_throw .nothing
  · rw [if_neg hbalance]
    refine yields_write rfl (fun hrefusal => yields_ret (.creates ?_ (not_lt.mp hbalance))) fun _ _ => .nothing
    exact Option.isSome_eq_false_iff.mp (not_violates rfl hrefusal) |> Option.isNone_iff_eq_none.mp

theorem doesCall_save {call : GovernanceCall} {proposalId : String} {proposal row : GovernanceProposal}
    {α : Type} {a : α} (hrow : db.proposals.find proposalId = some row) (hfixed : proposal.fixed = row.fixed)
    (hdoes : ∀ fates, Does db call { db with proposals := db.proposals.save proposal, fates }) :
    DoesCall db call (do saveProposal proposal; return a) := by
  exact yields_save_bind hrow hfixed (yields_ret (hdoes _)) fun _ _ => .nothing

theorem doesCall_approveProposal {proposalId : String} {now : ℤ} :
    DoesCall db (.approveProposal proposalId now) (approveProposal proposalId now) := by
  cases hrow : db.proposals.find proposalId with
  | none => exact yields_read rfl hrow (yields_throw .nothing)
  | some row => exact yields_read rfl hrow (doesCall_save hrow rfl fun fates => .approves hrow)

theorem doesCall_cancelProposal {proposalId reason : String} :
    DoesCall db (.cancelProposal proposalId reason) (cancelProposal proposalId reason) := by
  cases hrow : db.proposals.find proposalId with
  | none => exact yields_read rfl hrow (yields_throw .nothing)
  | some row =>
    refine yields_read rfl hrow ?_
    dsimp only
    by_cases hstatus : row.status = .active ∨ row.status = .executed
    · rw [if_pos hstatus]
      exact yields_throw .nothing
    · rw [if_neg hstatus]
      obtain ⟨hactive, hexecuted⟩ := not_or.mp hstatus
      exact doesCall_save hrow rfl fun fates => .cancels hrow hactive hexecuted

/-- A finalization: the proposal is finalized when it is active and its voting period has ended,
unless the write is rolled back. -/
theorem yields_finalizeProposal {proposalId : String} {row : GovernanceProposal} {now : ℤ}
    (hrow : db.proposals.find proposalId = some row) (hactive : row.status = .active)
    (hended : row.endTime ≤ now) :
    (finalizeProposal proposalId now).Yields serve db fun _ db' =>
      db' = { db with
        proposals := db.proposals.save (row.finalized false), fates := db.fates.tail } ∨
      db.fates ≠ [] ∧ db' = { db with fates := db.fates.tail } := by
  refine yields_read rfl hrow ?_
  dsimp only
  rw [if_neg (not_not.mpr hactive), if_neg (not_lt.mpr hended)]
  refine yields_of_eval (eval_proposalHasPassed hrow) ?_
  exact yields_save_bind hrow rfl (yields_ret (.inl rfl)) fun _ hfates => .inr ⟨hfates, rfl⟩

theorem doesCall_finalizeProposal {proposalId : String} {now : ℤ} :
    DoesCall db (.finalizeProposal proposalId now) (finalizeProposal proposalId now) := by
  cases hrow : db.proposals.find proposalId with
  | none => exact yields_read rfl hrow (yields_throw .nothing)
  | some row =>
    by_cases hactive : row.status = .active
    · by_cases hended : row.endTime ≤ now
      · refine (yields_finalizeProposal hrow hactive hended).mono ?_
        rintro o db' (rfl | ⟨-, rfl⟩)
        · exact .finalizes hrow hactive hended
        · exact .nothing
      · refine yields_read rfl hrow ?_
        dsimp only
        rw [if_neg (not_not.mpr hactive), if_pos (not_le.mp hended)]
        exact yields_throw .nothing
    · refine yields_read rfl hrow ?_
      dsimp only
      rw [if_pos hactive]
      exact yields_throw .nothing

/-- What an execution has done before it is recorded. -/
def Executing (db : GovernanceDb) (row : GovernanceProposal) (proposalId actorId : String) (now : ℤ)
    (execution : GovernanceExecution) (db' : GovernanceDb) : Prop :=
  (execution = ⟨proposalId, .success, actorId, none⟩ ∧
      ∃ fates, db' = { db with proposals := db.proposals.save (row.markedExecuted now), fates }) ∨
    ∃ message fates, execution = ⟨proposalId, .failed, actorId, some message⟩ ∧
      db' = { db with proposals := db.proposals.save (row.executionFailed now message), fates }

/-- The `try` and the `catch` of an execution: the proposal is saved as executed, or, when that is
rolled back, as it was, with the reason; or both saves are rolled back. -/
theorem yields_executing {proposalId actorId : String} {row : GovernanceProposal} {now : ℤ}
    (hrow : db.proposals.find proposalId = some row) :
    Prog.Yields serve (tryCatch
        (do
          saveProposal (row.markedExecuted now)
          return (⟨proposalId, .success, actorId, none⟩ : GovernanceExecution))
        fun err => do
          saveProposal (row.executionFailed now err.message)
          return ⟨proposalId, .failed, actorId, some err.message⟩)
      db fun o db' => (∃ execution, o = .ok execution ∧ Executing db row proposalId actorId now execution db') ∨
        ∃ e fates, o = .error e ∧ db' = { db with fates } := by
  refine yields_tryCatch (P := fun o db' => (∃ execution, o = .ok execution ∧
      Executing db row proposalId actorId now execution db') ∨
    ∃ e, o = .error e ∧ db' = { db with fates := db.fates.tail }) ?_ ?_ ?_
  · exact yields_save_bind hrow rfl (yields_ret (.inl ⟨_, rfl, .inl ⟨rfl, _, rfl⟩⟩)) fun _ _ => .inr ⟨_, rfl, rfl⟩
  · rintro execution db' (h | ⟨e, h, -⟩)
    · exact .inl h
    · cases h
  · -- the save was rolled back, and the proposal is saved as it was, with the reason
    rintro e db' (⟨execution, h, -⟩ | ⟨e', -, rfl⟩)
    · cases h
    · refine @yields_save_bind { db with fates := db.fates.tail } _ _ _ _ row _ hrow rfl ?_ ?_
      · exact yields_ret (.inl ⟨_, rfl, .inr ⟨e.message, _, rfl, rfl⟩⟩)
      · exact fun _ _ => .inr ⟨_, _, rfl, rfl⟩

theorem doesCall_executeProposal {proposalId actorId : String} {now : ℤ} :
    DoesCall db (.executeProposal proposalId actorId now) (executeProposal proposalId actorId now) := by
  cases hrow : db.proposals.find proposalId with
  | none => exact yields_read rfl hrow (yields_throw .nothing)
  | some row =>
    refine yields_read rfl hrow ?_
    dsimp only
    by_cases hpassed : row.status = .passed
    · rw [if_neg (not_not.mpr hpassed)]
      refine yields_bind (yields_executing hrow) ?_ ?_
      · rintro execution db' (⟨execution', h, hexecuting⟩ | ⟨e, fates, h, -⟩)
        · obtain rfl := Except.ok.inj h
          -- the INSERT of the execution is refused
          refine yields_write rfl (fun haccepted => Bool.noConfusion (not_violates rfl haccepted)) fun _ _ => ?_
          rcases hexecuting with ⟨rfl, fates, rfl⟩ | ⟨message, fates, rfl, rfl⟩
          · exact .executes hrow hpassed
          · exact .failsToExecute hrow hpassed
        · cases h
      · rintro e db' (⟨execution, h, -⟩ | ⟨e', fates, -, rfl⟩)
        · cases h
        · exact .nothing
    · rw [if_pos hpassed]
      exact yields_throw .nothing

theorem doesCall_castVote {proposalId voterId voterAddress text : String} {reason : Option String} {now : ℤ} :
    DoesCall db (.castVote proposalId voterId voterAddress text reason now)
      (castVote proposalId voterId voterAddress text reason now) := by
  obtain ⟨refused, hcan, hmay⟩ := @eval_canUserVote db voterId proposalId now
  refine yields_of_eval hcan ?_
  cases refused with
  | some reason => exact yields_throw .nothing
  | none =>
    replace hmay := hmay.mp rfl
    obtain ⟨row, hrow, -⟩ := hmay.1
    cases htype : VoteType.ofText text with
    | none => exact yields_throw .nothing
    | some voteType =>
      refine yields_read rfl hrow (yields_of_eval (eval_getEffectiveVotingPower _ _ _) ?_)
      by_cases hpower : db.votingPower voterId proposalId now ≤ 0
      · rw [if_pos hpower]
        exact yields_throw .nothing
      · rw [if_neg hpower]
        replace hpower := not_le.mp hpower
        refine yields_of_eval (eval_getTokenBalance _) ?_
        refine yields_write rfl (fun _ => ?_) fun _ _ => .nothing
        -- the vote is stored
        have hfixed : (row.voted voteType (db.votingPower voterId proposalId now)).fixed = row.fixed := by
          cases voteType <;> rfl
        refine yields_save_bind hrow hfixed (yields_ret (.casts hrow hmay htype hpower)) fun _ hfates => ?_
        exact .castsUntallied hrow hmay htype hpower fun h => hfates (by rw [h]; rfl)

theorem doesCall_delegateVotes {id delegatorId delegateeId : String} {delegationDays now : ℤ} :
    DoesCall db (.delegateVotes id delegatorId delegateeId delegationDays now)
      (delegateVotes id delegatorId delegateeId delegationDays now) := by
  unfold delegateVotes
  by_cases hself : delegatorId = delegateeId
  · rw [if_pos hself]
    exact yields_throw .nothing
  · rw [if_neg hself]
    cases hfind : db.delegations.rows.find? fun d =>
        d.delegatorId = delegatorId ∧ d.delegateeId = delegateeId ∧ d.isActive = true with
    | some row => exact yields_read rfl hfind (yields_throw .nothing)
    | none =>
      refine yields_read rfl hfind (yields_of_eval (eval_getTokenBalance _) ?_)
      by_cases hbalance : db.balance delegatorId ≤ 0
      · rw [if_pos hbalance]
        exact yields_throw .nothing
      · rw [if_neg hbalance]
        refine yields_write rfl (fun hrefusal => yields_ret (.delegates hself ?_ ?_ (not_le.mp hbalance)))
          fun _ _ => .nothing
        · exact Option.isSome_eq_false_iff.mp (not_violates rfl hrefusal) |> Option.isNone_iff_eq_none.mp
        · intro d hd hdelegator hdelegatee
          have hnone := List.find?_eq_none.mp hfind d hd
          simpa [hdelegator, hdelegatee] using hnone

theorem doesCall_revokeDelegation {delegationId : String} {now : ℤ} :
    DoesCall db (.revokeDelegation delegationId now) (revokeDelegation delegationId now) := by
  cases hrow : db.delegations.find delegationId with
  | none => exact yields_read rfl hrow (yields_throw .nothing)
  | some row =>
    refine yields_read rfl hrow ?_
    dsimp only
    by_cases hactive : row.isActive = false
    · rw [if_pos hactive]
      exact yields_throw .nothing
    · rw [if_neg hactive]
      exact yields_write rfl (fun _ => yields_ret (.revokes hrow (by simpa using hactive)))
        fun _ _ => .nothing

/-- **A call alone makes one of its changes.** -/
theorem does_govern (db : GovernanceDb) (call : GovernanceCall) : Does db call (govern db call) := by
  cases call <;> rw [govern, GovernanceCall.program, Prog.eval_map]
  case createProposal => exact doesCall_createProposal
  case approveProposal => exact doesCall_approveProposal
  case cancelProposal => exact doesCall_cancelProposal
  case finalizeProposal => exact doesCall_finalizeProposal
  case executeProposal => exact doesCall_executeProposal
  case castVote => exact doesCall_castVote
  case delegateVotes => exact doesCall_delegateVotes
  case revokeDelegation => exact doesCall_revokeDelegation

end Governance
