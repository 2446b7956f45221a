import PeerX.Governance.Services
import Mathlib.Tactic.Ring

/-!
# Governance: the tallies of concurrent votes

A vote is stored, and then added to the tally of its type in the entity of the proposal that the
call has read before. The save reads the row again and writes the columns in which the entity
differs. The tallies are the sums of the stored votes when all calls have ended, as long as every
such write adds the vote: the column of its type is written, and no column that is written has
changed since the call has read it. When two voters read the same proposal, the second write takes
the vote of the first one out of the tally.

## Main results

* `castVote_keeps`: the calls issue the commands of the rule
* `tallies_match`: the tallies are the sums of the stored votes, of which a voter has at most one
* `vote_lost`: two voters at the same time
-/

namespace Governance

open Concurrency Relational

/-! ## Calls -/

/-- A call of `castVote`. -/
structure VoteCall where
  proposalId : String
  voterId : String
  voterAddress : String
  voteType : String
  reason : Option String
  now : ℤ

/-- The program of a call, which ends with the vote or an exception. -/
def VoteCall.program (call : VoteCall) : GovernanceTask (Except GovernanceError GovernanceVote) :=
  (castVote call.proposalId call.voterId call.voterAddress call.voteType call.reason call.now).attempt

/-- An executed statement. -/
abbrev VoteEvent (ι : Type) := Executed GovernanceCommand GovernanceCommand.Reply ι GovernanceDb

/-- The machine of the calls, with the executed statements kept. -/
def voteMachine (ι : Type) :
    Machine GovernanceCommand GovernanceCommand.Reply ι (GovernanceDb × List (VoteEvent ι)) :=
  (Machine.ofHandler serve).observed

/-- Any number of calls at the same time, one statement after the other. -/
def voting {ι : Type} (calls : ι → VoteCall) (db : GovernanceDb) :
    Config GovernanceCommand GovernanceCommand.Reply GovernanceError
      (Except GovernanceError GovernanceVote) ι (GovernanceDb × List (VoteEvent ι)) :=
  ⟨(db, []), fun i => (calls i).program⟩

variable {ι : Type}

/-! ## The statements of a call -/

/-- No statement has written. -/
def Quiet (past : List (VoteEvent ι)) : Prop := ∀ e ∈ past, e.command.writes = false

/-- The proposal that a statement has found. -/
def rowFound : VoteEvent ι → Option GovernanceProposal
  | ⟨_, _, .findProposal _, .ok row⟩ => row
  | _ => none

/-- The statement is the insertion of a vote. -/
def insertsVote (e : VoteEvent ι) : Bool :=
  match e.command with
  | .insertVote _ => true
  | _ => false

/-- The proposal that a call has read before it inserts its vote. -/
def rowRead (past : List (VoteEvent ι)) : Option GovernanceProposal :=
  (past.dropWhile fun e => !insertsVote e).findSome? rowFound

/-- The call has stored its vote, and has read the proposal before. -/
inductive Stored (call : VoteCall) (i : ι) (read : GovernanceProposal) (vote : GovernanceVote) :
    List (VoteEvent ι) → Prop
  | intro {s older} (hproposal : vote.proposalId = call.proposalId)
      (htype : VoteType.ofText call.voteType = some vote.voteType) (hquiet : Quiet older)
      (hread : older.findSome? rowFound = some read)
      (hmem : ∃ t, ⟨i, t, .findProposal call.proposalId, .ok (some read)⟩ ∈ older) :
      Stored call i read vote (⟨i, s, .insertVote vote, .ok ()⟩ :: older)

/-- The rule of a call: it reads, inserts a vote, reads the proposal again, and saves it. -/
inductive CastRule (call : VoteCall) : GovernanceCommand → List (VoteEvent ι) → Prop
  | reads {c past} (hc : c.writes = false) : CastRule call c past
  | inserts {vote past} (hquiet : Quiet past) : CastRule call (.insertVote vote) past
  | updates {i s read vote row past} (hstored : Stored call i read vote past) :
      CastRule call
        (.updateProposal (changedColumns (read.voted vote.voteType vote.weight) row)
          (read.voted vote.voteType vote.weight))
        (⟨i, s, .findProposal (read.voted vote.voteType vote.weight).id, .ok (some row)⟩ :: past)
  /-- The proposal is gone. -/
  | restores {i s read vote past} (hstored : Stored call i read vote past) :
      CastRule call (.insertProposal (read.voted vote.voteType vote.weight))
        (⟨i, s, .findProposal (read.voted vote.voteType vote.weight).id, .ok none⟩ :: past)

/-- What a call has done when it ends: no write went through; or its vote is stored, and the
proposal is saved; or the save failed. -/
inductive Ended (call : VoteCall) (i : ι) : List (VoteEvent ι) → Prop
  | unwritten {past} (h : ∀ e ∈ past, e.command.writes = true → e.reply.isOk = false) : Ended call i past
  | saved {s t read vote row past} (hstored : Stored call i read vote past) :
      Ended call i
        (⟨i, s, .updateProposal (changedColumns (read.voted vote.voteType vote.weight) row)
            (read.voted vote.voteType vote.weight), .ok ()⟩ ::
          ⟨i, t, .findProposal (read.voted vote.voteType vote.weight).id, .ok (some row)⟩ :: past)
  | unsaved {past e columns entity} (he : e ∈ past) (hc : e.command = .updateProposal columns entity)
      (hreply : e.reply.isOk = false) : Ended call i past
  | gone {past e entity} (he : e ∈ past) (hc : e.command = .insertProposal entity) : Ended call i past

variable {i : ι} {past : List (VoteEvent ι)} {call : VoteCall}
  {E : GovernanceError → List (VoteEvent ι) → Prop}

theorem Ended.of_quiet (h : Quiet past) : Ended call i past :=
  .unwritten fun e he hwrites => absurd hwrites (by simp [h e he])

theorem Quiet.cons {e : VoteEvent ι} (h : Quiet past) (he : e.command.writes = false) : Quiet (e :: past) := by
  rintro e' (_ | ⟨_, he'⟩)
  · exact he
  · exact h e' he'

theorem keeps_read {α : Type} {c : GovernanceCommand} {f : c.Value → GovernanceTask α}
    {Q : α → List (VoteEvent ι) → Prop} (hc : c.writes = false)
    (hf : ∀ s, (f (c.value s)).Keeps serve (CastRule call) i Q E (⟨i, s, c, .ok (c.value s)⟩ :: past)) :
    (statement c >>= f).Keeps serve (CastRule call) i Q E past := by
  refine keeps_reply_bind (fun s => ?_) (.reads hc) hf
  rw [serve_of_reads hc]

/-- `canUserVote` reads. -/
theorem canUserVote_keeps {userId proposalId : String} {now : ℤ} (h : Quiet past) :
    (canUserVote userId proposalId now).Keeps serve (CastRule call) i (fun _ past => Quiet past) E past := by
  refine keeps_read rfl fun s => ?_
  split
  · exact keeps_ret (h.cons rfl)
  · split
    · exact keeps_ret (h.cons rfl)
    split
    · exact keeps_ret (h.cons rfl)
    split
    · exact keeps_ret (h.cons rfl)
    split
    · exact keeps_ret (h.cons rfl)
    · refine keeps_read rfl fun s => ?_
      split
      · exact keeps_ret ((h.cons rfl).cons rfl)
      · exact keeps_ret ((h.cons rfl).cons rfl)

/-- The call has read the proposal, and has not written. -/
def HasRead (call : VoteCall) (i : ι) (read : GovernanceProposal) (past : List (VoteEvent ι)) : Prop :=
  Quiet past ∧ past.findSome? rowFound = some read ∧
    ∃ t, ⟨i, t, .findProposal call.proposalId, .ok (some read)⟩ ∈ past

theorem HasRead.cons {read : GovernanceProposal} {e : VoteEvent ι} (h : HasRead call i read past)
    (he : e.command.writes = false) (hfound : rowFound e = none) : HasRead call i read (e :: past) := by
  obtain ⟨hquiet, hread, t, hmem⟩ := h
  refine ⟨hquiet.cons he, ?_, t, List.mem_cons_of_mem _ hmem⟩
  rw [List.findSome?_cons, hfound]
  exact hread

/-- `getTokenBalance` reads. -/
theorem getTokenBalance_keeps {userId : String} {read : GovernanceProposal} (h : HasRead call i read past) :
    (getTokenBalance userId governanceAsset).Keeps serve (CastRule call) i
      (fun _ past => HasRead call i read past) E past :=
  keeps_read rfl fun _ => keeps_ret (h.cons rfl rfl)

/-- `getEffectiveVotingPower` reads. -/
theorem getEffectiveVotingPower_keeps {userId proposalId : String} {now : ℤ} {read : GovernanceProposal}
    (h : HasRead call i read past) :
    (getEffectiveVotingPower userId proposalId now).Keeps serve (CastRule call) i
      (fun _ past => HasRead call i read past) E past := by
  refine keeps_read rfl fun s => ?_
  exact keeps_bind ((getTokenBalance_keeps (h.cons rfl rfl)).mono fun power past hread => keeps_ret hread)

theorem saveProposal_keeps {read : GovernanceProposal} {vote : GovernanceVote}
    (hstored : Stored call i read vote past) :
    (saveProposal (read.voted vote.voteType vote.weight)).Keeps serve (CastRule call) i
      (fun _ past => Ended call i past) (fun _ past => Ended call i past) past := by
  refine keeps_read rfl fun s => ?_
  cases hrow : GovernanceCommand.value (.findProposal (read.voted vote.voteType vote.weight).id) s with
  | none =>
    exact keeps_issue (.restores hstored) (fun t u => .gone List.mem_cons_self rfl)
      fun t e => .gone List.mem_cons_self rfl
  | some row =>
    exact keeps_issue (.updates hstored) (fun t u => .saved hstored)
      fun t e => .unsaved List.mem_cons_self rfl rfl

/-- **The calls issue the statements of the rule.** -/
theorem castVote_keeps (call : VoteCall) (i : ι) :
    call.program.Keeps serve (CastRule call) i (fun _ past => Ended call i past) (fun _ _ => True) [] := by
  have hnil : Quiet ([] : List (VoteEvent ι)) := by simp [Quiet]
  refine keeps_attempt (keeps_bind ((canUserVote_keeps hnil).mono fun refused past hquiet => ?_))
  cases refused with
  | some reason => exact keeps_throw (.of_quiet hquiet)
  | none =>
    dsimp only
    cases htype : VoteType.ofText call.voteType with
    | none => exact keeps_throw (.of_quiet hquiet)
    | some voteType =>
      refine keeps_read rfl fun s => ?_
      cases hrow : GovernanceCommand.value (.findProposal call.proposalId) s with
      | none => exact keeps_throw (.of_quiet (hquiet.cons rfl))
      | some read =>
        have hread : HasRead call i read (⟨i, s, .findProposal call.proposalId, .ok (some read)⟩ :: past) :=
          ⟨hquiet.cons rfl, rfl, s, List.mem_cons_self⟩
        refine keeps_bind ((getEffectiveVotingPower_keeps hread).mono fun votingPower past hread => ?_)
        by_cases hpower : votingPower ≤ 0
        · rw [if_pos hpower]
          exact keeps_throw (.of_quiet hread.1)
        · rw [if_neg hpower]
          refine keeps_bind ((getTokenBalance_keeps hread).mono fun balanceAtVote past hread => ?_)
          -- the vote is stored, or refused
          refine keeps_issue_bind (.inserts hread.1) (fun t u => ?_) fun t e => .unwritten ?_
          · have hstored : Stored call i read ⟨call.proposalId, call.voterId, call.voterAddress, voteType,
                votingPower, balanceAtVote, call.now, call.reason⟩ _ :=
              .intro (s := t) rfl htype hread.1 hread.2.1 hread.2.2
            refine keeps_bind (Prog.Keeps.mono (saveProposal_keeps hstored) fun u past hended => ?_)
            exact keeps_ret hended
          · rintro e' (_ | ⟨_, he'⟩) hwrites
            · rfl
            · rw [hread.1 e' he'] at hwrites
              cases hwrites

/-! ## Tallies -/

/-- The tally of a type. -/
def GovernanceProposal.tally (proposal : GovernanceProposal) : VoteType → ℚ
  | .forVote => proposal.forVotes
  | .againstVote => proposal.againstVotes
  | .abstainVote => proposal.abstainVotes

def VoteType.column : VoteType → ProposalColumn
  | .forVote => .forVotes
  | .againstVote => .againstVotes
  | .abstainVote => .abstainVotes

/-- The tally of a type, for a proposal. -/
def GovernanceDb.tally (db : GovernanceDb) (proposalId : String) (voteType : VoteType) : ℚ :=
  ((db.proposals.find proposalId).map (·.tally voteType)).getD 0

/-- The total weight of the stored votes of a type, for a proposal. -/
def GovernanceDb.weightOf (db : GovernanceDb) (proposalId : String) (voteType : VoteType) : ℚ :=
  db.votes.sum fun vote => if vote.proposalId = proposalId ∧ vote.voteType = voteType then vote.weight else 0

/-- The votes that the tally lacks. -/
def GovernanceDb.gap (proposalId : String) (voteType : VoteType) (db : GovernanceDb) : ℚ :=
  db.weightOf proposalId voteType - db.tally proposalId voteType

@[simp] theorem tally_voted (proposal : GovernanceProposal) (t voteType : VoteType) (votingPower : ℚ) :
    (proposal.voted voteType votingPower).tally t =
      proposal.tally t + if voteType = t then votingPower else 0 := by
  cases t <;> cases voteType <;> simp [GovernanceProposal.voted, GovernanceProposal.tally]

@[simp] theorem id_voted (proposal : GovernanceProposal) (voteType : VoteType) (votingPower : ℚ) :
    (proposal.voted voteType votingPower).id = proposal.id := by
  cases voteType <;> rfl

/-- The tallies of a row after an `UPDATE`. -/
theorem tally_writeColumns (columns : List ProposalColumn) (entity row : GovernanceProposal) (t : VoteType) :
    (writeColumns columns entity row).tally t =
      if t.column ∈ columns then entity.tally t else row.tally t := by
  cases t <;> rfl

/-- Two versions of a proposal agree in the column of a type when they have the same tally. -/
theorem same_column_iff {p q : GovernanceProposal} {t : VoteType} :
    t.column.Same p q ↔ p.tally t = q.tally t := by
  cases t <;> exact Iff.rfl

/-- The write adds the vote: it goes through, it writes the column of the vote's type, and every
column that it writes is as the call has read it. -/
def AddsVote [DecidableEq ι] (calls : ι → VoteCall) (i : ι) (s : GovernanceDb × List (VoteEvent ι)) :
    GovernanceCommand → Prop
  | .updateProposal columns entity => s.1.fates.headD none = none ∧
      (∀ t ∈ VoteType.ofText (calls i).voteType, t.column ∈ columns) ∧
      ∀ read ∈ rowRead (own i s.2), ∀ row ∈ s.1.proposals.find entity.id,
        ∀ column ∈ columns, column.Same read row
  | _ => True

instance [DecidableEq ι] (calls : ι → VoteCall) (i : ι) (s : GovernanceDb × List (VoteEvent ι)) :
    DecidablePred (AddsVote calls i s)
  | .updateProposal columns entity => inferInstanceAs (Decidable (_ ∧ (∀ t ∈ VoteType.ofText
      (calls i).voteType, t.column ∈ columns) ∧ ∀ read ∈ rowRead (own i s.2),
        ∀ row ∈ s.1.proposals.find entity.id, ∀ column ∈ columns, column.Same read row))
  | .findHolding _ _ | .findProposal _ | .findVote _ _ | .findDelegations _ => inferInstanceAs (Decidable True)
  | .findActiveDelegation _ _ | .findDelegation _ => inferInstanceAs (Decidable True)
  | .insertProposal _ | .insertVote _ | .insertDelegation _ => inferInstanceAs (Decidable True)
  | .updateDelegation _ | .insertExecution _ => inferInstanceAs (Decidable True)

/-! ## What a statement changes -/

section Statements

variable {db : GovernanceDb} {p : String} {t : VoteType}

/-- What a statement changes of the gap. -/
def gapChange (p : String) (t : VoteType) (e : VoteEvent ι) : ℚ :=
  (serve e.command e.before).2.gap p t - e.before.gap p t

theorem gap_of_refused {c : GovernanceCommand} (h : (serve c db).1.isOk = false) :
    (serve c db).2.gap p t = db.gap p t := by
  cases hrefusal : c.refusal db with
  | none =>
    rw [serve_of_accepted hrefusal] at h
    cases h
  | some message =>
    rw [serve_of_refused hrefusal]
    rfl

theorem gap_insertVote {vote : GovernanceVote} (h : (serve (.insertVote vote) db).1.isOk = true) :
    (serve (.insertVote vote) db).2.gap p t =
      db.gap p t + if vote.proposalId = p ∧ vote.voteType = t then vote.weight else 0 := by
  have hrefusal := refusal_of_isOk h
  have hnew : db.votes.find vote.key = none :=
    Option.isNone_iff_eq_none.mp (Option.isSome_eq_false_iff.mp (not_violates rfl hrefusal))
  rw [serve_of_accepted hrefusal]
  change (db.votes.save vote).sum _ - db.tally p t = db.gap p t + _
  rw [Table.sum_save_new hnew, GovernanceDb.gap, GovernanceDb.weightOf]
  ring

theorem tally_saved {columns : List ProposalColumn} {read row : GovernanceProposal} {voteType : VoteType}
    {weight : ℚ} (hcolumn : voteType.column ∈ columns) (hsame : ∀ column ∈ columns, column.Same read row) :
    (writeColumns columns (read.voted voteType weight) row).tally t =
      row.tally t + if voteType = t then weight else 0 := by
  rw [tally_writeColumns]
  by_cases ht : t.column ∈ columns
  · rw [if_pos ht, tally_voted, same_column_iff.mp (hsame _ ht)]
  · rw [if_neg ht, if_neg, add_zero]
    rintro rfl
    exact ht hcolumn

/-- An `UPDATE` goes through when it is not rolled back. -/
theorem refusal_updateProposal {columns : List ProposalColumn} {entity : GovernanceProposal}
    (hfate : db.fates.headD none = none) :
    GovernanceCommand.refusal (.updateProposal columns entity) db = none := by
  refine (if_pos rfl).trans ?_
  rw [hfate]
  rfl

/-- A saved vote. -/
theorem gap_updateProposal {columns : List ProposalColumn} {read row : GovernanceProposal}
    {voteType : VoteType} {weight : ℚ} (hfate : db.fates.headD none = none)
    (hrow : db.proposals.find read.id = some row) (hcolumn : voteType.column ∈ columns)
    (hsame : ∀ column ∈ columns, column.Same read row) :
    (serve (.updateProposal columns (read.voted voteType weight)) db).2.gap p t =
      db.gap p t - if read.id = p ∧ voteType = t then weight else 0 := by
  have hid : row.id = read.id := Table.key_of_find hrow
  have heffect : GovernanceCommand.effect (.updateProposal columns (read.voted voteType weight)) db =
      { db with proposals := db.proposals.save (writeColumns columns (read.voted voteType weight) row) } := by
    simp [GovernanceCommand.effect, hrow]
  rw [serve_of_accepted (refusal_updateProposal hfate), heffect]
  change db.weightOf p t - (((db.proposals.save _).find p).map (·.tally t)).getD 0 = db.gap p t - _
  rw [Table.find_save]
  by_cases hp : read.id = p
  · have hkey : p = (writeColumns columns (read.voted voteType weight) row).id := hp.symm.trans hid.symm
    rw [if_pos hkey, Option.map_some, Option.getD_some, tally_saved hcolumn hsame, GovernanceDb.gap,
      GovernanceDb.tally, ← hp, hrow, Option.map_some, Option.getD_some]
    by_cases ht : voteType = t
    · rw [if_pos ht, if_pos ⟨rfl, ht⟩]
      ring
    · rw [if_neg ht, if_neg fun h => ht h.2]
      ring
  · have hkey : p ≠ (writeColumns columns (read.voted voteType weight) row).id :=
      fun h => hp (h.trans hid).symm
    rw [if_neg hkey, if_neg fun h => hp h.1, sub_zero]
    rfl

end Statements

/-! ## Runs -/

section Runs

variable {db₀ db : GovernanceDb} {es : List (VoteEvent ι)} {p : String} {t : VoteType}
  {R : VoteEvent ι → List (VoteEvent ι) → Prop}

theorem gap_eq_sum (hc : Chronicle serve R db₀ db es) :
    db.gap p t = db₀.gap p t + (es.map (gapChange p t)).sum := by
  induction es generalizing db with
  | nil =>
    obtain rfl : db = db₀ := hc
    simp
  | cons e es ih =>
    obtain ⟨hserve, -, hold⟩ := hc
    have hchange : gapChange p t e = db.gap p t - e.before.gap p t := by rw [gapChange, hserve]
    rw [List.map_cons, List.sum_cons, hchange, ih hold]
    ring

theorem isSome_serve (c : GovernanceCommand) (h : (db.proposals.find p).isSome) :
    ((serve c db).2.proposals.find p).isSome := by
  cases hrefusal : c.refusal db with
  | some message =>
    rw [serve_of_refused hrefusal]
    exact h
  | none =>
    rw [serve_of_accepted hrefusal]
    cases c with
    | insertProposal proposal => exact Table.isSome_find_save h
    | updateProposal columns proposal =>
      cases hrow : db.proposals.find proposal.id with
      | none => simpa [GovernanceCommand.effect, hrow] using h
      | some row => simpa [GovernanceCommand.effect, hrow] using Table.isSome_find_save h
    | _ => exact h

theorem isSome_of_chronicle (hc : Chronicle serve R db₀ db es) (h : (db₀.proposals.find p).isSome) :
    (db.proposals.find p).isSome :=
  hc.invariant (I := fun db _ => (db.proposals.find p).isSome) h fun e _ _ hdb _ _ => isSome_serve e.command hdb

theorem isSome_of_found {t₁ : GovernanceDb} {row : GovernanceProposal} (hc : Chronicle serve R db₀ db es)
    (he : ⟨i, t₁, .findProposal p, .ok (some row)⟩ ∈ es) : (db.proposals.find p).isSome := by
  have hreply := hc.reply he
  have hfound : t₁.proposals.find p = some row := (Except.ok.inj hreply).symm
  obtain ⟨new, old, rfl⟩ := List.append_of_mem he
  refine isSome_of_chronicle hc.before.2.2 (isSome_serve _ ?_)
  rw [hfound]
  rfl

theorem id_of_found {t₁ : GovernanceDb} {row : GovernanceProposal} (hc : Chronicle serve R db₀ db es)
    (he : ⟨i, t₁, .findProposal p, .ok (some row)⟩ ∈ es) : row.id = p :=
  Table.key_of_find (Except.ok.inj (hc.reply he)).symm

theorem gapChange_eq_zero {e : VoteEvent ι} (hc : Chronicle serve R db₀ db es) (he : e ∈ es)
    (h : e.command.writes = true → e.reply.isOk = false) : gapChange p t e = 0 := by
  cases hwrites : e.command.writes with
  | false => rw [gapChange, serve_of_reads hwrites, sub_self]
  | true =>
    have hfailed := h hwrites
    rw [hc.reply he] at hfailed
    rw [gapChange, gap_of_refused hfailed, sub_self]

theorem sum_gapChange_eq_zero (hc : Chronicle serve R db₀ db es) (hsub : past ⊆ es)
    (h : ∀ e ∈ past, e.command.writes = true → e.reply.isOk = false) : (past.map (gapChange p t)).sum = 0 := by
  refine List.sum_eq_zero fun x hx => ?_
  obtain ⟨e, he, rfl⟩ := List.mem_map.mp hx
  exact gapChange_eq_zero hc (hsub he) (h e he)

/-- The row that a call has read before it inserted its vote. -/
theorem rowRead_stored {e : VoteEvent ι} {read : GovernanceProposal} {vote : GovernanceVote}
    (hstored : Stored call i read vote past) (he : insertsVote e = false) : rowRead (e :: past) = some read := by
  cases hstored with
  | intro hproposal htype hquiet hread hmem =>
    rw [rowRead, List.dropWhile_cons_of_pos (by simp [he]), List.dropWhile_cons_of_neg (by simp [insertsVote])]
    exact hread

/-- The proposal that a call has read is there ever after. -/
theorem isSome_of_stored {read : GovernanceProposal} {vote : GovernanceVote}
    (hc : Chronicle serve R db₀ db es) (hstored : Stored call i read vote past) (hsub : past ⊆ es) :
    read.id = vote.proposalId ∧ (db.proposals.find read.id).isSome := by
  cases hstored with
  | intro hproposal htype hquiet hread hmem =>
    obtain ⟨u, hmem⟩ := hmem
    have hfound := hsub (List.mem_cons_of_mem _ hmem)
    have hid := id_of_found hc hfound
    exact ⟨hid.trans hproposal.symm, by rw [hid]; exact isSome_of_found hc hfound⟩

variable [DecidableEq ι] {calls : ι → VoteCall}

/-- The rule and the condition of a run. -/
def Counting (calls : ι → VoteCall) (e : VoteEvent ι) (es : List (VoteEvent ι)) : Prop :=
  CastRule (calls e.thread) e.command (own e.thread es) ∧ AddsVote calls e.thread (e.before, es) e.command

/-- A call that has saved its vote: what its insertion adds to the gap, its save takes away. -/
theorem sum_saved_eq_zero {s s' : GovernanceDb} {read row : GovernanceProposal} {vote : GovernanceVote}
    (hc : Chronicle serve (Counting calls) db₀ db es) (hstored : Stored (calls i) i read vote past)
    (hown : own i es =
      ⟨i, s, .updateProposal (changedColumns (read.voted vote.voteType vote.weight) row)
          (read.voted vote.voteType vote.weight), .ok ()⟩ ::
        ⟨i, s', .findProposal (read.voted vote.voteType vote.weight).id, .ok (some row)⟩ :: past) :
    ((own i es).map (gapChange p t)).sum = 0 := by
  obtain ⟨new, old, rfl, -, hold⟩ := split_of_own_cons hown
  obtain ⟨hcold, ⟨-, hfate, hcolumn, hsame⟩, -⟩ := hc.before
  dsimp only at hfate hcolumn hsame
  have hread : rowRead (⟨i, s', .findProposal (read.voted vote.voteType vote.weight).id, .ok (some row)⟩ ::
      past) = some read := rowRead_stored hstored rfl
  rw [hold, hread] at hsame
  have hsub : past ⊆ old := fun e he => (mem_own.mp (hold ▸ List.mem_cons_of_mem _ he)).1
  obtain ⟨hid, hpresent⟩ := isSome_of_stored hcold hstored hsub
  obtain ⟨now, hnow⟩ := Option.isSome_iff_exists.mp hpresent
  cases hstored with
  | @intro s'' older hproposal htype hquiet hread' hmem =>
    have hcolumn' := hcolumn vote.voteType htype
    have hsame' := hsame read rfl now (by rw [id_voted]; exact hnow)
    -- the insertion, and what was read before it
    have hinsert : gapChange p t (⟨i, s'', .insertVote vote, .ok ()⟩ : VoteEvent ι) =
        if vote.proposalId = p ∧ vote.voteType = t then vote.weight else 0 := by
      have hreply := hcold.reply (hsub List.mem_cons_self)
      rw [gapChange, gap_insertVote (by rw [← hreply]; rfl), add_sub_cancel_left]
    have hquiet' : (older.map (gapChange p t)).sum = 0 := by
      refine sum_gapChange_eq_zero hcold (fun e he => hsub (List.mem_cons_of_mem _ he)) fun e he hwrites => ?_
      rw [hquiet e he] at hwrites
      cases hwrites
    have hselect : gapChange p t (⟨i, s', .findProposal (read.voted vote.voteType vote.weight).id,
        .ok (some row)⟩ : VoteEvent ι) = 0 := by rw [gapChange, serve_of_reads rfl, sub_self]
    rw [hown, List.map_cons, List.map_cons, List.map_cons, List.sum_cons, List.sum_cons, List.sum_cons, hquiet',
      hinsert, hselect, gapChange, gap_updateProposal hfate hnow hcolumn' hsame', hid]
    ring

/-- A call that has ended leaves the gaps as they were. -/
theorem sum_own_eq_zero (hc : Chronicle serve (Counting calls) db₀ db es)
    (h : Ended (calls i) i (own i es)) : ((own i es).map (gapChange p t)).sum = 0 := by
  have hsub : own i es ⊆ es := fun e he => (mem_own.mp he).1
  generalize hown : own i es = past at h hsub
  cases h with
  | unwritten h => exact sum_gapChange_eq_zero hc hsub h
  | @unsaved _ e columns entity he hcommand hreply =>
    -- the condition says that the `UPDATE` goes through
    have hmem := hsub he
    rw [hc.reply hmem] at hreply
    obtain ⟨new, old, rfl⟩ := List.append_of_mem hmem
    obtain ⟨-, ⟨-, hadds⟩, -⟩ := hc.before
    rw [hcommand] at hadds hreply
    rw [serve_of_accepted (refusal_updateProposal hadds.1)] at hreply
    cases hreply
  | @gone _ e entity he hcommand =>
    -- the proposal that the call has read is still there
    exfalso
    obtain ⟨hmem, hthread⟩ := mem_own.mp (hown ▸ he)
    obtain ⟨new, old, rfl⟩ := List.append_of_mem hmem
    obtain ⟨hcold, ⟨hrule, -⟩, -⟩ := hc.before
    rw [hcommand, hthread] at hrule
    generalize hpast : own i old = past' at hrule
    cases hrule with
    | reads hc => cases hc
    | @restores j s read vote past'' hstored =>
      obtain ⟨new', old', rfl, -, hpast'⟩ := split_of_own_cons hpast
      obtain ⟨hcold', -, -⟩ := hcold.before
      have hsub' : past'' ⊆ old' := fun e he => (mem_own.mp (hpast'.symm ▸ he)).1
      have hpresent := (isSome_of_stored hcold' hstored hsub').2
      have hreply := hcold.reply (List.mem_append_right new' List.mem_cons_self)
      have hnone : s.proposals.find (read.voted vote.voteType vote.weight).id = none :=
        (Except.ok.inj hreply).symm
      rw [id_voted] at hnone
      simp [hnone] at hpresent
  | saved hstored =>
    rw [← hown]
    exact sum_saved_eq_zero hc hstored hown

/-- **The tallies are the sums of the stored votes**, and a voter has at most one, when all calls
have ended, in every run whose writes add their votes: any number of calls, interleaved in any
way. -/
theorem tallies_match {c : Config GovernanceCommand GovernanceCommand.Reply GovernanceError
      (Except GovernanceError GovernanceVote) ι (GovernanceDb × List (VoteEvent ι))} {is : List ι}
    (hstart : ∀ proposalId voteType, db₀.tally proposalId voteType = db₀.weightOf proposalId voteType)
    (hr : (voting calls db₀).run (voteMachine ι) is = some c)
    (ha : (voting calls db₀).Admitted (voteMachine ι) (fun i cmd s => AddsVote calls i s cmd) is)
    (hended : ∀ i, (c.threads i).returned = true) (proposalId : String) :
    (∀ voteType, c.shared.1.tally proposalId voteType = c.shared.1.weightOf proposalId voteType) ∧
      ∀ voterId, (c.shared.1.votes.rows.filter fun vote =>
        vote.proposalId = proposalId ∧ vote.voterId = voterId).length ≤ 1 := by
  obtain ⟨hc, hdone⟩ := chronicle_of_keeps (fun i => castVote_keeps (calls i) i) hr ha
  constructor
  · intro voteType
    have hsum : (c.shared.2.map (gapChange proposalId voteType)).sum = 0 := by
      refine sum_eq_zero_of_own _ fun i => ?_
      obtain ⟨outcome, houtcome⟩ := Prog.returned_iff.mp (hended i)
      exact sum_own_eq_zero hc (hdone i outcome houtcome)
    have hgap := gap_eq_sum (p := proposalId) (t := voteType) hc
    rw [hsum, add_zero, GovernanceDb.gap, GovernanceDb.gap, hstart, sub_self] at hgap
    exact (sub_eq_zero.mp hgap).symm
  · intro voterId
    refine Table.length_filter_le_one (k := (proposalId, voterId)) fun vote hvote => ?_
    obtain ⟨hproposal, hvoter⟩ := of_decide_eq_true hvote
    exact Prod.ext hproposal hvoter

end Runs

/-- Alice and Bob vote. -/
def aliceAndBob (bobVotes : String) : Fin 2 → VoteCall
  | 0 => ⟨"p", "alice", "0xa", "FOR", none, 1⟩
  | 1 => ⟨"p", "bob", "0xb", bobVotes, none, 1⟩

/-- Votes of different types are both counted when both saves have read the proposal before either
writes. -/
theorem tallies_match_overlapping : ∃ c,
    (voting (aliceAndBob "AGAINST") twoHolders).run (voteMachine (Fin 2))
      (List.replicate 8 0 ++ List.replicate 8 1 ++ [0, 1]) = some c ∧
    c.shared.1.weightOf "p" .forVote = 100 ∧
    ∀ voteType, c.shared.1.tally "p" voteType = c.shared.1.weightOf "p" voteType := by
  have hrun : ((voting (aliceAndBob "AGAINST") twoHolders).run (voteMachine (Fin 2))
      (List.replicate 8 0 ++ List.replicate 8 1 ++ [0, 1])).any fun c =>
        c.shared.1.weightOf "p" .forVote = 100 ∧ ∀ i, (c.threads i).returned = true := by
    decide +kernel
  obtain ⟨c, hc, hfinal⟩ := (Option.any_eq_true _ _).mp hrun
  obtain ⟨hweight, hended⟩ := of_decide_eq_true hfinal
  have hstart : ∀ p t, twoHolders.tally p t = twoHolders.weightOf p t := by
    intro p t
    by_cases hp : p = "p" <;> cases t <;>
      simp [twoHolders, GovernanceDb.tally, GovernanceDb.weightOf, Table.find_save, Table.sum, hp, newProposal,
        GovernanceProposal.tally]
  exact ⟨c, hc, hweight, (tallies_match hstart hc (by decide +kernel) hended "p").1⟩

/-- **A vote is lost.** Alice and Bob read the same proposal, and Bob's save takes Alice's vote out
of the tally. -/
theorem vote_lost : ∃ c,
    (voting (aliceAndBob "FOR") twoHolders).run (voteMachine (Fin 2))
      ([0, 0, 0, 1, 1, 1] ++ List.replicate 6 0 ++ List.replicate 6 1) = some c ∧
    (∀ i, (c.threads i).returned = true) ∧ c.shared.1.weightOf "p" .forVote = 150 ∧
    c.shared.1.tally "p" .forVote = 50 := by
  have hrun : ((voting (aliceAndBob "FOR") twoHolders).run (voteMachine (Fin 2))
      ([0, 0, 0, 1, 1, 1] ++ List.replicate 6 0 ++ List.replicate 6 1)).any fun c =>
        (∀ i, (c.threads i).returned = true) ∧ c.shared.1.weightOf "p" .forVote = 150 ∧
          c.shared.1.tally "p" .forVote = 50 := by
    decide +kernel
  obtain ⟨c, hc, hfinal⟩ := (Option.any_eq_true _ _).mp hrun
  exact ⟨c, hc, of_decide_eq_true hfinal⟩

end Governance
