import PeerX.Foundations.RowHistories
import PeerX.Bridges.BridgeService

/-!
# Bridges: the commits of approvals

What the committed rows say about the transactions of `addApproval` that committed. While a bridge
awaits approvals its counter is what the commits made of it, and no commit has moved the bridge on.
The commit that moves it on finds enough approvals, and no second one can. Each commit has stored
one approval, under a key that no other has.
-/

namespace Bridges

open Relational Concurrency

variable {ι : Type}

/-! ## Commits -/

section Commits

variable (calls : ι → Call) (id signerId : String)

/-- The commit is an approval of the bridge. -/
def Approves (r : Commit ι Write ApprovalOutcome) : Prop := (calls r.thread).bridgeId = id

/-- The commit is an approval of the bridge by the signer. -/
def ApprovesAs (r : Commit ι Write ApprovalOutcome) : Prop :=
  Approves calls id r ∧ (calls r.thread).signerId = signerId

/-- The call starts `executeBridge` after the commit, on the bridge. -/
def Executes (r : Commit ι Write ApprovalOutcome) : Prop :=
  r.result.shouldExecute = true ∧ r.result.bridge.id = id

instance (r : Commit ι Write ApprovalOutcome) : Decidable (Approves calls id r) :=
  inferInstanceAs (Decidable (_ = _))

instance (r : Commit ι Write ApprovalOutcome) : Decidable (ApprovesAs calls id signerId r) :=
  inferInstanceAs (Decidable (_ ∧ _))

instance (r : Commit ι Write ApprovalOutcome) : Decidable (Executes id r) :=
  inferInstanceAs (Decidable (_ ∧ _))

/-- The number of committed approvals of the bridge. -/
def approvals (h : List (Commit ι Write ApprovalOutcome)) : ℕ := h.countP (Approves calls id ·)

/-- How often the signer's approval of the bridge was committed. -/
def approvalsAs (h : List (Commit ι Write ApprovalOutcome)) : ℕ :=
  h.countP (ApprovesAs calls id signerId ·)

/-- How often `executeBridge` was started for the bridge. -/
def executions (h : List (Commit ι Write ApprovalOutcome)) : ℕ := h.countP (Executes id ·)

variable {calls id signerId} {h : List (Commit ι Write ApprovalOutcome)}
  {r : Commit ι Write ApprovalOutcome}

theorem approvals_append : approvals calls id (h ++ [r]) =
    approvals calls id h + if Approves calls id r then 1 else 0 := by
  simp [approvals, List.countP_append, List.countP_singleton]

theorem approvalsAs_append : approvalsAs calls id signerId (h ++ [r]) =
    approvalsAs calls id signerId h + if ApprovesAs calls id signerId r then 1 else 0 := by
  simp [approvalsAs, List.countP_append, List.countP_singleton]

theorem executions_append : executions id (h ++ [r]) =
    executions id h + if Executes id r then 1 else 0 := by
  simp [executions, List.countP_append, List.countP_singleton]

end Commits

/-! ## Rows with their histories -/

/-- The counter of the bridge at the start. -/
def startCount (d₀ : BridgeDb) (id : String) : ℕ :=
  ((d₀.bridges.find id).map (·.multisigApprovals)).getD 0

/-- The threshold of the bridge. -/
def startThreshold (d₀ : BridgeDb) (id : String) : ℕ :=
  ((d₀.bridges.find id).map (·.multisigThreshold)).getD 0

/-- The bridge has left the statuses awaiting approvals. -/
def Started (x : Option CrossChainBridge) : Prop := ∃ b, x = some b ∧ ¬ b.status.Awaiting

section Spec

variable (authorizedSigners : List String) (calls : ι → Call) (d₀ : BridgeDb) (fresh : Prop)

/-- What is true of a bridge with its history. The counter is that of the commits while the
bridge awaits approvals, and always when the saves are `fresh`. -/
structure BridgeGood (id : String) (h : List (Commit ι Write ApprovalOutcome))
    (x : Option CrossChainBridge) : Prop where
  absent : x = none → approvals calls id h = 0 ∧ executions id h = 0
  counted : ∀ b, x = some b → fresh ∨ b.status.Awaiting →
    b.multisigApprovals = startCount d₀ id + approvals calls id h
  threshold : ∀ b, x = some b → b.multisigThreshold = startThreshold d₀ id
  awaiting : ∀ b, x = some b → b.status.Awaiting → executions id h = 0
  once : executions id h ≤ 1
  reached : 0 < executions id h →
    startThreshold d₀ id ≤ startCount d₀ id + approvals calls id h

/-- What is true of an approval with its history: it was there, or one commit has stored it. -/
structure ApprovalGood (id signerId : String) (h : List (Commit ι Write ApprovalOutcome))
    (x : Option BridgeApproval) : Prop where
  stored : (if (d₀.approvals.find (id, signerId)).isSome then 1 else 0) +
    approvalsAs calls id signerId h = if x.isSome then 1 else 0
  authorized : 0 < approvalsAs calls id signerId h → signerId ∈ authorizedSigners

/-- What is true of a row with its history. A bridge stays, and one that has left the statuses
awaiting approvals does not return to them. -/
def approvalSpec : RowSpec ι Write ApprovalOutcome RowKey Row where
  good
    | .bridge id, h, x => BridgeGood calls d₀ fresh id h x.bridge
    | .approval id signerId, h, x => ApprovalGood authorizedSigners calls d₀ id signerId h x.approval
  move
    | .bridge _, x, y => (x.bridge.isSome → y.bridge.isSome) ∧ (Started x.bridge → Started y.bridge)
    | .approval _ _, _, _ => True
  move_refl k x := by
    cases k with
    | bridge id => exact ⟨fun h => h, fun h => h⟩
    | approval id signerId => trivial
  move_trans k x y z hxy hyz := by
    cases k with
    | bridge id => exact ⟨fun h => hyz.1 (hxy.1 h), fun h => hyz.2 (hxy.2 h)⟩
    | approval id signerId => trivial

end Spec

/-- What the transaction makes of the bridge: the approval is counted. The call that is to start
`executeBridge` has found a bridge awaiting approvals, with enough of them. -/
structure Approved (executed : Bool) (b b' : CrossChainBridge) : Prop where
  counted : b'.multisigApprovals = b.multisigApprovals + 1
  threshold : b'.multisigThreshold = b.multisigThreshold
  waiting : executed = false → b'.status = b.status
  executed : executed = true → b.status.Awaiting ∧ b'.status = .bridgeProcessing ∧
    b.multisigThreshold ≤ b'.multisigApprovals

/-- What the transaction of a call makes of the rows it writes. -/
def Edit (call : Call) (executed : Bool) : RowKey → Row → Row → Prop
  | .bridge id, x, x' => id = call.bridgeId ∧
    ∃ b b', x.bridge = some b ∧ x'.bridge = some b' ∧ Approved executed b b'
  | .approval id signerId, x, x' => (id = call.bridgeId ∧ signerId = call.signerId) ∧
    x.approval = none ∧ x'.approval.isSome

theorem not_awaiting_processing : ¬ BridgeStatus.bridgeProcessing.Awaiting := by decide

section Keeps

variable {authorizedSigners : List String} {calls : ι → Call} {d₀ : BridgeDb} {fresh : Prop}
  {id signerId : String} {h : List (Commit ι Write ApprovalOutcome)}
  {r : Commit ι Write ApprovalOutcome}

theorem BridgeGood.of_not_approves {x : Option CrossChainBridge}
    (hgood : BridgeGood calls d₀ fresh id h x) (hr : ¬ Approves calls id r) (hnot : ¬ Executes id r) :
    BridgeGood calls d₀ fresh id (h ++ [r]) x := by
  have happrovals : approvals calls id (h ++ [r]) = approvals calls id h := by
    rw [approvals_append, if_neg hr, Nat.add_zero]
  have hexecutions : executions id (h ++ [r]) = executions id h := by
    rw [executions_append, if_neg hnot, Nat.add_zero]
  exact ⟨by rw [happrovals, hexecutions]; exact hgood.absent, by rw [happrovals]; exact hgood.counted,
    hgood.threshold, by rw [hexecutions]; exact hgood.awaiting, by rw [hexecutions]; exact hgood.once,
    by rw [hexecutions, happrovals]; exact hgood.reached⟩

theorem BridgeGood.of_some {b : CrossChainBridge}
    (hcounted : fresh ∨ b.status.Awaiting →
      b.multisigApprovals = startCount d₀ id + approvals calls id h)
    (hthreshold : b.multisigThreshold = startThreshold d₀ id)
    (hawaiting : b.status.Awaiting → executions id h = 0) (honce : executions id h ≤ 1)
    (hreached : 0 < executions id h →
      startThreshold d₀ id ≤ startCount d₀ id + approvals calls id h) :
    BridgeGood calls d₀ fresh id h (some b) where
  absent := fun hnone => by cases hnone
  counted := fun _ hb => Option.some.inj hb ▸ hcounted
  threshold := fun _ hb => Option.some.inj hb ▸ hthreshold
  awaiting := fun _ hb => Option.some.inj hb ▸ hawaiting
  once := honce
  reached := hreached

theorem BridgeGood.of_approved {b b' : CrossChainBridge}
    (hgood : BridgeGood calls d₀ fresh id h (some b)) (hr : Approves calls id r)
    (hid : r.result.shouldExecute = true → r.result.bridge.id = id)
    (happroved : Approved r.result.shouldExecute b b') :
    BridgeGood calls d₀ fresh id (h ++ [r]) (some b') := by
  have happrovals : approvals calls id (h ++ [r]) = approvals calls id h + 1 := by
    rw [approvals_append, if_pos hr]
  have hthreshold : b'.multisigThreshold = startThreshold d₀ id :=
    happroved.threshold.trans (hgood.threshold b rfl)
  -- the counter follows the commits, whenever it did before
  have hcount : fresh ∨ b.status.Awaiting →
      b'.multisigApprovals = startCount d₀ id + approvals calls id (h ++ [r]) := by
    intro hb
    rw [happroved.counted, hgood.counted b rfl hb, happrovals, Nat.add_assoc]
  cases hexecuted : r.result.shouldExecute with
  | false =>
    have hnot : ¬ Executes id r := fun he => Bool.false_ne_true (hexecuted.symm.trans he.1)
    have hexecutions : executions id (h ++ [r]) = executions id h := by
      rw [executions_append, if_neg hnot, Nat.add_zero]
    have hstatus : b'.status = b.status := happroved.waiting hexecuted
    refine .of_some (fun hfresh => hcount (hstatus ▸ hfresh)) hthreshold (fun hwait => ?_) ?_
      fun hpos => ?_
    · rw [hexecutions]
      exact hgood.awaiting b rfl (hstatus ▸ hwait)
    · rw [hexecutions]
      exact hgood.once
    · rw [hexecutions] at hpos
      rw [happrovals]
      exact (hgood.reached hpos).trans (Nat.add_le_add_left (Nat.le_succ _) _)
  | true =>
    obtain ⟨hwait, hstatus, hle⟩ := happroved.executed hexecuted
    have hexecutions : executions id (h ++ [r]) = 1 := by
      rw [executions_append, if_pos ⟨hexecuted, hid hexecuted⟩, hgood.awaiting b rfl hwait]
    have hnot : ¬ b'.status.Awaiting := hstatus ▸ not_awaiting_processing
    refine .of_some (fun _ => hcount (.inr hwait)) hthreshold (fun hwait' => absurd hwait' hnot)
      hexecutions.le fun _ => ?_
    rw [← hcount (.inr hwait), ← hgood.threshold b rfl]
    exact hle

/-- **The commit of the transaction** keeps what is true of the rows. -/
theorem keeps_edit (hauthorized : (calls r.thread).signerId ∈ authorizedSigners)
    (hid : r.result.shouldExecute = true → r.result.bridge.id = (calls r.thread).bridgeId)
    (hbridge : ∃ w ∈ r.writes, bridgeSql.target w = some (.bridge (calls r.thread).bridgeId))
    (happroval : ∃ w ∈ r.writes,
      bridgeSql.target w = some (.approval (calls r.thread).bridgeId (calls r.thread).signerId)) :
    (approvalSpec authorizedSigners calls d₀ fresh).Keeps bridgeSql r
      (Edit (calls r.thread) r.result.shouldExecute) := by
  intro k h x hgood
  cases k with
  | bridge id =>
    refine ⟨fun hfree => ?_, fun x' _ hedit => ?_⟩
    · -- a commit for the bridge has written it
      have hr : ¬ Approves calls id r := by
        rintro rfl
        obtain ⟨w, hw, ht⟩ := hbridge
        exact hfree w hw ht
      exact BridgeGood.of_not_approves hgood hr fun he => hr ((hid he.1).symm.trans he.2)
    · -- the approval counts, and may start the execution
      obtain ⟨rfl, b, b', hb, hb', happroved⟩ := hedit
      refine ⟨?_, fun _ => Option.isSome_iff_exists.mpr ⟨b', hb'⟩, fun ⟨c, hc, hnot⟩ => ⟨b', hb', ?_⟩⟩
      · show BridgeGood calls d₀ fresh _ (h ++ [r]) x'.bridge
        rw [hb']
        replace hgood : BridgeGood calls d₀ fresh _ h x.bridge := hgood
        rw [hb] at hgood
        exact hgood.of_approved rfl hid happroved
      · -- a bridge that was not awaiting approvals keeps its status
        obtain rfl : b = c := Option.some.inj (hb.symm.trans hc)
        cases hexecuted : r.result.shouldExecute with
        | false => exact happroved.waiting hexecuted ▸ hnot
        | true => exact absurd (happroved.executed hexecuted).1 hnot
  | approval id signerId =>
    refine ⟨fun hfree => ?_, fun x' _ hedit => ⟨?_, trivial⟩⟩
    · -- a commit for the approval has written it
      have hr : ¬ ApprovesAs calls id signerId r := by
        rintro ⟨rfl, rfl⟩
        obtain ⟨w, hw, ht⟩ := happroval
        exact hfree w hw ht
      have hsame : approvalsAs calls id signerId (h ++ [r]) = approvalsAs calls id signerId h := by
        rw [approvalsAs_append, if_neg hr, Nat.add_zero]
      exact ⟨by rw [hsame]; exact hgood.stored, by rw [hsame]; exact hgood.authorized⟩
    · -- the approval was not there, and is stored once
      obtain ⟨⟨rfl, rfl⟩, hnone, hsome⟩ := hedit
      have hstored := hgood.stored
      rw [hnone] at hstored
      have hmore : approvalsAs calls (calls r.thread).bridgeId (calls r.thread).signerId (h ++ [r]) =
          approvalsAs calls (calls r.thread).bridgeId (calls r.thread).signerId h + 1 := by
        rw [approvalsAs_append, if_pos ⟨rfl, rfl⟩]
      refine ⟨?_, fun _ => hauthorized⟩
      rw [hmore, ← Nat.add_assoc, hstored, if_pos hsome]
      rfl

end Keeps

/-! ## The transaction -/

section Body

variable {call : Call} {s s' : BridgeServer ι} {i : ι} {b b' : CrossChainBridge} {α : Type}

/-- The approval is inserted: the transaction holds its key, which was free, and has written no
other row but perhaps the bridge. -/
structure Inserted (call : Call) (s : BridgeServer ι) (i : ι) : Prop where
  holder : s.holder (.approval call.bridgeId call.signerId) = some i
  committed : s.committed.approvals.find (call.bridgeId, call.signerId) = none
  view : (s.view bridgeSql i).approvals.find (call.bridgeId, call.signerId) =
    some ⟨call.bridgeId, call.signerId⟩
  touches : Touches bridgeSql s i (.approval call.bridgeId call.signerId)
  only : ∀ k, Touches bridgeSql s i k →
    k = .approval call.bridgeId call.signerId ∨ k = .bridge call.bridgeId

/-- The approval is counted: the bridge is committed as `b`, and the transaction sees it as
`b'`. -/
structure Counted (call : Call) (s : BridgeServer ι) (i : ι) (b b' : CrossChainBridge) : Prop extends
    Inserted call s i where
  holderBridge : s.holder (.bridge call.bridgeId) = some i
  committedBridge : s.committed.bridges.find call.bridgeId = some b
  viewBridge : (s.view bridgeSql i).bridges.find call.bridgeId = some b'
  touchesBridge : Touches bridgeSql s i (.bridge call.bridgeId)

theorem Inserted.of_holding (h : Inserted call s i) (hr : Holding bridgeRows i s s') :
    Inserted call s' i where
  holder := (hr.1.holder _).mpr h.holder
  committed := (congrArg Row.approval (hr.2 _ h.holder)).trans h.committed
  view := (congrArg Row.approval (hr.view h.holder)).trans h.view
  touches := hr.touches.mpr h.touches
  only k hk := h.only k (hr.touches.mp hk)

theorem Counted.of_holding (h : Counted call s i b b') (hr : Holding bridgeRows i s s') :
    Counted call s' i b b' where
  toInserted := h.toInserted.of_holding hr
  holderBridge := (hr.1.holder _).mpr h.holderBridge
  committedBridge := (congrArg Row.bridge (hr.2 _ h.holderBridge)).trans h.committedBridge
  viewBridge := (congrArg Row.bridge (hr.view h.holderBridge)).trans h.viewBridge
  touchesBridge := hr.touches.mpr h.touchesBridge

/-- The rows are edited as the outcome says. -/
theorem Counted.edited {executed : Bool} (h : Counted call s i b b')
    (happroved : Approved executed b b') : Edited bridgeRows (Edit call executed) s i := by
  intro k hk
  rcases h.only k hk with rfl | rfl
  · exact ⟨⟨rfl, rfl⟩, h.committed, Option.isSome_iff_exists.mpr ⟨_, h.view⟩⟩
  · exact ⟨rfl, b, b', h.committedBridge, h.viewBridge, happroved⟩

variable [DecidableEq ι] {c : Stmt}

theorem Inserted.afterStmt (h : Inserted call s i)
    (hc : ∀ w ∈ bridgeSql.writes c (s.view bridgeSql i),
      bridgeSql.target w = some (.bridge call.bridgeId)) :
    Inserted call (s.afterStmt bridgeSql i c) i where
  holder := Server.holder_of_held h.holder
  committed := h.committed
  view := by
    have hframe : ∀ w ∈ bridgeSql.writes c (s.view bridgeSql i),
        bridgeSql.target w ≠ some (.approval call.bridgeId call.signerId) := by
      intro w hw ht
      cases (hc w hw).symm.trans ht
    have hsame := (obs_view_afterStmt (O := bridgeRows) (s := s) (i := i)
      (k := .approval call.bridgeId call.signerId) c).trans (bridgeRows.frame_applyAll hframe _)
    exact (congrArg Row.approval hsame).trans h.view
  touches := touches_afterStmt.mpr (.inl h.touches)
  only k hk := by
    rcases touches_afterStmt.mp hk with hk | ⟨w, hw, ht⟩
    · exact h.only k hk
    · exact .inr (Option.some.inj (ht.symm.trans (hc w hw)))

/-- A write of the bridge. -/
theorem Inserted.write (h : Inserted call s i)
    (hcommitted : s.committed.bridges.find call.bridgeId = some b)
    (hc : c.Updates (s.view bridgeSql i) call.bridgeId b') :
    Counted call (s.afterStmt bridgeSql i c) i b b' where
  toInserted := by
    refine h.afterStmt fun w hw => ?_
    rw [hc.writes, List.mem_singleton] at hw
    rw [hw, ← hc.id]
    rfl
  holderBridge := Server.holder_of_lock hc.locks
  committedBridge := hcommitted
  viewBridge := by
    rw [Server.view_afterStmt, Dialect.handler, hc.writes, ← hc.id]
    exact Table.find_save_self _ _
  touchesBridge := by
    refine touches_afterStmt.mpr (.inr ⟨.bridge b', ?_, ?_⟩)
    · rw [hc.writes]
      exact List.mem_singleton_self _
    · rw [← hc.id]
      rfl

theorem Counted.afterStmt (h : Counted call s i b b')
    (hc : bridgeSql.writes c (s.view bridgeSql i) = []) :
    Counted call (s.afterStmt bridgeSql i c) i b b' where
  toInserted := h.toInserted.afterStmt fun w hw => by simp [hc] at hw
  holderBridge := Server.holder_of_held h.holderBridge
  committedBridge := h.committedBridge
  viewBridge := by
    rw [Server.view_afterStmt, Dialect.handler, hc]
    exact h.viewBridge
  touchesBridge := touches_afterStmt.mpr (.inl h.touchesBridge)

/-- The insert of the approval, as the first write of a transaction. -/
theorem inserted_afterStmt (h : s.pending i = [])
    (hnone : (s.view bridgeSql i).approvals.find (call.bridgeId, call.signerId) = none) :
    Inserted call (s.afterStmt bridgeSql i (.insertApproval ⟨call.bridgeId, call.signerId⟩)) i := by
  have hview : s.view bridgeSql i = s.committed := by
    rw [Server.view, h, Dialect.applyAll_nil]
  obtain ⟨hlocks, hwrites⟩ := insertApproval_new (a := ⟨call.bridgeId, call.signerId⟩) hnone
  refine ⟨Server.holder_of_lock hlocks, hview ▸ hnone, ?_, ?_, fun k hk => ?_⟩
  · rw [Server.view_afterStmt, Dialect.handler, hwrites]
    exact Table.find_save_self _ (⟨call.bridgeId, call.signerId⟩ : BridgeApproval)
  · refine touches_afterStmt.mpr (.inr ⟨.approval ⟨call.bridgeId, call.signerId⟩, ?_, rfl⟩)
    rw [hwrites]
    exact List.mem_singleton_self _
  · rcases touches_afterStmt.mp hk with ⟨w, hw, -⟩ | ⟨w, hw, ht⟩
    · rw [h] at hw
      cases hw
    · rw [hwrites, List.mem_singleton] at hw
      subst hw
      exact .inl (Option.some.inj ht).symm

/-! ### The program -/

variable {authorizedSigners : List String} {calls : ι → Call} {d₀ : BridgeDb} {fresh : Prop}

/-- A program that keeps what is true of the rows, as the body of a transaction. -/
abbrev StmtSafe (authorizedSigners : List String) (calls : ι → Call) (d₀ : BridgeDb) (fresh : Prop)
    (i : ι) (Q : Except BridgeError α → BridgeServer ι → Prop) (p : Tx α) (s : BridgeServer ι) : Prop :=
  (stmtProtocol ((approvalSpec authorizedSigners calls d₀ fresh).evolution bridgeRows)).Safe
    (bridgeSql.statements ApprovalOutcome ι) i Q p s

/-- How the transaction of a call ends: it has counted the approval. The entity it returns to
`executeBridge` is the row it has written. -/
def Done (call : Call) (i : ι) (o : Except BridgeError ApprovalOutcome) (s : BridgeServer ι) : Prop :=
  ∀ a, o = .ok a → ∃ b b', Counted call s i b b' ∧ Approved a.shouldExecute b b' ∧
    (a.shouldExecute = true → a.bridge = b')

omit [DecidableEq ι] in
theorem done_error (e : BridgeError) : Done call i (.error e) s := fun a ha => by cases ha

/-- The second half of the transaction, for a bridge that is stored. -/
theorem safe_countApproval (h : Inserted call s i)
    (hfree : ¬ Touches bridgeSql s i (.bridge call.bridgeId))
    (hstored : (s.committed.bridges.find call.bridgeId).isSome) :
    StmtSafe authorizedSigners calls d₀ fresh i (Done call i) (countApproval call.bridgeId call.bridgeId) s := by
  unfold countApproval
  rw [Prog.perform_bind]
  refine safe_evolving_stmt fun s₁ hr₁ hmoved _ => ?_
  replace h := h.of_holding hr₁
  -- the transaction has not written the bridge: it sees the committed one
  have hview : (s₁.view bridgeSql i).bridges.find call.bridgeId =
      s₁.committed.bridges.find call.bridgeId :=
    congrArg Row.bridge (obs_view_of_not_touches (O := bridgeRows) fun ht => hfree (hr₁.touches.mp ht))
  obtain ⟨b, hb⟩ := Option.isSome_iff_exists.mp ((hmoved (.bridge call.bridgeId)).1 hstored)
  replace hb : s₁.committed.bridges.find call.bridgeId = some b := hb
  have hcounted := h.write hb (incrementApprovals_stored (hview.trans hb))
  rw [Prog.perform_bind]
  refine safe_evolving_stmt fun s₂ hr₂ _ _ => ?_
  replace hcounted := hcounted.of_holding hr₂
  rw [show bridgeSql.reply (.findBridge call.bridgeId) (s₂.view bridgeSql i) = _ from
    hcounted.viewBridge]
  replace hcounted := hcounted.afterStmt (c := .findBridge call.bridgeId) rfl
  by_cases hlt : b.multisigApprovals + 1 < b.multisigThreshold
  · simp only [if_pos hlt]
    rintro a ⟨⟩
    exact ⟨b, _, hcounted, ⟨rfl, rfl, fun _ => rfl, fun he => by cases he⟩, fun he => by cases he⟩
  · simp only [if_neg hlt]
    rw [Prog.perform_bind]
    refine safe_evolving_stmt fun s₃ hr₃ _ _ => ?_
    replace hcounted := hcounted.of_holding hr₃
    -- the conditional UPDATE matches no row if the bridge does not await approvals
    rcases startProcessing_cases call.bridgeId (s₃.view bridgeSql i) with
      ⟨hwrites, hreply⟩ | ⟨b', hb', hwait, hupdates, hreply⟩
    · rw [show bridgeSql.reply (.startProcessing call.bridgeId) (s₃.view bridgeSql i) = _ from hreply]
      rintro a ⟨⟩
      exact ⟨b, _, hcounted.afterStmt hwrites, ⟨rfl, rfl, fun _ => rfl, fun he => by cases he⟩,
        fun he => by cases he⟩
    · rw [show bridgeSql.reply (.startProcessing call.bridgeId) (s₃.view bridgeSql i) = _ from hreply]
      obtain rfl := Option.some.inj (hcounted.viewBridge.symm.trans hb')
      rintro a ⟨⟩
      exact ⟨b, _, hcounted.toInserted.write hcounted.committedBridge hupdates,
        ⟨rfl, rfl, fun he => (by cases he), fun _ => ⟨hwait, rfl, not_lt.mp hlt⟩⟩, fun _ => rfl⟩

/-- **The transaction of `addApproval`**, for a bridge that the call names as its row does. -/
theorem safe_approve (hclear : s.Clear i) :
    StmtSafe authorizedSigners calls d₀ fresh i (Done call i)
      (approve call.bridgeId call.bridgeId call.signerId) s := by
  unfold approve
  rw [Prog.perform_bind]
  refine safe_evolving_stmt fun s₁ hr₁ _ _ => ?_
  have hview₁ : s₁.view bridgeSql i = s₁.committed := by
    rw [Server.view, hr₁.1.pending, hclear.pending, Dialect.applyAll_nil]
  cases hfind : bridgeSql.reply (.findBridge call.bridgeId) (s₁.view bridgeSql i) with
  | none => exact done_error _
  | some bridge =>
    by_cases hwait : ¬ bridge.status.Awaiting
    · simp only [if_pos hwait]
      exact done_error _
    simp only [if_neg hwait]
    -- the row that was found stays
    have hstored : (s₁.committed.bridges.find call.bridgeId).isSome :=
      Option.isSome_iff_exists.mpr ⟨bridge, hview₁ ▸ hfind⟩
    rw [Prog.perform_bind]
    refine safe_evolving_stmt fun s₂ hr₂ hmoved _ => ?_
    have hpending : s₂.pending i = [] := by
      rw [hr₂.1.pending, Server.pending_afterStmt, hr₁.1.pending, hclear.pending]
      rfl
    cases hnew : bridgeSql.reply (.insertApproval ⟨call.bridgeId, call.signerId⟩)
        (s₂.view bridgeSql i) with
    | false => exact done_error _
    | true =>
      have hnone := Option.isNone_iff_eq_none.mp hnew
      refine safe_countApproval (inserted_afterStmt hpending hnone) (fun ht => ?_)
        ((hmoved (.bridge call.bridgeId)).1 hstored)
      rcases touches_afterStmt.mp ht with ⟨w, hw, -⟩ | ⟨w, hw, ht⟩
      · rw [hpending] at hw
        cases hw
      · rw [(insertApproval_new (a := ⟨call.bridgeId, call.signerId⟩) hnone).2,
          List.mem_singleton] at hw
        subst hw
        cases ht

end Body

end Bridges
