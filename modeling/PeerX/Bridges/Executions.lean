import PeerX.Bridges.Approvals

/-!
# Bridges: executions

Any number of calls of `addApproval` run at the same time, with the executions of bridges that they
lead to, and they name each bridge as its row does. A bridge is executed at most once, after enough
authorized signers have approved it. The counter of a bridge is the number of its approvals as long
as no save of an execution brings back the counter that the execution has read.
-/

namespace Bridges

open Relational Concurrency

variable {ι : Type}

/-- The entity that a command selects the row of, to save it. -/
def loadedFor : Cmd Stmt ApprovalOutcome → Option CrossChainBridge
  | .auto (.loadStored bridge) => some bridge
  | _ => none

/-- The save finds the counter that was read: the selected row has the counter of the entity. -/
def FreshSave (_ : ι) (cmd : Cmd Stmt ApprovalOutcome) (s : BridgeServer ι) : Prop :=
  ∀ bridge ∈ loadedFor cmd, ∀ row ∈ s.committed.bridges.find bridge.id,
    row.multisigApprovals = bridge.multisigApprovals

instance (i : ι) (cmd : Cmd Stmt ApprovalOutcome) (s : BridgeServer ι) :
    Decidable (FreshSave i cmd s) :=
  inferInstanceAs (Decidable (∀ bridge ∈ loadedFor cmd, ∀ row ∈ s.committed.bridges.find bridge.id,
    row.multisigApprovals = bridge.multisigApprovals))

/-- The condition on the commands, when it is asked for. -/
def Admits (fresh : Prop) (i : ι) (cmd : Cmd Stmt ApprovalOutcome) (s : BridgeServer ι) : Prop :=
  fresh → FreshSave i cmd s

/-- An entity that an execution of the bridge saves. -/
structure Saved (d₀ : BridgeDb) (id : String) (bridge : CrossChainBridge) : Prop where
  key : bridge.id = id
  threshold : bridge.multisigThreshold = startThreshold d₀ id
  started : ¬ bridge.status.Awaiting

/-- The call has no transaction open, and the bridge has left the statuses awaiting approvals. -/
def AtRest (id : String) (i : ι) (s : BridgeServer ι) : Prop :=
  s.Clear i ∧ Started (s.committed.bridges.find id)

/-- A saved column is that of the row or that of the entity. -/
theorem savedColumn_of {α : Type} [DecidableEq α] {P : α → Prop} {stored entity row : α} (hrow : P row)
    (hentity : P entity) : P (savedColumn stored entity row) := by
  unfold savedColumn
  split
  · exact hrow
  · exact hentity

section Saves

variable {authorizedSigners : List String} {calls : ι → Call} {d₀ : BridgeDb} {fresh : Prop}
  {id : String} {h : List (Commit ι Write ApprovalOutcome)} {stored bridge row : CrossChainBridge}

/-- A saved bridge does not return to the statuses awaiting approvals. -/
theorem Saved.not_awaiting (hsaved : Saved d₀ id bridge) (hrow : ¬ row.status.Awaiting) :
    ¬ (stored.overwrite bridge row).status.Awaiting :=
  savedColumn_of (P := fun status => ¬ BridgeStatus.Awaiting status) hrow hsaved.started

/-- A save of an execution keeps what is true of the bridge. It leaves the counter alone when
the selected row has the counter of the entity. -/
theorem BridgeGood.overwrite (hgood : BridgeGood calls d₀ fresh id h (some row))
    (hrow : ¬ row.status.Awaiting) (hfresh : fresh → stored.multisigApprovals = bridge.multisigApprovals)
    (hsaved : Saved d₀ id bridge) :
    BridgeGood calls d₀ fresh id h (some (stored.overwrite bridge row)) := by
  have hnot : ¬ (stored.overwrite bridge row).status.Awaiting := hsaved.not_awaiting hrow
  refine .of_some (fun hcount => ?_) ?_ (fun hwait => absurd hwait hnot) hgood.once hgood.reached
  · have hf : fresh := hcount.resolve_right hnot
    have hsame : (stored.overwrite bridge row).multisigApprovals = row.multisigApprovals :=
      if_pos (hfresh hf)
    exact hsame.trans (hgood.counted row rfl (.inl hf))
  · exact savedColumn_of (P := fun n => n = startThreshold d₀ id) (hgood.threshold row rfl)
      hsaved.threshold

/-- The rows after the `UPDATE` of a save. -/
theorem obs_updateBridge {d : BridgeDb} (hrow : d.bridges.find bridge.id = some row) (k : RowKey) :
    bridgeRows.obs k (bridgeSql.applyAll (bridgeSql.writes (.updateBridge stored bridge) d) d) =
      if k = .bridge bridge.id then ⟨some (stored.overwrite bridge row), none⟩
      else bridgeRows.obs k d := by
  have hwrites : bridgeSql.writes (.updateBridge stored bridge) d =
      [.bridge (stored.overwrite bridge row)] := by
    show Stmt.writes (.updateBridge stored bridge) d = _
    simp [Stmt.writes, hrow]
  have hid : (stored.overwrite bridge row).id = bridge.id :=
    show row.id = bridge.id from Table.key_of_find hrow
  rw [hwrites]
  split
  · next hk =>
    subst hk
    exact Row.ext (hid ▸ Table.find_save_self _ _) rfl
  · next hk =>
    refine bridgeRows.frame_applyAll (fun w hw ht => hk ?_) d
    rw [List.mem_singleton] at hw
    subst hw
    rw [← hid]
    exact (Option.some.inj ht).symm

variable [DecidableEq ι] {s : BridgeServer ι} {i : ι}

/-- The protocol of the calls. -/
abbrev protocol (authorizedSigners : List String) (calls : ι → Call) (d₀ : BridgeDb) (fresh : Prop) :
    Protocol (Cmd Stmt ApprovalOutcome) ι (BridgeServer ι) :=
  (approvalSpec authorizedSigners calls d₀ fresh).evolution bridgeRows

/-- The machine that the calls run on. -/
noncomputable abbrev machine (ι : Type) [DecidableEq ι] (fresh : Prop) :
    Machine (Cmd Stmt ApprovalOutcome) (Cmd.Reply Stmt.Reply ApprovalOutcome) ι (BridgeServer ι) :=
  (bridgeSql.machine ApprovalOutcome ι).restrict (Admits fresh)

omit [DecidableEq ι] in
theorem stable_started : (approvalSpec authorizedSigners calls d₀ fresh).Stable bridgeRows
    fun s : BridgeServer ι => Started (s.committed.bridges.find id) :=
  fun _ _ hs hmoved => (hmoved (.bridge id)).2 hs

/-- The `SELECT` of a save finds the row. -/
theorem delivers_loadStored (hsaved : Saved d₀ id bridge) :
    (protocol authorizedSigners calls d₀ fresh).Delivers (machine ι fresh) (AtRest id i) i
      (fun r => ∃ stored, r = some stored ∧
        (fresh → stored.multisigApprovals = bridge.multisigApprovals)) (bare (.loadStored bridge)) := by
  have hid := hsaved.key
  subst hid
  refine delivers_evolving_auto stable_started fun s hinv hstarted hP => ?_
  -- a bridge that was moved on stays, so the row is found
  obtain ⟨row, hrow, -⟩ := id hstarted
  exact ⟨fun k => ⟨hinv.good k, (approvalSpec authorizedSigners calls d₀ fresh).move_refl k _⟩,
    row, hrow, fun hf => hP hf bridge rfl row hrow⟩

/-- The `UPDATE` of a save keeps what is true of the rows. -/
theorem delivers_updateBridge (hsaved : Saved d₀ id bridge)
    (hfresh : fresh → stored.multisigApprovals = bridge.multisigApprovals) :
    (protocol authorizedSigners calls d₀ fresh).Delivers (machine ι fresh) (AtRest id i) i
      (fun _ => True) (bare (.updateBridge stored bridge)) := by
  have hid := hsaved.key
  subst hid
  refine delivers_evolving_auto stable_started fun s hinv hstarted _ => ⟨fun k => ?_, trivial⟩
  obtain ⟨row, hrow, hnot⟩ := hstarted
  have hgood : BridgeGood calls d₀ fresh bridge.id s.history (s.committed.bridges.find bridge.id) :=
    hinv.good (.bridge bridge.id)
  rw [hrow] at hgood
  rw [obs_updateBridge hrow]
  split
  · next hk =>
    subst hk
    exact ⟨hgood.overwrite hnot hfresh hsaved, fun _ => rfl, fun _ => ⟨_, rfl, hsaved.not_awaiting hnot⟩⟩
  · exact ⟨hinv.good k, (approvalSpec authorizedSigners calls d₀ fresh).move_refl k _⟩

/-- The statements of a save. -/
theorem delivers_storeBridge (hsaved : Saved d₀ id bridge) :
    (protocol authorizedSigners calls d₀ fresh).Delivers (machine ι fresh) (AtRest id i) i
      (fun _ => True) (storeBridge bridge) := by
  refine (delivers_loadStored hsaved).bind fun r hr => ?_
  -- the row is there, so that nothing is inserted
  obtain ⟨stored, rfl, hfresh⟩ := hr
  dsimp only
  split
  · exact .ret trivial
  · exact delivers_updateBridge hsaved hfresh

/-- A save of an execution. -/
theorem delivers_save (env : Environment) (hsaved : Saved d₀ id bridge) :
    (protocol authorizedSigners calls d₀ fresh).Delivers (machine ι fresh) (AtRest id i) i
      (fun _ => True) (env.bridgeRepo.save bridge) := by
  unfold Environment.bridgeRepo
  dsimp only
  cases env.saveFault bridge with
  | none => exact (delivers_storeBridge hsaved).bind fun _ _ => .ret trivial
  | some fault =>
    cases fault with
    | refused err => exact .fail err
    | unanswered err => exact (delivers_storeBridge hsaved).bind fun _ _ => .fail err

theorem delivers_withdraw (env : Environment) (userId toAddress amount memo : String) :
    (protocol authorizedSigners calls d₀ fresh).Delivers (machine ι fresh) (AtRest id i) i
      (fun _ => True) (env.stellarService.withdraw userId toAddress amount memo) := by
  unfold Environment.stellarService
  dsimp only
  cases env.withdraw userId toAddress amount memo with
  | ok tx => exact .ret trivial
  | error err => exact .fail err

theorem delivers_payDestination (env : Environment) (hsaved : Saved d₀ id bridge) :
    (protocol authorizedSigners calls d₀ fresh).Delivers (machine ι fresh) (AtRest id i) i
      (Saved d₀ id) (payDestination env.stellarService bridge) := by
  unfold payDestination
  split
  · exact (delivers_withdraw env _ _ _ _).bind fun tx _ =>
      .ret ⟨hsaved.key, hsaved.threshold, hsaved.started⟩
  · exact .ret hsaved

/-- `refundBridge`. -/
theorem delivers_refundBridge (env : Environment) (hsaved : Saved d₀ id bridge) :
    (protocol authorizedSigners calls d₀ fresh).Delivers (machine ι fresh) (AtRest id i) i
      (fun _ => True) (refundBridge env.bridgeRepo env.stellarService bridge) := by
  have hrefunded : Saved d₀ id { bridge with status := .refunded } :=
    ⟨hsaved.key, hsaved.threshold, show ¬ BridgeStatus.refunded.Awaiting by decide⟩
  refine Protocol.Delivers.tryCatch ?_ fun _ => .ret trivial
  refine Protocol.Delivers.bind (A := fun _ => True) ?_ fun _ _ =>
    (delivers_save env hrefunded).bind fun _ _ => .ret trivial
  unfold payBack
  split
  · exact (delivers_withdraw env _ _ _ _).bind fun _ _ => .ret trivial
  · exact .ret trivial

/-- `executeBridge` keeps what is true of the rows. -/
theorem delivers_executeBridge (env : Environment) (hkey : bridge.id = id)
    (hthreshold : bridge.multisigThreshold = startThreshold d₀ id) :
    (protocol authorizedSigners calls d₀ fresh).Delivers (machine ι fresh) (AtRest id i) i
      (fun _ => True) (executeBridge env.bridgeRepo env.stellarService bridge) := by
  have hpending : Saved d₀ id { bridge with status := .destinationPending } :=
    ⟨hkey, hthreshold, show ¬ BridgeStatus.destinationPending.Awaiting by decide⟩
  refine Protocol.Delivers.bind (A := Saved d₀ id) (.tryCatch ?_ fun err => ?_) fun _ hcompleted =>
    delivers_save env hcompleted
  · refine (delivers_save env hpending).bind fun _ _ => ?_
    exact (delivers_payDestination env hpending).bind fun paid hpaid =>
      .ret ⟨hpaid.key, hpaid.threshold, show ¬ BridgeStatus.completed.Awaiting by decide⟩
  · have hfailed : Saved d₀ id
        { bridge with status := .failed, errorMessage := some err.message } :=
      ⟨hkey, hthreshold, show ¬ BridgeStatus.failed.Awaiting by decide⟩
    exact (delivers_save env hfailed).bind fun _ _ =>
      (delivers_refundBridge env hfailed).bind fun _ _ => .fail _

end Saves

section Calls

variable {authorizedSigners : List String} {calls : ι → Call} {d₀ : BridgeDb} {fresh : Prop}
  [DecidableEq ι] {s : BridgeServer ι} {i : ι}

/-- The transaction of a call, with what the call knows after it. -/
theorem safe_tx (hauthorized : (calls i).signerId ∈ authorizedSigners) (hspelled : (calls i).Spelled)
    (hclear : s.Clear i) :
    (protocol authorizedSigners calls d₀ fresh).Safe (bridgeSql.machine ApprovalOutcome ι) i
      (fun o s => s.Clear i ∧ ∀ a, o = .ok a → a.shouldExecute = true →
        a.bridge.id = (calls i).bridgeId ∧
        a.bridge.multisigThreshold = startThreshold d₀ (calls i).bridgeId ∧
        Started (s.committed.bridges.find (calls i).bridgeId))
      (transaction id (calls i).tx) s := by
  have hbody : StmtSafe authorizedSigners calls d₀ fresh i (Done (calls i) i) (calls i).tx s := by
    rw [Call.tx]
    cases hid : storedSpelling (calls i).bridgeId with
    | none => exact done_error _
    | some id =>
      obtain rfl := hspelled id hid
      exact (safe_approve hclear).failAt (fun _ => done_error _) _
  refine safe_evolving_transaction hbody fun a s₀ hdone s₁ hr hinv => ?_
  obtain ⟨b, b', hcounted, happroved, hbridge⟩ := hdone a rfl
  replace hcounted := hcounted.of_holding hr
  have hid : a.shouldExecute = true → a.bridge.id = (calls i).bridgeId := fun hexecuted =>
    hbridge hexecuted ▸ Table.key_of_find hcounted.viewBridge
  refine ⟨⟨Edit (calls i) a.shouldExecute, hcounted.edited happroved,
    keeps_edit (r := ⟨i, s₁.pending i, a⟩) hauthorized hid hcounted.touchesBridge hcounted.touches⟩,
    fun hexecuted => ?_⟩
  obtain rfl := hbridge hexecuted
  -- the entity is the row that the commit publishes
  have hcommitted : (s₁.afterCommit bridgeSql i a).committed.bridges.find (calls i).bridgeId =
      some a.bridge := hcounted.viewBridge
  have hgood : BridgeGood calls d₀ fresh (calls i).bridgeId s₁.history
      (s₁.committed.bridges.find (calls i).bridgeId) := hinv.good (.bridge (calls i).bridgeId)
  refine ⟨hid hexecuted, ?_, a.bridge, hcommitted, ?_⟩
  · exact happroved.threshold.trans (hgood.threshold b hcounted.committedBridge)
  · rw [(happroved.executed hexecuted).2.1]
    exact not_awaiting_processing

/-- Every call keeps what is true of the rows. -/
theorem safe_addApproval (hspelled : (calls i).Spelled) (hclear : s.Clear i) :
    (protocol authorizedSigners calls d₀ fresh).Safe (machine ι fresh) i (fun _ _ => True)
      (addApproval authorizedSigners (calls i)) s := by
  unfold addApproval
  by_cases hauthorized : (calls i).signerId ∈ authorizedSigners
  swap
  · rw [if_pos hauthorized]
    trivial
  rw [if_neg (not_not_intro hauthorized)]
  refine Protocol.safe_bind (Protocol.safe_mono (fun o s₁ h₁ => ?_)
    (Protocol.Safe.restrict (safe_tx hauthorized hspelled hclear)))
  cases o with
  | error e => trivial
  | ok a =>
    show (protocol authorizedSigners calls d₀ fresh).Safe _ i _ (Call.finish _ a) s₁
    unfold Call.finish
    split
    · next hexecuted =>
      obtain ⟨hkey, hthreshold, hstarted⟩ := h₁.2 a rfl hexecuted
      exact Protocol.safe_mono (fun _ _ _ => trivial)
        (delivers_executeBridge (calls i).env hkey hthreshold s₁ ⟨h₁.1, hstarted⟩)
    · trivial

omit [DecidableEq ι] in
theorem historyInv_idle : HistoryInv bridgeRows (approvalSpec authorizedSigners calls d₀ fresh)
    (Server.idle d₀ : BridgeServer ι) := by
  refine ⟨Server.owned_idle d₀, fun k => ?_⟩
  cases k with
  | bridge id =>
    refine ⟨fun _ => ⟨rfl, rfl⟩, fun b hb _ => ?_, fun b hb => ?_, fun _ _ _ => rfl, Nat.zero_le 1,
      fun hpos => absurd hpos (lt_irrefl 0)⟩
    · replace hb : d₀.bridges.find id = some b := hb
      simp [startCount, hb, approvals, Server.idle]
    · replace hb : d₀.bridges.find id = some b := hb
      simp [startThreshold, hb]
  | approval id signerId => exact ⟨rfl, fun hpos => absurd hpos (lt_irrefl 0)⟩

/-- What is true of the rows in every run whose saves are fresh when that is asked for. -/
theorem good_of_run (hspelled : ∀ i, (calls i).Spelled) {c : Approving ι} {is : List ι}
    (hr : (approving authorizedSigners calls d₀).run (bridgeSql.machine ApprovalOutcome ι) is = some c)
    (ha : (approving authorizedSigners calls d₀).Admitted (bridgeSql.machine ApprovalOutcome ι)
      (Admits fresh) is) :
    HistoryInv bridgeRows (approvalSpec authorizedSigners calls d₀ fresh) c.shared :=
  RowSpec.run_evolved historyInv_idle (fun i => safe_addApproval (hspelled i) (Server.clear_idle d₀))
    (Config.run_restrict hr ha)

end Calls

end Bridges
