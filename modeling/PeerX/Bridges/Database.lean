import PeerX.Foundations.RowInvariants
import PeerX.Bridges.Entities

/-!
# Bridges: the database

The two tables of the bridge service and the statements it issues. An approval is inserted under the
unique constraint; the counter and the status are changed by guarded `UPDATE`s. `save` of an entity
that was read before is a `SELECT` and an `UPDATE`: it writes the columns in which the entity
differs from the row that was selected.
-/

namespace Bridges

open Relational Concurrency

/-- The tables. The key of an approval is its unique constraint. -/
structure BridgeDb where
  bridges : Table CrossChainBridge.id
  approvals : Table BridgeApproval.key

def BridgeDb.approvalsOf (d : BridgeDb) (bridgeId : String) : List BridgeApproval :=
  d.approvals.rows.filter (·.bridgeId = bridgeId)

/-- The signers with an approval of the bridge. -/
def BridgeDb.signersOf (d : BridgeDb) (bridgeId : String) : List String :=
  (d.approvalsOf bridgeId).map (·.signerId)

/-- A row write. -/
inductive Write : Type
  | bridge (b : CrossChainBridge)
  | approval (a : BridgeApproval)
deriving DecidableEq

/-- A row that can be locked. The lock of an approval is its entry in the unique index. -/
inductive RowKey : Type
  | bridge (id : String)
  | approval (bridgeId signerId : String)
deriving DecidableEq

/-- The statements of the bridge service. -/
inductive Stmt : Type
  /-- `manager.findOne(CrossChainBridge, { where: { id } })`. -/
  | findBridge (id : String)
  /-- `approvalRepo.save(approvalRepo.create({ bridgeId, signerId }))`. -/
  | insertApproval (a : BridgeApproval)
  /-- `UPDATE .. SET multisigApprovals = multisigApprovals + 1 WHERE id = id`. -/
  | incrementApprovals (id : String)
  /-- `UPDATE .. SET status = BRIDGE_PROCESSING WHERE id = id AND status IN (..)`. -/
  | startProcessing (id : String)
  /-- The `SELECT` of `bridgeRepo.save(bridge)`. -/
  | loadStored (bridge : CrossChainBridge)
  /-- The `UPDATE` of `bridgeRepo.save(bridge)`, when the `SELECT` found `stored`. -/
  | updateBridge (stored bridge : CrossChainBridge)
  /-- The `INSERT` of `bridgeRepo.save(bridge)`. -/
  | insertBridge (bridge : CrossChainBridge)

/-- The replies. An insert replies whether the key was new, and the update of the status whether a
row was affected. -/
abbrev Stmt.Reply : Stmt → Type
  | .findBridge _ => Option CrossChainBridge
  | .insertApproval _ => Bool
  | .incrementApprovals _ => Unit
  | .startProcessing _ => Bool
  | .loadStored _ => Option CrossChainBridge
  | .updateBridge _ _ => Unit
  | .insertBridge _ => Bool

/-- The effect of a row write. -/
def Write.apply : Write → BridgeDb → BridgeDb
  | .bridge b, d => { d with bridges := d.bridges.save b }
  | .approval a, d => { d with approvals := d.approvals.save a }

/-- The row a write goes to. -/
def Write.target : Write → Option RowKey
  | .bridge b => some (.bridge b.id)
  | .approval a => some (.approval a.bridgeId a.signerId)

/-- A column of a saved row: it is written when the entity differs from the selected row. -/
def savedColumn {α : Type} [DecidableEq α] (stored entity row : α) : α :=
  if stored = entity then row else entity

/-- The row that `save` leaves: the columns in which the entity differs from the selected row
are written, the others stay. -/
def CrossChainBridge.overwrite (stored bridge row : CrossChainBridge) : CrossChainBridge where
  id := row.id
  userId := savedColumn stored.userId bridge.userId row.userId
  sourceNetwork := savedColumn stored.sourceNetwork bridge.sourceNetwork row.sourceNetwork
  destinationNetwork :=
    savedColumn stored.destinationNetwork bridge.destinationNetwork row.destinationNetwork
  sourceAddress := savedColumn stored.sourceAddress bridge.sourceAddress row.sourceAddress
  destinationAddress :=
    savedColumn stored.destinationAddress bridge.destinationAddress row.destinationAddress
  amount := savedColumn stored.amount bridge.amount row.amount
  asset := savedColumn stored.asset bridge.asset row.asset
  status := savedColumn stored.status bridge.status row.status
  sourceTxHash := savedColumn stored.sourceTxHash bridge.sourceTxHash row.sourceTxHash
  destinationTxHash :=
    savedColumn stored.destinationTxHash bridge.destinationTxHash row.destinationTxHash
  multisigApprovals :=
    savedColumn stored.multisigApprovals bridge.multisigApprovals row.multisigApprovals
  multisigThreshold :=
    savedColumn stored.multisigThreshold bridge.multisigThreshold row.multisigThreshold
  errorMessage := savedColumn stored.errorMessage bridge.errorMessage row.errorMessage

/-- The bridge that leaves the statuses awaiting approvals. -/
def awaiting (d : BridgeDb) (id : String) : Option CrossChainBridge :=
  (d.bridges.find id).filter fun b => b.status.Awaiting

/-- The rows a statement locks. -/
def Stmt.locks : Stmt → BridgeDb → List RowKey
  | .insertApproval a, d =>
    if (d.approvals.find a.key).isSome then [] else [.approval a.bridgeId a.signerId]
  | .incrementApprovals id, d => if (d.bridges.find id).isSome then [.bridge id] else []
  | .startProcessing id, d => if (awaiting d id).isSome then [.bridge id] else []
  | .updateBridge _ bridge, d => if (d.bridges.find bridge.id).isSome then [.bridge bridge.id] else []
  | .insertBridge bridge, d => if (d.bridges.find bridge.id).isSome then [] else [.bridge bridge.id]
  | _, _ => []

/-- The reply of a statement. -/
def Stmt.reply : (c : Stmt) → BridgeDb → c.Reply
  | .findBridge id, d => d.bridges.find id
  | .insertApproval a, d => (d.approvals.find a.key).isNone
  | .incrementApprovals _, _ => ()
  | .startProcessing id, d => (awaiting d id).isSome
  | .loadStored bridge, d => d.bridges.find bridge.id
  | .updateBridge _ _, _ => ()
  | .insertBridge bridge, d => (d.bridges.find bridge.id).isNone

/-- The writes of a statement. -/
def Stmt.writes : Stmt → BridgeDb → List Write
  | .insertApproval a, d => if (d.approvals.find a.key).isSome then [] else [.approval a]
  | .incrementApprovals id, d =>
    match d.bridges.find id with
    | none => []
    | some b => [.bridge { b with multisigApprovals := b.multisigApprovals + 1 }]
  | .startProcessing id, d =>
    match awaiting d id with
    | none => []
    | some b => [.bridge { b with status := .bridgeProcessing }]
  | .updateBridge stored bridge, d =>
    match d.bridges.find bridge.id with
    | none => []
    | some row => [.bridge (stored.overwrite bridge row)]
  | .insertBridge bridge, d => if (d.bridges.find bridge.id).isSome then [] else [.bridge bridge]
  | _, _ => []

theorem awaiting_eq_some {d : BridgeDb} {id : String} {b : CrossChainBridge} :
    awaiting d id = some b ↔ d.bridges.find id = some b ∧ b.status.Awaiting := by
  simp [awaiting, Option.filter_eq_some_iff]

theorem Stmt.locks_of_writes (c : Stmt) (d : BridgeDb) (w : Write) (k : RowKey)
    (hw : w ∈ c.writes d) (hk : w.target = some k) : k ∈ c.locks d := by
  -- a statement writes one row at most, the one that it has found or inserts
  cases c with
  | insertApproval a =>
    by_cases hfind : (d.approvals.find a.key).isSome
    · simp [Stmt.writes, hfind] at hw
    · obtain rfl : w = .approval a := by simpa [Stmt.writes, hfind] using hw
      obtain rfl : RowKey.approval a.bridgeId a.signerId = k := by simpa [Write.target] using hk
      simp [Stmt.locks, hfind]
  | incrementApprovals id =>
    cases hfind : d.bridges.find id with
    | none => simp [Stmt.writes, hfind] at hw
    | some b =>
      obtain rfl : w = .bridge { b with multisigApprovals := b.multisigApprovals + 1 } := by
        simpa [Stmt.writes, hfind] using hw
      obtain rfl : RowKey.bridge b.id = k := by simpa [Write.target] using hk
      have hid : b.id = id := Table.key_of_find hfind
      simp [Stmt.locks, hfind, hid]
  | startProcessing id =>
    cases hfind : awaiting d id with
    | none => simp [Stmt.writes, hfind] at hw
    | some b =>
      obtain rfl : w = .bridge { b with status := .bridgeProcessing } := by
        simpa [Stmt.writes, hfind] using hw
      obtain rfl : RowKey.bridge b.id = k := by simpa [Write.target] using hk
      have hid : b.id = id := Table.key_of_find (awaiting_eq_some.mp hfind).1
      simp [Stmt.locks, hfind, hid]
  | updateBridge stored bridge =>
    cases hfind : d.bridges.find bridge.id with
    | none => simp [Stmt.writes, hfind] at hw
    | some row =>
      obtain rfl : w = .bridge (stored.overwrite bridge row) := by
        simpa [Stmt.writes, hfind] using hw
      obtain rfl : RowKey.bridge row.id = k := by
        simpa [Write.target, CrossChainBridge.overwrite] using hk
      have hid : row.id = bridge.id := Table.key_of_find hfind
      simp [Stmt.locks, hfind, hid]
  | insertBridge bridge =>
    by_cases hfind : (d.bridges.find bridge.id).isSome
    · simp [Stmt.writes, hfind] at hw
    · obtain rfl : w = .bridge bridge := by simpa [Stmt.writes, hfind] using hw
      obtain rfl : RowKey.bridge bridge.id = k := by simpa [Write.target] using hk
      simp [Stmt.locks, hfind]
  | findBridge | loadStored => simp [Stmt.writes] at hw

/-- The SQL of the bridge service. -/
def bridgeSql : Dialect Stmt Stmt.Reply BridgeDb Write RowKey where
  apply := Write.apply
  locks := Stmt.locks
  reply := Stmt.reply
  writes := Stmt.writes
  target := Write.target
  locks_of_writes := Stmt.locks_of_writes

/-- The statement locks the bridge, and writes it. -/
structure Stmt.Updates (c : Stmt) (d : BridgeDb) (id : String) (b : CrossChainBridge) : Prop where
  locks : RowKey.bridge id ∈ bridgeSql.locks c d
  writes : bridgeSql.writes c d = [.bridge b]
  id : b.id = id

/-- The insert of an approval, under a key that is free. -/
theorem insertApproval_new {d : BridgeDb} {a : BridgeApproval} (h : d.approvals.find a.key = none) :
    RowKey.approval a.bridgeId a.signerId ∈ bridgeSql.locks (.insertApproval a) d ∧
      bridgeSql.writes (.insertApproval a) d = [.approval a] := by
  constructor
  · show _ ∈ Stmt.locks (.insertApproval a) d
    simp [Stmt.locks, h]
  · show Stmt.writes (.insertApproval a) d = _
    simp [Stmt.writes, h]

/-- The increment of a stored bridge. -/
theorem incrementApprovals_stored {d : BridgeDb} {id : String} {b : CrossChainBridge}
    (h : d.bridges.find id = some b) :
    (Stmt.incrementApprovals id).Updates d id
      { b with multisigApprovals := b.multisigApprovals + 1 } where
  locks := by
    show _ ∈ Stmt.locks (.incrementApprovals id) d
    simp [Stmt.locks, h]
  writes := by
    show Stmt.writes (.incrementApprovals id) d = _
    simp [Stmt.writes, h]
  id := show b.id = id from Table.key_of_find h

/-- The update of the status is refused and changes nothing, or the bridge awaits approvals. -/
theorem startProcessing_cases (id : String) (d : BridgeDb) :
    (bridgeSql.writes (.startProcessing id) d = [] ∧ Stmt.reply (.startProcessing id) d = false) ∨
      ∃ b, d.bridges.find id = some b ∧ b.status.Awaiting ∧
        (Stmt.startProcessing id).Updates d id { b with status := .bridgeProcessing } ∧
        Stmt.reply (.startProcessing id) d = true := by
  cases hfind : awaiting d id with
  | none =>
    refine .inl ⟨?_, congrArg Option.isSome hfind⟩
    show Stmt.writes (.startProcessing id) d = _
    simp [Stmt.writes, hfind]
  | some b =>
    obtain ⟨hb, hwait⟩ := awaiting_eq_some.mp hfind
    have hid : b.id = id := Table.key_of_find hb
    refine .inr ⟨b, hb, hwait, ⟨?_, ?_, hid⟩, congrArg Option.isSome hfind⟩
    · show _ ∈ Stmt.locks (.startProcessing id) d
      simp [Stmt.locks, hfind]
    · show Stmt.writes (.startProcessing id) d = _
      simp [Stmt.writes, hfind]

/-- What is stored at a key: the bridge, or the approval. -/
@[ext] structure Row where
  bridge : Option CrossChainBridge
  approval : Option BridgeApproval

/-- The row of a key is protected by its lock. -/
def bridgeRows : bridgeSql.Rows Row where
  obs
    | .bridge id, d => ⟨d.bridges.find id, none⟩
    | .approval bridgeId signerId, d => ⟨none, d.approvals.find (bridgeId, signerId)⟩
  frame := by
    intro w d k hw
    cases w with
    | bridge b =>
      cases k with
      | bridge id =>
        have hne : id ≠ b.id := fun e => hw (congrArg (fun id => some (RowKey.bridge id)) e.symm)
        exact Row.ext (Table.find_save_of_ne _ hne) rfl
      | approval bridgeId signerId => rfl
    | approval a =>
      cases k with
      | bridge id => rfl
      | approval bridgeId signerId =>
        have hne : (bridgeId, signerId) ≠ a.key := by
          intro e
          obtain ⟨rfl, rfl⟩ := Prod.mk.inj e
          exact hw rfl
        exact Row.ext rfl (Table.find_save_of_ne _ hne)
  congr := by
    intro w d d' k h
    cases w with
    | bridge b =>
      cases k with
      | bridge id =>
        have hfind : d.bridges.find id = d'.bridges.find id := congrArg Row.bridge h
        simp only [bridgeSql, Write.apply, Table.find_save, hfind]
      | approval bridgeId signerId => exact h
    | approval a =>
      cases k with
      | bridge id => exact h
      | approval bridgeId signerId =>
        have hfind : d.approvals.find (bridgeId, signerId) = d'.approvals.find (bridgeId, signerId) :=
          congrArg Row.approval h
        simp only [bridgeSql, Write.apply, Table.find_save, hfind]

/-- Programs of statements: the body of a transaction. -/
abbrev Tx (α : Type) := Prog Stmt Stmt.Reply BridgeError α

/-- A statement. -/
abbrev query (c : Stmt) : Tx c.Reply := Prog.perform c

/-- The sessions of the bridge service. -/
abbrev BridgeSession (α : Type) := Session (C := Stmt) Stmt.Reply ApprovalOutcome BridgeError α

/-- A statement outside any transaction. -/
abbrev bare (c : Stmt) : BridgeSession c.Reply := autocommit c

end Bridges
