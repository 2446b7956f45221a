import PeerX.Bridges.Executions
import Mathlib.Data.List.Count

/-!
# Bridges: the quorum

The approvals that are stored for a bridge are those that were there and those that were committed,
each signer once. So the commit that starts `executeBridge` has found as many authorized signers as
the threshold asks for, and it is the only one. The counter of the bridge is the number of its
approvals, unless an execution saves the bridge after a late approval was counted.

## Main results

* `signersOf_perm`: the signers of the stored approvals
* `executed_once`: a bridge is executed at most once, with a quorum
* `approvals_counted`: the counter is the number of the approvals
-/

namespace Bridges

open Relational Concurrency

variable {ι : Type}

theorem mem_signersOf {d : BridgeDb} {id signerId : String} :
    signerId ∈ d.signersOf id ↔ (⟨id, signerId⟩ : BridgeApproval) ∈ d.approvals.rows := by
  simp only [BridgeDb.signersOf, BridgeDb.approvalsOf, List.mem_map, List.mem_filter, decide_eq_true_eq]
  constructor
  · rintro ⟨a, ⟨ha, rfl⟩, rfl⟩
    exact ha
  · exact fun h => ⟨_, ⟨h, rfl⟩, rfl⟩

theorem nodup_signersOf (d : BridgeDb) (id : String) : (d.signersOf id).Nodup := by
  have hrows : d.approvals.rows.Nodup := d.approvals.nodup.of_map
  refine (hrows.filter _).map_on fun a ha a' ha' he => ?_
  have hid : ∀ x ∈ d.approvals.rows.filter (·.bridgeId = id), x.bridgeId = id :=
    fun x hx => of_decide_eq_true (List.mem_filter.mp hx).2
  obtain ⟨bridgeId, signerId⟩ := a
  obtain ⟨bridgeId', signerId'⟩ := a'
  obtain rfl : signerId = signerId' := he
  rw [show bridgeId = id from hid _ ha, show bridgeId' = id from hid _ ha']

theorem count_signersOf (d : BridgeDb) (id signerId : String) : (d.signersOf id).count signerId =
    if (d.approvals.find (id, signerId)).isSome then 1 else 0 := by
  have hmem : signerId ∈ d.signersOf id ↔ (d.approvals.find (id, signerId)).isSome := by
    rw [mem_signersOf, Table.mem_rows_iff]
    constructor
    · exact fun h => Option.isSome_iff_exists.mpr ⟨_, h⟩
    · intro h
      obtain ⟨a, ha⟩ := Option.isSome_iff_exists.mp h
      have hkey : a.key = (id, signerId) := Table.key_of_find ha
      obtain ⟨rfl, rfl⟩ := Prod.mk.inj hkey
      exact ha
  by_cases h : signerId ∈ d.signersOf id
  · rw [if_pos (hmem.mp h), List.count_eq_one_of_mem (nodup_signersOf d id) h]
  · rw [if_neg fun hs => h (hmem.mpr hs), List.count_eq_zero_of_not_mem h]

section Signers

variable {authorizedSigners : List String} {calls : ι → Call} {d₀ : BridgeDb} {fresh : Prop}
  {id : String} {s : BridgeServer ι}

/-- The signers of the committed approvals of a bridge. -/
def committedSigners (calls : ι → Call) (id : String) (h : List (Commit ι Write ApprovalOutcome)) :
    List String :=
  (h.filter (Approves calls id ·)).map fun r => (calls r.thread).signerId

theorem count_committedSigners (signerId : String) (h : List (Commit ι Write ApprovalOutcome)) :
    (committedSigners calls id h).count signerId = approvalsAs calls id signerId h := by
  simp only [committedSigners, List.count, List.countP_map, List.countP_filter, approvalsAs]
  refine List.countP_congr fun r _ => ?_
  simp [ApprovesAs, and_comm]

theorem length_committedSigners (h : List (Commit ι Write ApprovalOutcome)) :
    (committedSigners calls id h).length = approvals calls id h := by
  rw [committedSigners, List.length_map, approvals, List.countP_eq_length_filter]

/-- **The stored approvals** are those that were there and those that were committed. -/
theorem signersOf_perm
    (hinv : HistoryInv bridgeRows (approvalSpec authorizedSigners calls d₀ fresh) s) :
    (s.committed.signersOf id).Perm (d₀.signersOf id ++ committedSigners calls id s.history) := by
  refine List.perm_iff_count.mpr fun signerId => ?_
  have hgood : ApprovalGood authorizedSigners calls d₀ id signerId s.history
      (s.committed.approvals.find (id, signerId)) := hinv.good (.approval id signerId)
  rw [List.count_append, count_signersOf, count_signersOf, count_committedSigners, hgood.stored]

theorem length_signersOf
    (hinv : HistoryInv bridgeRows (approvalSpec authorizedSigners calls d₀ fresh) s) :
    (s.committed.signersOf id).length = (d₀.signersOf id).length + approvals calls id s.history := by
  rw [(signersOf_perm hinv).length_eq, List.length_append, length_committedSigners]

/-- Every signer with a stored approval was authorized, or was there before. -/
theorem authorized_of_mem
    (hinv : HistoryInv bridgeRows (approvalSpec authorizedSigners calls d₀ fresh) s) {signerId : String}
    (h : signerId ∈ s.committed.signersOf id) :
    signerId ∈ d₀.signersOf id ∨ signerId ∈ authorizedSigners := by
  have hgood : ApprovalGood authorizedSigners calls d₀ id signerId s.history
      (s.committed.approvals.find (id, signerId)) := hinv.good (.approval id signerId)
  refine (List.mem_append.mp ((signersOf_perm hinv).mem_iff.mp h)).imp_right fun hmem => ?_
  refine hgood.authorized ?_
  rw [← count_committedSigners]
  exact List.count_pos_iff.mpr hmem

end Signers

section Quorum

variable {authorizedSigners : List String} {calls : ι → Call} {d₀ : BridgeDb} {id : String}
  [DecidableEq ι]

/-- No more approvals of the bridge are counted than are stored, all of authorized signers. -/
structure BridgeDb.Sound (authorizedSigners : List String) (d : BridgeDb) (id : String) : Prop where
  counted : ∀ bridge ∈ d.bridges.find id, bridge.multisigApprovals ≤ (d.signersOf id).length
  authorized : ∀ signerId ∈ d.signersOf id, signerId ∈ authorizedSigners

/-- The bridge has a quorum: as many authorized signers as its threshold asks for have an
approval of it, each one once. -/
def Quorum (authorizedSigners : List String) (d : BridgeDb) (id : String) : Prop :=
  ∃ bridge, d.bridges.find id = some bridge ∧ ∃ signers : List String, signers.Nodup ∧
    bridge.multisigThreshold ≤ signers.length ∧ ∀ signerId ∈ signers,
      signerId ∈ authorizedSigners ∧ (⟨id, signerId⟩ : BridgeApproval) ∈ d.approvals.rows

/-- **A bridge is executed at most once, and with a quorum**, in every run of any number of calls
that name the bridges as their rows do. -/
theorem executed_once (hd : d₀.Sound authorizedSigners id) (hspelled : ∀ i, (calls i).Spelled)
    {c : Approving ι} {is : List ι}
    (hr : (approving authorizedSigners calls d₀).run (bridgeSql.machine ApprovalOutcome ι) is =
      some c) : executions id c.shared.history ≤ 1 ∧
    (0 < executions id c.shared.history → Quorum authorizedSigners c.shared.committed id) := by
  have hadmitted : (approving authorizedSigners calls d₀).Admitted
      (bridgeSql.machine ApprovalOutcome ι) (Admits False) is :=
    Config.admitted_of_forall (fun _ _ _ hfresh => hfresh.elim) is _
  have hinv := good_of_run hspelled hr hadmitted
  have hgood : BridgeGood calls d₀ False id c.shared.history (c.shared.committed.bridges.find id) :=
    hinv.good (.bridge id)
  refine ⟨hgood.once, fun hpos => ?_⟩
  cases hbridge : c.shared.committed.bridges.find id with
  | none =>
    exact absurd (hgood.absent hbridge).2 (Nat.ne_of_gt hpos)
  | some bridge =>
    refine ⟨bridge, hbridge, c.shared.committed.signersOf id, nodup_signersOf _ _, ?_,
      fun signerId hmem => ⟨?_, mem_signersOf.mp hmem⟩⟩
    · have hstart : startCount d₀ id ≤ (d₀.signersOf id).length := by
        cases hfind : d₀.bridges.find id with
        | none => simp [startCount, hfind]
        | some b =>
          have hle := hd.counted b hfind
          simpa [startCount, hfind] using hle
      -- the signers at the start, and one for each approval since
      calc bridge.multisigThreshold = startThreshold d₀ id := hgood.threshold bridge hbridge
        _ ≤ startCount d₀ id + approvals calls id c.shared.history := hgood.reached hpos
        _ ≤ (d₀.signersOf id).length + approvals calls id c.shared.history :=
          Nat.add_le_add_right hstart _
        _ = (c.shared.committed.signersOf id).length := (length_signersOf hinv).symm
    · exact (authorized_of_mem hinv hmem).elim (hd.authorized signerId) fun h => h

/-- The id of a bridge, as its row has it. -/
def bridgeId₁ : String := "0d3bd4ab-6a56-4d6c-a6e3-14c2e4d3a5f1"

/-- A bridge to Stellar that was just initiated. -/
def initiated (multisigThreshold : ℕ) : BridgeDb where
  bridges := ⟨[newBridge multisigThreshold bridgeId₁ "user-1" .ethereum .stellar "0xABC" "GDEST" "50"],
    by simp⟩
  approvals := Table.empty

/-- Three signers approve the bridge. -/
def approvedBy : Fin 3 → Call
  | 0 => { bridgeId := bridgeId₁, signerId := "signer-1" }
  | 1 => { bridgeId := bridgeId₁, signerId := "signer-2" }
  | 2 => { bridgeId := bridgeId₁, signerId := "signer-3" }

/-- Two approvals execute the bridge. -/
theorem executed_once_by_two :
    ∃ c, (approving ["signer-1", "signer-2", "signer-3"] approvedBy (initiated 2)).run
      (bridgeSql.machine ApprovalOutcome (Fin 3)) [0, 1, 0, 0, 0, 0, 1, 1, 1, 1, 1] = some c ∧
    executions bridgeId₁ c.shared.history = 1 ∧
    Quorum ["signer-1", "signer-2", "signer-3"] c.shared.committed bridgeId₁ := by
  have hrun : ((approving ["signer-1", "signer-2", "signer-3"] approvedBy (initiated 2)).run
      (bridgeSql.machine ApprovalOutcome (Fin 3)) [0, 1, 0, 0, 0, 0, 1, 1, 1, 1, 1]).any
        fun c => executions bridgeId₁ c.shared.history = 1 := by
    decide +kernel
  obtain ⟨c, hc, hone⟩ := (Option.any_eq_true _ _).mp hrun
  replace hone := of_decide_eq_true hone
  have hsound : (initiated 2).Sound ["signer-1", "signer-2", "signer-3"] bridgeId₁ :=
    ⟨by decide +kernel, by decide +kernel⟩
  exact ⟨c, hc, hone, (executed_once hsound (by decide +kernel) hc).2 (hone ▸ Nat.one_pos)⟩

/-- One signer names the bridge in lower and in upper case. -/
def approvedTwice : Fin 2 → Call
  | 0 => { bridgeId := bridgeId₁, signerId := "signer-1" }
  | 1 => { bridgeId := "0D3BD4AB-6A56-4D6C-A6E3-14C2E4D3A5F1", signerId := "signer-1" }

/-- **One signer executes the bridge alone**: its two approvals have different texts, and both
count. -/
theorem executed_by_one : ∃ c, (approving ["signer-1"] approvedTwice (initiated 2)).run
      (bridgeSql.machine ApprovalOutcome (Fin 2)) ([0, 0, 0, 0, 0] ++ [1, 1, 1, 1, 1, 1]) = some c ∧
    executions bridgeId₁ c.shared.history = 1 ∧ ¬ Quorum ["signer-1"] c.shared.committed bridgeId₁ := by
  have hrun : ((approving ["signer-1"] approvedTwice (initiated 2)).run
      (bridgeSql.machine ApprovalOutcome (Fin 2)) ([0, 0, 0, 0, 0] ++ [1, 1, 1, 1, 1, 1])).any
      fun c => executions bridgeId₁ c.shared.history = 1 ∧
        ∀ bridge ∈ c.shared.committed.bridges.find bridgeId₁, bridge.multisigThreshold = 2 := by
    decide +kernel
  obtain ⟨c, hc, hrest⟩ := (Option.any_eq_true _ _).mp hrun
  obtain ⟨hone, hthreshold⟩ := of_decide_eq_true hrest
  refine ⟨c, hc, hone, ?_⟩
  rintro ⟨bridge, hbridge, signers, hnodup, hle, hsigners⟩
  -- there is only one authorized signer
  have hlength : signers.length ≤ 1 :=
    (List.subperm_of_subset hnodup fun s hs => (hsigners s hs).1).length_le
  rw [hthreshold bridge hbridge] at hle
  exact absurd (hle.trans hlength) (by decide)

/-- **The counter is the number of the approvals**, in every state of a run whose saves find the
counter that their execution has read. -/
theorem approvals_counted {b₀ : CrossChainBridge} (hfind : d₀.bridges.find id = some b₀)
    (hd : b₀.multisigApprovals = (d₀.approvalsOf id).length) (hspelled : ∀ i, (calls i).Spelled)
    {c : Approving ι} {is : List ι}
    (hr : (approving authorizedSigners calls d₀).run (bridgeSql.machine ApprovalOutcome ι) is =
      some c)
    (ha : (approving authorizedSigners calls d₀).Admitted (bridgeSql.machine ApprovalOutcome ι)
      FreshSave is) :
    ∀ bridge ∈ c.shared.committed.bridges.find id,
      bridge.multisigApprovals = (c.shared.committed.approvalsOf id).length := by
  intro bridge hbridge
  have hadmitted : (approving authorizedSigners calls d₀).Admitted
      (bridgeSql.machine ApprovalOutcome ι) (Admits True) is := ha.mono fun _ _ _ h _ => h
  have hinv := good_of_run hspelled hr hadmitted
  have hgood : BridgeGood calls d₀ True id c.shared.history (c.shared.committed.bridges.find id) :=
    hinv.good (.bridge id)
  have hstart : startCount d₀ id = (d₀.signersOf id).length := by
    simp [startCount, hfind, hd, BridgeDb.signersOf]
  calc bridge.multisigApprovals = startCount d₀ id + approvals calls id c.shared.history :=
        hgood.counted bridge hbridge (.inl trivial)
    _ = (c.shared.committed.signersOf id).length := by rw [length_signersOf hinv, hstart]
    _ = (c.shared.committed.approvalsOf id).length := List.length_map _

/-- Two approvals, the execution, and a third approval that is refused. -/
theorem approvals_counted_executed :
    ∃ c, (approving ["signer-1", "signer-2", "signer-3"] approvedBy (initiated 2)).run
      (bridgeSql.machine ApprovalOutcome (Fin 3)) ([0, 0, 0, 0, 0] ++ [1, 1, 1, 1, 1, 1] ++
        [1, 1, 1, 1] ++ [2, 2]) = some c ∧
    ∃ bridge, c.shared.committed.bridges.find bridgeId₁ = some bridge ∧ bridge.status = .completed ∧
      bridge.multisigApprovals = (c.shared.committed.approvalsOf bridgeId₁).length := by
  have hrun : ((approving ["signer-1", "signer-2", "signer-3"] approvedBy (initiated 2)).run
      (bridgeSql.machine ApprovalOutcome (Fin 3)) ([0, 0, 0, 0, 0] ++ [1, 1, 1, 1, 1, 1] ++
        [1, 1, 1, 1] ++ [2, 2])).any
      fun c => (c.shared.committed.bridges.find bridgeId₁).any fun bridge => bridge.status = .completed := by
    decide +kernel
  obtain ⟨c, hc, hbridge⟩ := (Option.any_eq_true _ _).mp hrun
  obtain ⟨bridge, hfind, hstatus⟩ := (Option.any_eq_true _ _).mp hbridge
  exact ⟨c, hc, bridge, hfind, of_decide_eq_true hstatus,
    approvals_counted rfl rfl (by decide +kernel) hc (by decide +kernel) bridge hfind⟩

/-- **A late approval is counted and lost.** The third call has passed the status check before the
second one moves the bridge on; its approval is counted before the execution saves the bridge. -/
theorem approval_lost :
    ∃ c, (approving ["signer-1", "signer-2", "signer-3"] approvedBy (initiated 2)).run
      (bridgeSql.machine ApprovalOutcome (Fin 3)) ([0, 0, 0, 0, 0] ++ [2] ++ [1, 1, 1, 1, 1, 1] ++
        [2, 2, 2, 2, 2] ++ [1, 1, 1, 1]) = some c ∧
    (∀ i, (c.threads i).returned) ∧ ∃ bridge, c.shared.committed.bridges.find bridgeId₁ = some bridge ∧
      bridge.multisigApprovals = 2 ∧ (c.shared.committed.approvalsOf bridgeId₁).length = 3 := by
  have hrun : ((approving ["signer-1", "signer-2", "signer-3"] approvedBy (initiated 2)).run
      (bridgeSql.machine ApprovalOutcome (Fin 3)) ([0, 0, 0, 0, 0] ++ [2] ++ [1, 1, 1, 1, 1, 1] ++
        [2, 2, 2, 2, 2] ++ [1, 1, 1, 1])).any fun c => (∀ i, (c.threads i).returned) ∧
        (c.shared.committed.bridges.find bridgeId₁).any fun bridge => bridge.multisigApprovals = 2 ∧
          (c.shared.committed.approvalsOf bridgeId₁).length = 3 := by
    decide +kernel
  obtain ⟨c, hc, hrest⟩ := (Option.any_eq_true _ _).mp hrun
  obtain ⟨hreturned, hbridge⟩ := of_decide_eq_true hrest
  obtain ⟨bridge, hfind, hcounts⟩ := (Option.any_eq_true _ _).mp hbridge
  exact ⟨c, hc, hreturned, bridge, hfind, of_decide_eq_true hcounts⟩

end Quorum

end Bridges
