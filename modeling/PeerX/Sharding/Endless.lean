import PeerX.Sharding.Arrivals
import PeerX.Sharding.Settling

/-!
# Sharding: rebalancings that do not end

A full batch is read again until one of its records is removed. When no shard can be full at its
turn, a rebalancing ends, whatever fails. When one can, there are failures for which it does not
end: the moves of its records fail again and again. A batch of records that lie where they are
assigned to needs no failures for that.

## Main results

* `eval_shardPass`: what the pass of a shard leads to
* `canRun_turns`: any records can arrive that the shards before hold
* `exists_endless`: a shard that can be full
* `terminates_iff`: which rebalancings end whatever fails
-/

namespace Sharding

open Concurrency Relational Grouping
open Stream' (cycle const)

variable (env : Environment) (map : ShardMap) (foreignKeys : Bool) (now : ℤ)

/-! ## Rebalancings over a stream of fates -/

/-- The rebalancing of an entity class: what comes after it, when all loops have ended. -/
def rebalancedOver (entity : Entity) (fuel : ℕ) (course : Course String (String → DataSource)) :
    Option (Course String (String → DataSource)) :=
  let run := (rebalanceEntity env map now fuel map.shards : RowTask entity Bool).eval
    (shardService foreignKeys entity).serve course
  match run.1 with
  | .ok true => some run.2
  | _ => none

/-- `rebalanceShards`, when it completes. -/
def rebalanceShardsOver (fuel : ℕ) (course : Course String (String → DataSource)) :
    Option (Course String (String → DataSource)) :=
  if map.shards.length < 2 then some course
  else (rebalancedOver env map foreignKeys now .trade fuel course).bind
    (rebalancedOver env map foreignKeys now .userBalance fuel)

/-- A rebalancing terminates, whatever fails. -/
def Terminates (sources : String → DataSource) : Prop :=
  ∀ fates, ∃ fuel, (rebalanceShardsOver env map foreignKeys now fuel ⟨sources, fates⟩).isSome

/-- A pass of the loop of a shard, with what comes next when the batch was full. -/
def shardPass {entity : Entity} (fromShardId : String) (next : RowTask entity Bool) :
    RowTask entity Bool := do
  let records ← row (.find fromShardId batchSize 0)
  if records.length = 0 then return true
  else
    moveBatch map fromShardId (recordsToMove env map now fromShardId records)
    if records.length < batchSize then return true else next

variable {env map foreignKeys now} {entity : Entity} {d d' : String → DataSource}
    {fromShardId toShardId : String}
  {fuel : ℕ}

theorem rebalanceShard_succ (fuel : ℕ) :
    (rebalanceShard env map now fromShardId (fuel + 1) : RowTask entity Bool) =
    shardPass env map now fromShardId (rebalanceShard env map now fromShardId fuel) := rfl

/-! ## Bounds on the reads -/

section Bounds

variable {σ : Type} {h : (c : RowCommand entity) → σ → Except String c.Value × σ} {s s' : σ}

/-- **What a pass leads to**: the loop ends, or it goes on in another state. -/
theorem eval_shardPass (env : Environment) (map : ShardMap) (now : ℤ) (fromShardId : String)
    (h : (c : RowCommand entity) → σ → Except String c.Value × σ) (s : σ) :
    (∃ r : Except String Bool × σ, r.1 ≠ .ok false ∧
      ∀ next, (shardPass env map now fromShardId next).eval h s = r) ∨
      ∃ s', ∀ next, (shardPass env map now fromShardId next).eval h s = next.eval h s' := by
  simp only [shardPass, Prog.eval_bind]
  cases hread : (row (.find fromShardId batchSize 0) : RowTask entity _).eval h s with
  | mk o s₁ =>
  cases o with
  | error message => exact .inl ⟨(.error message, s₁), nofun, fun _ => rfl⟩
  | ok records =>
    dsimp only
    split
    · exact .inl ⟨(.ok true, s₁), nofun, fun _ => rfl⟩
    simp only [Prog.eval_bind]
    cases hmoved : (moveBatch map fromShardId
      (recordsToMove env map now fromShardId records)).eval h s₁ with
    | mk o s₂ =>
    cases o with
    | error message => exact .inl ⟨(.error message, s₂), nofun, fun _ => rfl⟩
    | ok done =>
      dsimp only
      split
      · exact .inl ⟨(.ok true, s₂), nofun, fun _ => rfl⟩
      · exact .inr ⟨s₂, fun _ => rfl⟩

/-- A loop that has ended does not depend on the bound. -/
theorem eval_rebalanceShard_succ
    (hended : ((rebalanceShard env map now fromShardId fuel : RowTask entity Bool).eval h s).1 ≠
      .ok false) :
    (rebalanceShard env map now fromShardId (fuel + 1) : RowTask entity Bool).eval h s =
      (rebalanceShard env map now fromShardId fuel : RowTask entity Bool).eval h s := by
  induction fuel generalizing s with
  | zero => exact absurd rfl hended
  | succ fuel ih =>
    rw [rebalanceShard_succ] at hended ⊢
    rw [rebalanceShard_succ fuel]
    rcases eval_shardPass env map now fromShardId h s with ⟨r, -, hr⟩ | ⟨s', hs'⟩
    · rw [hr, hr]
    · rw [hs'] at hended
      rw [hs', hs', ← ih hended, rebalanceShard_succ]

/-- The turns of the shards do not depend on the bound once they have ended. -/
theorem eval_rebalanceEntity_of_le {fuel' : ℕ} (hle : fuel ≤ fuel') {shardIds : List String}
    (hended : (rebalanceEntity env map now fuel shardIds : RowTask entity Bool).eval h s =
      (.ok true, s')) :
    (rebalanceEntity env map now fuel' shardIds : RowTask entity Bool).eval h s =
      (.ok true, s') := by
  induction hle with
  | refl => exact hended
  | @step fuel' _ ih =>
    clear hended
    induction shardIds generalizing s with
    | nil => exact ih
    | cons fromShardId shardIds ih' =>
      obtain ⟨ended, s₁, hfirst, hrest⟩ := Prog.eval_bind_ok h ih
      cases ended with
      | false => cases hrest
      | true =>
        have hturn :
          (tryCatch (rebalanceShard env map now fromShardId (fuel' + 1) : RowTask entity Bool)
            fun _ => pure true).eval h s = (.ok true, s₁) := by
          rw [Prog.eval_tryCatch] at hfirst ⊢
          rwa [eval_rebalanceShard_succ fun hfalse => ?_]
          rcases hrun : (rebalanceShard env map now fromShardId fuel' : RowTask entity Bool).eval h
            s with ⟨o, s₂⟩
          rw [hrun] at hfirst hfalse
          obtain rfl : o = .ok false := hfalse
          cases hfirst
        rw [rebalanceEntity_cons, Prog.eval_bind, hturn]
        exact ih' hrest

theorem eval_rebalanceEntity_append {pre post : List String}
    (hpre : (rebalanceEntity env map now fuel pre : RowTask entity Bool).eval h s =
      (.ok true, s')) :
    (rebalanceEntity env map now fuel (pre ++ post) : RowTask entity Bool).eval h s =
      (rebalanceEntity env map now fuel post : RowTask entity Bool).eval h s' := by
  induction pre generalizing s with
  | nil =>
    cases hpre
    rfl
  | cons fromShardId pre ih =>
    obtain ⟨ended, s₁, hfirst, hrest⟩ := Prog.eval_bind_ok h hpre
    cases ended with
    | false => cases hrest
    | true =>
      rw [List.cons_append, rebalanceEntity_cons, Prog.eval_bind, hfirst]
      exact ih hrest

end Bounds

/-! ## Runs that the failures allow -/

/-- The shards with one table changed. -/
def withStore (d : String → DataSource) (shardId : String) (store : Store entity) :
    String → DataSource :=
  Function.update d shardId (Function.update (d shardId) entity store)

theorem withStore_self (d : String → DataSource) (shardId : String) :
    withStore d shardId (d shardId entity) = d := by
  rw [withStore, Function.update_eq_self, Function.update_eq_self]

theorem withStore_withStore (store store' : Store entity) :
    withStore (withStore d toShardId store) toShardId store' = withStore d toShardId store' := by
  rw [withStore, withStore, Function.update_self, Function.update_idem,
    Function.update_idem, withStore]

theorem withStore_same (store : Store entity) :
    withStore d toShardId store toShardId entity = store :=
  (update_same toShardId).trans (if_pos rfl)

theorem recordsOn_withStore (store : Store entity) (hne : fromShardId ≠ toShardId) :
    recordsOn entity (withStore d toShardId store) fromShardId = recordsOn entity d fromShardId :=
  congrArg Indexed.rows ((update_same fromShardId).trans (if_neg hne))

theorem refers_withStore (hentity : entity ≠ .virtualAsset) (store : Store entity)
    (record : Stored entity) :
    Refers foreignKeys (withStore d toShardId store) toShardId record ↔
      Refers foreignKeys d toShardId record :=
  refers_congr hentity (fun shardId _ hother => update_other hother shardId) toShardId record

section Runs

variable {record : Stored entity} {records : List (Stored entity)} {store : Store entity}
  {refers : Stored entity → Prop} {groups : List (Option String × List (Stored entity))}

theorem not_includes_unique : ¬ (includes "" "UNIQUE" ∨ includes "" "already exists") := by decide

theorem canRun_skipRecord (d : String → DataSource) :
    (shardService foreignKeys entity).CanRun (moveRecord fromShardId toShardId record) d
    (.ok ()) d := by
  refine Service.canRun_tryCatch_error (Service.canRun_bind_error
    (Service.canRun_issue_throws _ "" d)) ?_
  rw [if_neg not_includes_unique]
  exact Service.canRun_ret () d

theorem canRun_saveRecord (hrefers : Refers foreignKeys d toShardId record)
    (hindex : ¬ (d toShardId entity).Conflicts record) :
    (shardService foreignKeys entity).CanRun (moveRecord fromShardId toShardId record) d (.ok ())
      (withStore d toShardId ((d toShardId entity).save record hindex)) := by
  refine Service.canRun_tryCatch_error
    (Service.canRun_bind (Service.canRun_issue (effect_save hindex hrefers))
    (Service.canRun_issue_throws _ "" _)) ?_
  rw [if_neg not_includes_unique]
  exact Service.canRun_ret () _

/-- Some records of a group arrive, and all of them stay. -/
theorem canRun_moveRecords (hentity : entity ≠ .virtualAsset)
    (hrefers : ∀ record, refers record → Refers foreignKeys d toShardId record)
    (h : Saves refers records (d toShardId entity) store) :
    (shardService foreignKeys entity).CanRun (moveRecords fromShardId toShardId records) d (.ok ())
      (withStore d toShardId store) := by
  induction records generalizing d with
  | nil =>
    cases h
    rw [withStore_self]
    exact Service.canRun_ret () d
  | cons record records ih =>
    cases h with
    | skip rest => exact Service.canRun_bind (canRun_skipRecord d) (ih hrefers rest)
    | save hrecord hindex rest =>
      have hrest := ih (d := withStore d toShardId ((d toShardId entity).save record hindex))
        (fun record h => (refers_withStore hentity _ record).mpr (hrefers record h))
          (by rwa [withStore_same])
      rw [withStore_withStore] at hrest
      exact Service.canRun_bind (canRun_saveRecord (hrefers record hrecord) hindex) hrest

theorem canRun_skipGroup (hentity : entity ≠ .virtualAsset) (targetShardId : Option String)
    (records : List (Stored entity)) (d : String → DataSource) :
    (shardService foreignKeys entity).CanRun (moveGroup map fromShardId targetShardId records) d
    (.ok ()) d := by
  unfold moveGroup
  split
  · exact Service.canRun_ret () d
  next toShardId _ =>
    have hnone : (shardService foreignKeys entity).CanRun
      (moveRecords fromShardId toShardId records) d (.ok ())
        (withStore d toShardId (d toShardId entity)) :=
      canRun_moveRecords hentity (fun _ (h : False) => h.elim) (.none records (d toShardId entity))
    rwa [withStore_self] at hnone

theorem canRun_skipBatch (map : ShardMap) (foreignKeys : Bool) (fromShardId : String)
    (hentity : entity ≠ .virtualAsset) (groups : List (Option String × List (Stored entity)))
    (d : String → DataSource) :
    (shardService foreignKeys entity).CanRun (moveBatch map fromShardId groups) d (.ok ()) d := by
  induction groups with
  | nil => exact Service.canRun_ret () d
  | cons group groups ih =>
    exact Service.canRun_bind (canRun_skipGroup hentity group.1 group.2 d) ih

/-- Some records of a batch arrive on a shard, and nothing else happens. -/
theorem canRun_moveBatch (hentity : entity ≠ .virtualAsset) (hshard : toShardId ∈ map.shards)
    (hgroups : Assigned env map now groups) (hrefers : ∀ record, refers record →
      Refers foreignKeys d toShardId record)
    (h : Saves refers (assignedTo env map now toShardId (groups.flatMap Prod.snd))
      (d toShardId entity) store) :
    (shardService foreignKeys entity).CanRun (moveBatch map fromShardId groups) d (.ok ())
      (withStore d toShardId store) := by
  induction groups generalizing d with
  | nil =>
    cases h
    rw [withStore_self]
    exact Service.canRun_ret () d
  | cons group groups ih =>
    obtain ⟨targetShardId, records⟩ := group
    obtain ⟨htarget, hrest⟩ := List.forall_mem_cons.mp hgroups
    rw [List.flatMap_cons, assignedTo_append] at h
    obtain ⟨middle, hfirst, hothers⟩ := h.split
    rw [assignedTo_of_forall htarget] at hfirst
    have hlater := ih (d := withStore d toShardId middle) hrest
      (fun record h => (refers_withStore hentity _ record).mpr (hrefers record h))
        (by rwa [withStore_same])
    rw [withStore_withStore] at hlater
    refine Service.canRun_bind (?_ : Service.CanRun _ _ d (.ok ())
      (withStore d toShardId middle)) hlater
    by_cases heq : targetShardId = some toShardId
    · subst heq
      rw [if_pos rfl] at hfirst
      rw [moveGroup, Option.filter_some, if_pos (decide_eq_true hshard)]
      exact canRun_moveRecords hentity hrefers hfirst
    · rw [if_neg heq] at hfirst
      cases hfirst
      rw [withStore_self]
      exact canRun_skipGroup hentity targetShardId records d

/-- Some records of a shard with few records arrive on another one, and its turn ends. -/
theorem canRun_turn (hentity : entity ≠ .virtualAsset) (hshard : toShardId ∈ map.shards)
    (hne : toShardId ≠ fromShardId) (hfew : (recordsOn entity d fromShardId).length < batchSize)
    (hrefers : ∀ record, refers record → Refers foreignKeys d toShardId record)
    (h : Saves refers (assignedTo env map now toShardId (recordsOn entity d fromShardId))
      (d toShardId entity) store) :
    (shardService foreignKeys entity).CanRun (rebalanceShard env map now fromShardId 1) d (.ok true)
      (withStore d toShardId store) := by
  have hread : (shardService foreignKeys entity).value d (.find fromShardId batchSize 0) =
      recordsOn entity d fromShardId := List.take_of_length_le hfew.le
  have heffect : (shardService foreignKeys entity).effect d
      (.find fromShardId batchSize 0) = .ok d := rfl
  refine Service.canRun_bind (Service.canRun_issue heffect) ?_
  rw [hread]
  split
  next hempty =>
    rw [List.length_eq_zero_iff.mp hempty] at h
    cases h
    rw [withStore_self]
    exact Service.canRun_ret true d
  next =>
    rw [← assignedTo_recordsToMove hne] at h
    refine Service.canRun_bind (canRun_moveBatch hentity hshard
      (assigned_recordsToMove env map now fromShardId _)
      hrefers h) ?_
    exact Service.canRun_ret true _

/-- **The records that shards with few records hold for another one arrive**, and their turns
end. -/
theorem canRun_turns (hentity : entity ≠ .virtualAsset) (hshard : toShardId ∈ map.shards)
    {pre : List String}
    (hfew : ∀ fromShardId ∈ pre, toShardId ≠ fromShardId ∧
      (recordsOn entity d fromShardId).length < batchSize)
    (hrefers : ∀ record, refers record → Refers foreignKeys d toShardId record)
    (h : Saves refers (heldFor env map now d toShardId pre) (d toShardId entity) store) :
    (shardService foreignKeys entity).CanRun (rebalanceEntity env map now 1 pre) d (.ok true)
      (withStore d toShardId store) := by
  induction pre generalizing d with
  | nil =>
    cases h
    rw [withStore_self]
    exact Service.canRun_ret true d
  | cons fromShardId pre ih =>
    obtain ⟨⟨hne, hfrom⟩, hrest⟩ := List.forall_mem_cons.mp hfew
    rw [heldFor, List.flatMap_cons] at h
    obtain ⟨middle, hfirst, hothers⟩ := h.split
    have hsame : ∀ shardId ∈ pre, recordsOn entity (withStore d toShardId middle) shardId =
        recordsOn entity d shardId :=
      fun shardId hmem => recordsOn_withStore middle (hrest shardId hmem).1.symm
    have hheld : heldFor env map now (withStore d toShardId middle) toShardId pre =
        (heldFor env map now d toShardId pre : List (Stored entity)) :=
      List.flatMap_congr fun shardId hmem => by rw [hsame shardId hmem]
    have hlater := ih (d := withStore d toShardId middle)
      (fun shardId hmem => ⟨(hrest shardId hmem).1,
        by rw [hsame shardId hmem]; exact (hrest shardId hmem).2⟩)
      (fun record h => (refers_withStore hentity _ record).mpr (hrefers record h))
      (by rw [hheld, withStore_same]; exact hothers)
    rw [withStore_withStore] at hlater
    exact Service.canRun_bind (Service.canRun_tryCatch
      (canRun_turn hentity hshard hne hfrom hrefers hfirst)) hlater

end Runs

/-! ## Endless rebalancings -/

/-- A pass over a full shard reads a batch, and goes on when the misplaced records of the batch were
processed. -/
theorem eval_shardPass_of_full (hfull : batchSize ≤ (recordsOn entity d fromShardId).length)
    {fates : Stream' (Fate String)} {course : Course String (String → DataSource)}
    (hmoved : (moveBatch map fromShardId (recordsToMove env map now fromShardId
      ((recordsOn entity d fromShardId).take batchSize))).eval
        (shardService foreignKeys entity).serve ⟨d, fates⟩ =
        (.ok (), course)) (next : RowTask entity Bool) :
    (shardPass env map now fromShardId next).eval (shardService foreignKeys entity).serve
      ⟨d, Stream'.cons .succeeds fates⟩ = next.eval
      (shardService foreignKeys entity).serve course := by
  have hlength : ((recordsOn entity d fromShardId).take batchSize).length = batchSize :=
    List.length_take_of_le hfull
  set records := (recordsOn entity d fromShardId).take batchSize with hrecords
  change (if records.length = 0 then pure true else
    moveBatch map fromShardId (recordsToMove env map now fromShardId records) >>= fun _ =>
      if records.length < batchSize then pure true else next : RowTask entity Bool).eval
        (shardService foreignKeys entity).serve ⟨d, fates⟩ = _
  rw [hlength, if_neg (by decide), Prog.eval_bind, hmoved]
  dsimp only
  rw [if_neg (lt_irrefl _)]

/-- A shard that is full is read again and again, when all moves of its records fail. -/
theorem eval_full (env : Environment) (map : ShardMap) (foreignKeys : Bool) (now : ℤ)
    (hentity : entity ≠ .virtualAsset)
    (hfull : batchSize ≤ (recordsOn entity d fromShardId).length) :
    ∃ fates, ∀ fuel, ((rebalanceShard env map now fromShardId fuel : RowTask entity Bool).eval
      (shardService foreignKeys entity).serve ⟨d, fates⟩).1 = .ok false := by
  obtain ⟨fates, hfates⟩ := canRun_skipBatch map foreignKeys fromShardId hentity
    (recordsToMove env map now fromShardId ((recordsOn entity d fromShardId).take batchSize)) d
  refine ⟨cycle (.succeeds :: fates) (List.cons_ne_nil _ _), fun fuel => ?_⟩
  refine congrArg Prod.fst (Service.eval_loop_of_cycle (List.cons_ne_nil _ _) rfl
    (fun n later => ?_) fuel)
  -- the read goes through, and the batch leads back to the same shards
  rw [rebalanceShard_succ]
  exact eval_shardPass_of_full hfull (hfates later) _

/-- **A shard that can be full at its turn**: some failures lead there, and then its loop does not
end. -/
theorem exists_endless (hentity : entity ≠ .virtualAsset) {pre post : List String}
    {store : Store entity} (hshards : map.shards = pre ++ fromShardId :: post)
    (hsaves : Saves (Refers foreignKeys d fromShardId) (heldFor env map now d fromShardId pre)
      (d fromShardId entity)
      store) (hfull : batchSize ≤ store.rows.length) :
    ∃ fates, ∀ fuel, ((rebalanceEntity env map now fuel map.shards : RowTask entity Bool).eval
      (shardService foreignKeys entity).serve ⟨d, fates⟩).1 ≠ .ok true := by
  induction hlength : pre.length using Nat.strong_induction_on generalizing pre fromShardId
    post store with
  | _ n ih =>
  subst hlength
  by_cases hfew : ∀ shardId ∈ pre, (recordsOn entity d shardId).length < batchSize
  · have hnodup := map.nodup
    rw [hshards] at hnodup
    have hshard : fromShardId ∈ map.shards := by simp [hshards]
    have hturns : (shardService foreignKeys entity).CanRun
      (rebalanceEntity env map now 1 pre) d (.ok true)
        (withStore d fromShardId store) :=
      canRun_turns hentity hshard
        (fun shardId hmem => ⟨((List.nodup_append.mp hnodup).2.2 shardId hmem _
        List.mem_cons_self).symm, hfew shardId hmem⟩) (fun _ h => h) hsaves
    have hstore : batchSize ≤
        (recordsOn entity (withStore d fromShardId store) fromShardId).length := by
      rw [recordsOn, withStore_same]
      exact hfull
    obtain ⟨fates, hfates⟩ := hturns
    obtain ⟨loop, hloop⟩ := eval_full env map foreignKeys now hentity hstore
    refine ⟨fates ++ₛ loop, fun fuel hended => ?_⟩
    -- a run that ends would end within more reads, too, and so would the loop
    have hrun := eval_rebalanceEntity_of_le (Nat.le_succ fuel) (Prod.ext hended rfl)
    rw [hshards,
      eval_rebalanceEntity_append (eval_rebalanceEntity_of_le (Nat.succ_le_succ (Nat.zero_le fuel))
      (hfates loop))] at hrun
    obtain ⟨ended, s₁, hturn, hrest⟩ := Prog.eval_bind_ok _ hrun
    have hfalse := hloop (fuel + 1)
    rw [Prog.eval_tryCatch] at hturn
    rcases hloops : (rebalanceShard env map now fromShardId (fuel + 1) : RowTask entity Bool).eval
      (shardService foreignKeys entity).serve ⟨withStore d fromShardId store, loop⟩ with ⟨o, s₂⟩
    rw [hloops] at hfalse hturn
    obtain rfl : o = .ok false := hfalse
    cases hturn
    cases hrest
  · push Not at hfew
    obtain ⟨shardId, hmem, hfull'⟩ := hfew
    obtain ⟨pre', post', hpre⟩ := List.append_of_mem hmem
    have hsplit : map.shards = pre' ++ shardId :: (post' ++ fromShardId :: post) := by
      rw [hshards, hpre, List.append_assoc, List.cons_append]
    exact ih pre'.length (by rw [hpre]; simp) hsplit (.none _ _) hfull' rfl

/-! ## Which rebalancings terminate -/

theorem rebalancedOver_eq_some {course course' : Course String (String → DataSource)} :
    rebalancedOver env map foreignKeys now entity fuel course = some course' ↔
      (rebalanceEntity env map now fuel map.shards : RowTask entity Bool).eval
      (shardService foreignKeys entity).serve
        course = (.ok true, course') := by
  unfold rebalancedOver
  dsimp only
  constructor
  · intro h
    split at h
    next hok => exact Prod.ext hok (Option.some.inj h)
    next => cases h
  · intro h
    rw [h]

/-- The records and the assets decide which shards can be full. -/
theorem NeverFull.congr (h : NeverFull env map foreignKeys now .userBalance d)
    (hsame : ∀ shardId other, other ≠ .trade → d' shardId other = d shardId other) :
    NeverFull env map foreignKeys now .userBalance d' := by
  intro pre shardId post hshards store hsaves
  have hrecords : ∀ shardId, recordsOn .userBalance d' shardId = recordsOn .userBalance d shardId :=
    fun shardId => congrArg Indexed.rows (hsame shardId .userBalance (by decide))
  refine h pre shardId post hshards store ?_
  rw [hsame shardId .userBalance (by decide)] at hsaves
  simp only [heldFor, hrecords] at hsaves
  refine hsaves.mono fun record hrefers hkeys => ?_
  have hassets := hrefers hkeys
  unfold DataSource.References at hassets ⊢
  rwa [hsame shardId .virtualAsset (by decide)] at hassets

theorem canRun_noReads (env : Environment) (map : ShardMap) (foreignKeys : Bool) (now : ℤ)
    (entity : Entity) (shardIds : List String) (d : String → DataSource) :
    (shardService foreignKeys entity).CanRun (rebalanceEntity env map now 1 shardIds) d
    (.ok true) d := by
  induction shardIds with
  | nil => exact Service.canRun_ret true d
  | cons fromShardId shardIds ih =>
    have hread : (shardService foreignKeys entity).CanRun
      (rebalanceShard env map now fromShardId 1) d
        (.error "") d := Service.canRun_bind_error (Service.canRun_issue_throws _ "" d)
    exact Service.canRun_bind (Service.canRun_tryCatch_error hread (Service.canRun_ret true d)) ih

/-- **Which rebalancings terminate, whatever fails**: those in which no shard can be full at its
turn. -/
theorem terminates_iff (env : Environment) (map : ShardMap) (foreignKeys : Bool) (now : ℤ)
    (sources : String → DataSource) : Terminates env map foreignKeys now sources ↔
      (2 ≤ map.shards.length → NeverFull env map foreignKeys now .trade sources ∧
        NeverFull env map foreignKeys now .userBalance sources) := by
  constructor
  · intro hterminates hshards
    have hcompleted : ∀ fates, ∃ fuel course course',
        (rebalanceEntity env map now fuel map.shards : RowTask .trade Bool).eval
          (shardService foreignKeys .trade).serve
          ⟨sources, fates⟩ = (.ok true, course) ∧
        (rebalanceEntity env map now fuel map.shards : RowTask .userBalance Bool).eval
          (shardService foreignKeys .userBalance).serve course = (.ok true, course') := by
      intro fates
      obtain ⟨fuel, hsome⟩ := hterminates fates
      rw [rebalanceShardsOver, if_neg (not_lt.mpr hshards)] at hsome
      obtain ⟨course', hcourse'⟩ := Option.isSome_iff_exists.mp hsome
      obtain ⟨course, htrades, hbalances⟩ := Option.bind_eq_some_iff.mp hcourse'
      exact ⟨fuel, course, course', rebalancedOver_eq_some.mp htrades,
        rebalancedOver_eq_some.mp hbalances⟩
    constructor
    · intro pre shardId post hsplit store hsaves
      by_contra hfull
      obtain ⟨fates, hfates⟩ := exists_endless (by decide) hsplit hsaves (not_lt.mp hfull)
      obtain ⟨fuel, course, course', htrades, -⟩ := hcompleted fates
      exact hfates fuel (congrArg Prod.fst htrades)
    · intro pre shardId post hsplit store hsaves
      by_contra hfull
      obtain ⟨fates, hfates⟩ := exists_endless (by decide) hsplit hsaves (not_lt.mp hfull)
      -- the trades are not read at all
      obtain ⟨skips, hskips⟩ := canRun_noReads env map foreignKeys now .trade map.shards sources
      obtain ⟨fuel, course, course', htrades, hbalances⟩ := hcompleted (skips ++ₛ fates)
      have hsame := (eval_rebalanceEntity_of_le (le_max_left 1 fuel) (hskips fates)).symm.trans
        (eval_rebalanceEntity_of_le (le_max_right 1 fuel) htrades)
      obtain ⟨-, rfl⟩ := Prod.mk.inj hsame
      exact hfates fuel (congrArg Prod.fst hbalances)
  · intro hnever fates
    refine ⟨1, ?_⟩
    unfold rebalanceShardsOver
    split
    · rfl
    next hshards =>
      obtain ⟨htrades, hbalances⟩ := hnever (not_lt.mp hshards)
      have hstart : ∀ (entity : Entity) (d : String → DataSource),
          Reached env map foreignKeys now entity d [] d :=
        fun _ _ => .start
      obtain ⟨hfirst, hreached⟩ :=
        reached_rebalanceEntity (by decide) 0 htrades rfl ⟨sources, fates⟩
        (hstart .trade sources)
      have hlater := hbalances.congr hreached.others
      obtain ⟨hsecond, -⟩ :=
        reached_rebalanceEntity (by decide) 0 hlater rfl _ (hstart .userBalance _)
      rw [rebalancedOver_eq_some.mpr (Prod.ext hfirst rfl), Option.bind_some,
        rebalancedOver_eq_some.mpr (Prod.ext hsecond rfl)]
      rfl

/-! ## Without failures -/

/-- A full batch of records that lie where they are assigned to is read again and again, when
nothing fails. -/
theorem eval_placed (env : Environment) (map : ShardMap) (foreignKeys : Bool) (now : ℤ)
    (hfull : batchSize ≤ (recordsOn entity d fromShardId).length)
    (hplaced : ∀ record ∈ (recordsOn entity d fromShardId).take batchSize,
      targetShard env map now record.row = some fromShardId) (fuel : ℕ) :
    (rebalanceShard env map now fromShardId fuel : RowTask entity Bool).eval
    (shardService foreignKeys entity).serve
      ⟨d, const .succeeds⟩ = (.ok false, ⟨d, const .succeeds⟩) := by
  have hnone : recordsToMove env map now fromShardId
      ((recordsOn entity d fromShardId).take batchSize) = [] := by
    rw [recordsToMove, List.filter_eq_nil_iff.mpr fun record hrecord => by
      simpa using hplaced record hrecord]
    rfl
  rw [← Stream'.cycle_singleton]
  refine Service.eval_loop_of_cycle (List.cons_ne_nil _ _) rfl (fun n later => ?_) fuel
  rw [rebalanceShard_succ]
  exact eval_shardPass_of_full hfull (by rw [hnone]; rfl) _

/-- The rebalancing of an entity class, when nothing fails, in the two models of the shards. -/
theorem rebalancedOver_calm (env : Environment) (map : ShardMap) (foreignKeys : Bool) (now : ℤ)
    (entity : Entity) (fuel : ℕ) (d : String → DataSource) : ∃ o : Option (String → DataSource),
    rebalancedOver env map foreignKeys now entity fuel ⟨d, const .succeeds⟩ =
        o.map (⟨·, const .succeeds⟩) ∧
      rebalanced env map foreignKeys now entity fuel ⟨d, []⟩ = o.map (⟨·, []⟩) := by
  have hserve : ∀ (c : RowCommand entity) (sources : String → DataSource) (db : ShardDb),
      db.sources = sources ∧ db.fates = [] →
        (serveRow foreignKeys c db).1 =
            ((shardService foreignKeys entity).serve c ⟨sources, const .succeeds⟩).1 ∧
          (serveRow foreignKeys c db).2.sources =
            ((shardService foreignKeys entity).serve c ⟨sources, const .succeeds⟩).2.state ∧
          (serveRow foreignKeys c db).2.fates = [] := by
    rintro c _ ⟨sources, fates⟩ ⟨rfl, rfl⟩
    rw [Service.serve_const, serveRow]
    have heffect : (shardService foreignKeys entity).effect sources c =
        c.effect foreignKeys sources := rfl
    rw [heffect]
    cases c.effect foreignKeys sources with
    | error message => exact ⟨rfl, rfl, rfl⟩
    | ok sources' =>
      refine ⟨?_, rfl, rfl⟩
      cases c <;> rfl
  obtain ⟨hreply, hfates, hsources, hempty⟩ :=
    Service.eval_calm (shardService foreignKeys entity) (serveRow foreignKeys)
    (fun sources db => db.sources = sources ∧ db.fates = []) hserve
    (rebalanceEntity env map now fuel map.shards : RowTask entity Bool) d ⟨d, []⟩ ⟨rfl, rfl⟩
  unfold rebalancedOver rebalanced
  dsimp only
  rw [hreply]
  generalize (rebalanceEntity env map now fuel map.shards : RowTask entity Bool).eval
    (serveRow foreignKeys) ⟨d, []⟩ = run' at hsources hempty
  generalize (rebalanceEntity env map now fuel map.shards : RowTask entity Bool).eval
    (shardService foreignKeys entity).serve ⟨d, const .succeeds⟩ = run at hfates hsources
  obtain ⟨o, state, fates⟩ := run
  obtain ⟨o', sources, fates'⟩ := run'
  obtain rfl : fates = const .succeeds := hfates
  obtain rfl : sources = state := hsources
  obtain rfl : fates' = [] := hempty
  rcases o with message | _ | _
  · exact ⟨none, rfl, rfl⟩
  · exact ⟨none, rfl, rfl⟩
  · exact ⟨some sources, rfl, rfl⟩

/-- The two models of the shards agree when nothing fails. -/
theorem rebalanceShardsOver_calm (env : Environment) (map : ShardMap) (foreignKeys : Bool) (now : ℤ)
    (fuel : ℕ) (d : String → DataSource) : ∃ o : Option (String → DataSource),
    rebalanceShardsOver env map foreignKeys now fuel ⟨d, const .succeeds⟩ =
        o.map (⟨·, const .succeeds⟩) ∧
      rebalanceShards env map foreignKeys now fuel ⟨d, []⟩ = o.map (⟨·, []⟩) := by
  unfold rebalanceShardsOver rebalanceShards
  split
  · exact ⟨some d, rfl, rfl⟩
  obtain ⟨o, hover, hrebalanced⟩ := rebalancedOver_calm env map foreignKeys now .trade fuel d
  rw [hover, hrebalanced]
  cases o with
  | none => exact ⟨none, rfl, rfl⟩
  | some d' => exact rebalancedOver_calm env map foreignKeys now .userBalance fuel d'

/-! ## A shard that is full -/

/-- All trades are of January 2000. -/
def january2000 : Environment where
  hashString := fun _ => 0
  localMonth := fun _ => (2000, 0)
  stringify := fun _ _ => ""

theorem nodup_shardPair : ["shard1", "shard2"].Nodup := by decide

/-- A map of two shards. -/
def shardPair : ShardMap where
  shards := ["shard1", "shard2"]
  nodup := nodup_shardPair

/-- A trade with an id of a length. -/
def tradeOfLength (n : ℕ) : Stored .trade where
  row :=
    { id := String.ofList (List.replicate n 'a'), userId := 1, asset := "BTC", type := "BUY",
      amount := 1, price := 50000
      totalValue := 50000, status := "COMPLETED", timestamp := 946684800000,
        createdAt := 946684800000 }
  strategy := "time"

/-- A number of trades. -/
def manyTrades (n : ℕ) : Store .trade where
  table :=
    { rows := (List.range n).map tradeOfLength
      nodup := by
        rw [List.map_map]
        refine List.nodup_range.map fun m n h => ?_
        have hlength := congrArg List.length (String.ofList_injective h)
        rwa [List.length_replicate, List.length_replicate] at hlength }
  unique := fun _ _ h => absurd h Bool.false_ne_true

/-- Trades lie on the first shard, and the other one is empty. -/
def onShard1 (n : ℕ) : String → DataSource :=
  Function.update (fun _ => DataSource.empty) "shard1"
    (Function.update DataSource.empty .trade (manyTrades n))

theorem recordsOn_onShard1 (n : ℕ) : recordsOn .trade
    (onShard1 n) "shard1" = (List.range n).map tradeOfLength := by
  rw [recordsOn, onShard1, Function.update_self, Function.update_self]
  rfl

theorem targetShard_tradeOfLength (n : ℕ) :
    targetShard january2000 shardPair 0 (tradeOfLength n).row = some "shard1" := by
  simp [targetShard, rebalanceStrategy, timeStrategy, Entity.data, Entity.draft, january2000,
    shardPair, tradeOfLength,
    Except.toOption]

/-- **A rebalancing that never ends**: a batch of trades lies on the shard that they are assigned
to, and nothing fails. -/
theorem not_terminates_onShard1 :
    (∀ fuel, rebalanceShards january2000 shardPair true 0 fuel ⟨onShard1 batchSize, []⟩ = none) ∧
      ¬ Terminates january2000 shardPair true 0 (onShard1 batchSize) := by
  have hlength : (recordsOn .trade (onShard1 batchSize) "shard1").length = batchSize := by
    rw [recordsOn_onShard1, List.length_map, List.length_range]
  have hplaced : ∀ record ∈ (recordsOn .trade (onShard1 batchSize) "shard1").take batchSize,
      targetShard january2000 shardPair 0 record.row = some "shard1" := by
    intro record hrecord
    rw [recordsOn_onShard1] at hrecord
    obtain ⟨n, -, rfl⟩ := List.mem_map.mp (List.mem_of_mem_take hrecord)
    exact targetShard_tradeOfLength n
  have hnone : ∀ fuel, rebalanceShardsOver january2000 shardPair true 0 fuel
      ⟨onShard1 batchSize, const .succeeds⟩ = none := by
    intro fuel
    have hrun : (rebalanceEntity january2000 shardPair 0 fuel shardPair.shards :
      RowTask .trade Bool).eval
        (shardService true .trade).serve ⟨onShard1 batchSize, const .succeeds⟩ =
          (.ok false, ⟨onShard1 batchSize, const .succeeds⟩) := by
      change (rebalanceEntity january2000 shardPair 0 fuel ["shard1", "shard2"] :
        RowTask .trade Bool).eval _ _ = _
      rw [rebalanceEntity_cons, Prog.eval_bind, Prog.eval_tryCatch,
        eval_placed january2000 shardPair true 0 hlength.ge hplaced fuel]
      rfl
    rw [rebalanceShardsOver, if_neg (by decide), rebalancedOver, hrun]
    rfl
  constructor
  · intro fuel
    obtain ⟨o, hover, hold⟩ :=
      rebalanceShardsOver_calm january2000 shardPair true 0 fuel (onShard1 batchSize)
    rw [hnone] at hover
    rw [hold, Option.map_eq_none_iff.mp hover.symm]
    rfl
  · intro hterminates
    obtain ⟨fuel, hsome⟩ := hterminates (const .succeeds)
    rw [hnone] at hsome
    cases hsome

end Sharding
