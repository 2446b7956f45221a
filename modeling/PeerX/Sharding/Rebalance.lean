import PeerX.Sharding.Service
import PeerX.Foundations.Fallible
import PeerX.Foundations.Grouping
import Mathlib.Data.List.Infix

/-!
# Sharding: the rebalancing

A rebalancing goes through the shards in their order. It reads the first thousand records of a shard
again and again until fewer are left, and moves those that lie on another shard than the one they
are assigned to: the record is saved on its shard, and then removed where it was. A record whose
save is refused by a unique index is removed, too. Any statement may throw; the exception of a move
is logged, and the one of a read or of a second removal ends the shard.
-/

namespace Sharding

open Concurrency Relational Grouping

variable (env : Environment) (map : ShardMap) (foreignKeys : Bool) (now : ℤ) (entity : Entity)

/-! ## Targets -/

/-- The strategy of an entity class: trades are placed by time, and balances by user. -/
def rebalanceStrategy : Entity → ShardingStrategy
  | .trade => timeStrategy env map now
  | _ => userStrategy env map

/-- The shard that a record is assigned to. -/
def targetShard {entity : Entity} (row : entity.Row) : Option String :=
  let strategy := rebalanceStrategy env map now entity
  ((strategy.getShard (strategy.getShardKey (entity.data env (entity.draft row)))).toOption).getD none

/-- **The strategy of a record never throws.** -/
theorem getShard_record {entity : Entity} (hentity : entity ≠ .virtualAsset) (row : entity.Row) :
    (rebalanceStrategy env map now entity).getShard
        ((rebalanceStrategy env map now entity).getShardKey (entity.data env (entity.draft row))) =
      .ok (targetShard env map now row) := by
  cases entity with
  | trade =>
    unfold targetShard rebalanceStrategy timeStrategy
    dsimp only
    split <;> rfl
  | userBalance => rfl
  | virtualAsset => exact absurd rfl hentity

/-! ## Statements -/

/-- The shards, and how the next statements go. -/
structure ShardDb where
  sources : String → DataSource
  fates : List (Fate String) := []

/-- The statements of a rebalancing. -/
inductive RowCommand (entity : Entity) : Type
  | find (shardId : String) (take skip : ℕ)
  | save (shardId : String) (record : Stored entity)
  | remove (shardId : String) (record : Stored entity)

/-- The values of the statements. -/
abbrev RowCommand.Value {entity : Entity} : RowCommand entity → Type
  | .find _ _ _ => List (Stored entity)
  | _ => Unit

variable {entity}

/-- The value of a statement. -/
def RowCommand.value (db : ShardDb) : (c : RowCommand entity) → c.Value
  | .find shardId take skip => ((db.sources shardId entity).rows.drop skip).take take
  | .save _ _ => ()
  | .remove _ _ => ()

/-- The effect of a statement on the shards, or its exception. -/
def RowCommand.effect (sources : String → DataSource) : RowCommand entity → Except String (String → DataSource)
  | .find _ _ _ => .ok sources
  | .save shardId record =>
    match (sources shardId).saveRow foreignKeys record with
    | .ok source => .ok (Function.update sources shardId source)
    | .error message => .error message
  | .remove shardId record =>
    match (sources shardId).removeRow foreignKeys entity record.key with
    | .ok source => .ok (Function.update sources shardId source)
    | .error message => .error message

/-- The reply to a statement, and the shards after it. -/
def serveRow (c : RowCommand entity) (db : ShardDb) : Except String c.Value × ShardDb :=
  match c.effect foreignKeys db.sources with
  | .error message => (.error message, { db with fates := db.fates.tail })
  | .ok sources =>
    ((db.fates.headD .succeeds).reply (c.value db),
      ⟨if (db.fates.headD .succeeds).carriedOut then sources else db.sources, db.fates.tail⟩)

/-- The programs of a rebalancing. -/
abbrev RowTask (entity : Entity) (α : Type) :=
  Prog (RowCommand entity) (fun c => Except String c.Value) String α

/-- A statement. -/
abbrev row (c : RowCommand entity) : RowTask entity c.Value := issue c

/-! ## The rebalancing -/

def includes (text part : String) : Bool := part.toList <:+: text.toList

def batchSize : ℕ := 1000

def moveRecord (fromShardId targetShardId : String) (record : Stored entity) : RowTask entity Unit :=
  tryCatch
    (do
      row (.save targetShardId record)
      row (.remove fromShardId record))
    fun message =>
      if includes message "UNIQUE" ∨ includes message "already exists" then row (.remove fromShardId record)
      else pure ()

/-- The moves of the records that are assigned to one shard. -/
def moveRecords (fromShardId targetShardId : String) : List (Stored entity) → RowTask entity Unit
  | [] => return ()
  | record :: records => do
    moveRecord fromShardId targetShardId record
    moveRecords fromShardId targetShardId records

/-- The moves of a group. A shard that is not in the map is skipped. -/
def moveGroup (fromShardId : String) (targetShardId : Option String) (records : List (Stored entity)) :
    RowTask entity Unit :=
  match targetShardId.filter (· ∈ map.shards) with
  | none => pure ()
  | some targetShardId => moveRecords fromShardId targetShardId records

def moveBatch (fromShardId : String) : List (Option String × List (Stored entity)) → RowTask entity Unit
  | [] => return ()
  | (targetShardId, records) :: groups => do
    moveGroup map fromShardId targetShardId records
    moveBatch fromShardId groups

/-- The misplaced records of a batch, by their shards. -/
def recordsToMove (fromShardId : String) (records : List (Stored entity)) :
    List (Option String × List (Stored entity)) :=
  grouped (fun record => targetShard env map now record.row)
    (records.filter fun record => targetShard env map now record.row ≠ some fromShardId)

/-- The rebalancing of a shard: whether its loop has ended, within a number of reads. The offset
stays 0. -/
def rebalanceShard (fromShardId : String) : ℕ → RowTask entity Bool
  | 0 => return false
  | fuel + 1 => do
    let records ← row (.find fromShardId batchSize 0)
    if records.length = 0 then return true
    else
      moveBatch map fromShardId (recordsToMove env map now fromShardId records)
      if records.length < batchSize then return true
      else rebalanceShard fromShardId fuel

/-- The rebalancing of the shards, one after the other. The exception of a shard is logged. -/
def rebalanceEntity (fuel : ℕ) : List String → RowTask entity Bool
  | [] => return true
  | fromShardId :: shardIds => do
    let ended ← tryCatch (rebalanceShard env map now fromShardId fuel) fun _ => pure true
    if ended then rebalanceEntity fuel shardIds else return false

/-- The rebalancing of an entity class: the shards after it, when all loops have ended. -/
def rebalanced (entity : Entity) (fuel : ℕ) (db : ShardDb) : Option ShardDb :=
  let run := (rebalanceEntity env map now fuel map.shards : RowTask entity Bool).eval (serveRow foreignKeys) db
  match run.1 with
  | .ok true => some run.2
  | _ => none

/-- `rebalanceShards`, when it completes. -/
def rebalanceShards (fuel : ℕ) (db : ShardDb) : Option ShardDb :=
  if map.shards.length < 2 then some db
  else (rebalanced env map foreignKeys now .trade fuel db).bind (rebalanced env map foreignKeys now .userBalance fuel)

/-! ## What a rebalancing can do -/

section Moves

variable (entity)

/-- Records are copied to the shards they are assigned to. A record that lies on a shard has
been there, or it is assigned to the shard, and comes from another one of the shards that are
rebalanced. -/
structure Moves (fromShardIds : List String) (d d' : String → DataSource) : Prop where
  others : ∀ shardId other, other ≠ entity → d' shardId other = d shardId other
  came : ∀ shardId, ∀ x ∈ (d' shardId entity).rows, x ∈ (d shardId entity).rows ∨
    targetShard env map now x.row = some shardId ∧ (foreignKeys → (d shardId).References x.row) ∧
      ∃ fromShardId ∈ fromShardIds, fromShardId ≠ shardId ∧ x ∈ (d fromShardId entity).rows

variable {env map foreignKeys now entity} {d d' d'' : String → DataSource} {fromShardIds : List String}

theorem Moves.refl : Moves env map foreignKeys now entity fromShardIds d d := ⟨fun _ _ _ => rfl, fun _ _ h => .inl h⟩

/-- The references of a record are the same, since the assets are not moved. -/
theorem references_congr (hentity : entity ≠ .virtualAsset)
    (h : ∀ shardId other, other ≠ entity → d' shardId other = d shardId other) (shardId : String) (x : entity.Row) :
    (d' shardId).References x ↔ (d shardId).References x := by
  cases entity with
  | trade => exact Iff.rfl
  | userBalance =>
    unfold DataSource.References
    rw [h shardId .virtualAsset (by decide)]
  | virtualAsset => exact absurd rfl hentity

/-- Two rebalancings, one after the other. -/
theorem Moves.trans (hentity : entity ≠ .virtualAsset) {fromShardIds' : List String}
    (h : Moves env map foreignKeys now entity fromShardIds d d')
    (h' : Moves env map foreignKeys now entity fromShardIds' d' d'') :
    Moves env map foreignKeys now entity (fromShardIds ++ fromShardIds') d d'' := by
  refine ⟨fun shardId other hne => (h'.others shardId other hne).trans (h.others shardId other hne), ?_⟩
  intro shardId x hx
  rcases h'.came shardId x hx with hx' | ⟨htarget, hrefers, fromShardId, hfrom, hne, hx'⟩
  · rcases h.came shardId x hx' with hx'' | ⟨htarget, hrefers, fromShardId, hfrom, hne, hx''⟩
    · exact .inl hx''
    · exact .inr ⟨htarget, hrefers, fromShardId, List.mem_append_left _ hfrom, hne, hx''⟩
  · -- a record that was copied lies where it is assigned to, and is not copied again
    rcases h.came fromShardId x hx' with hx'' | ⟨htarget', -⟩
    · refine .inr ⟨htarget, fun hkeys => ?_, fromShardId, List.mem_append_right _ hfrom, hne, hx''⟩
      exact (references_congr hentity h.others shardId x.row).mp (hrefers hkeys)
    · exact absurd (Option.some.inj (htarget'.symm.trans htarget)) hne

variable {db : ShardDb} {fromShardId toShardId : String} {record : Stored entity}

theorem sources_serveRow (foreignKeys : Bool) (c : RowCommand entity) (db : ShardDb) :
    (serveRow foreignKeys c db).2.sources = db.sources ∨
      c.effect foreignKeys db.sources = .ok (serveRow foreignKeys c db).2.sources := by
  unfold serveRow
  cases c.effect foreignKeys db.sources with
  | error message => exact .inl rfl
  | ok sources =>
    dsimp only
    split
    · exact .inr rfl
    · exact .inl rfl

theorem effect_save_eq_ok (h : (RowCommand.save toShardId record).effect foreignKeys d = .ok d') :
    ∃ hindex : ¬ (d toShardId entity).Conflicts record, (foreignKeys → (d toShardId).References record.row) ∧
      d' = Function.update d toShardId
        (Function.update (d toShardId) entity ((d toShardId entity).save record hindex)) := by
  change (match (d toShardId).saveRow foreignKeys record with
    | .ok source => Except.ok (Function.update d toShardId source)
    | .error message => .error message) = _ at h
  cases hsave : (d toShardId).saveRow foreignKeys record with
  | error message =>
    rw [hsave] at h
    cases h
  | ok source =>
    rw [hsave] at h
    obtain ⟨hindex, hrefers, rfl⟩ := DataSource.saveRow_eq_ok hsave
    exact ⟨hindex, hrefers, (Except.ok.inj h).symm⟩

theorem effect_remove_eq_ok (h : (RowCommand.remove fromShardId record).effect foreignKeys d = .ok d') :
    d' = Function.update d fromShardId
      (Function.update (d fromShardId) entity ((d fromShardId entity).erase record.key)) := by
  change (match (d fromShardId).removeRow foreignKeys entity record.key with
    | .ok source => Except.ok (Function.update d fromShardId source)
    | .error message => .error message) = _ at h
  cases hremove : (d fromShardId).removeRow foreignKeys entity record.key with
  | error message =>
    rw [hremove] at h
    cases h
  | ok source =>
    rw [hremove] at h
    rw [← Except.ok.inj h, DataSource.removeRow_eq_ok hremove]

/-- The records after the table of a shard has changed. -/
theorem update_other {store : Store entity} {shardId : String} {other : Entity} (hne : other ≠ entity)
    (S : String) : Function.update d shardId (Function.update (d shardId) entity store) S other = d S other := by
  by_cases hS : S = shardId
  · subst hS
    rw [Function.update_self, Function.update_of_ne hne]
  · rw [Function.update_of_ne hS]

theorem update_same {store : Store entity} {shardId : String} (S : String) :
    Function.update d shardId (Function.update (d shardId) entity store) S entity =
      if S = shardId then store else d S entity := by
  by_cases hS : S = shardId
  · subst hS
    rw [Function.update_self, Function.update_self, if_pos rfl]
  · rw [Function.update_of_ne hS, if_neg hS]

/-- A save of a record on the shard that it is assigned to. -/
theorem Moves.save (hentity : entity ≠ .virtualAsset) (h : Moves env map foreignKeys now entity [fromShardId] d db.sources)
    (hrecord : record ∈ (d fromShardId entity).rows) (htarget : targetShard env map now record.row = some toShardId)
    (hne : fromShardId ≠ toShardId) :
    Moves env map foreignKeys now entity [fromShardId] d
      (serveRow foreignKeys (.save toShardId record) db).2.sources := by
  rcases sources_serveRow foreignKeys (.save toShardId record) db with hsame | heffect
  · rwa [hsame]
  obtain ⟨hindex, hrefers, hsources⟩ := effect_save_eq_ok heffect
  rw [hsources]
  refine ⟨fun shardId other hother => (update_other hother shardId).trans (h.others shardId other hother), ?_⟩
  intro shardId x hx
  rw [update_same] at hx
  split at hx
  next heq =>
    subst heq
    rcases Indexed.mem_save.mp hx with rfl | ⟨hx, -⟩
    · refine .inr ⟨htarget, fun hkeys => ?_, fromShardId, List.mem_singleton_self _, hne, hrecord⟩
      exact (references_congr hentity h.others _ _).mp (hrefers hkeys)
    · exact h.came _ x hx
  · exact h.came shardId x hx

theorem Moves.remove (h : Moves env map foreignKeys now entity fromShardIds d db.sources) :
    Moves env map foreignKeys now entity fromShardIds d
      (serveRow foreignKeys (.remove fromShardId record) db).2.sources := by
  rcases sources_serveRow foreignKeys (.remove fromShardId record) db with hsame | heffect
  · rwa [hsame]
  rw [effect_remove_eq_ok heffect]
  refine ⟨fun shardId other hother => (update_other hother shardId).trans (h.others shardId other hother), ?_⟩
  intro shardId x hx
  rw [update_same] at hx
  split at hx
  next heq =>
    subst heq
    exact h.came _ x (Indexed.mem_erase.mp hx).1
  · exact h.came shardId x hx

/-- The move of a record, whatever fails. -/
theorem moves_moveRecord (hentity : entity ≠ .virtualAsset)
    (h : Moves env map foreignKeys now entity [fromShardId] d db.sources)
    (hrecord : record ∈ (d fromShardId entity).rows) (htarget : targetShard env map now record.row = some toShardId)
    (hne : fromShardId ≠ toShardId) :
    (moveRecord fromShardId toShardId record).Yields (serveRow foreignKeys) db fun _ db' =>
      Moves env map foreignKeys now entity [fromShardId] d db'.sources := by
  have hsaved := h.save hentity hrecord htarget hne
  refine yields_tryCatch (P := fun _ db' => Moves env map foreignKeys now entity [fromShardId] d db'.sources) ?_
    (fun _ _ h => h) fun message db' h => ?_
  · exact yields_issue_bind (fun _ _ => yields_issue hsaved.remove) fun _ _ => hsaved
  · split
    · exact yields_issue h.remove
    · exact yields_ret h

/-- The moves of records of the shard to the shard that they are assigned to. -/
theorem moves_moveRecords (hentity : entity ≠ .virtualAsset)
    (h : Moves env map foreignKeys now entity [fromShardId] d db.sources) {records : List (Stored entity)}
    (hrecords : ∀ record ∈ records, record ∈ (d fromShardId entity).rows ∧
      targetShard env map now record.row = some toShardId) (hne : fromShardId ≠ toShardId) :
    (moveRecords fromShardId toShardId records).Yields (serveRow foreignKeys) db fun _ db' =>
      Moves env map foreignKeys now entity [fromShardId] d db'.sources := by
  induction records generalizing db with
  | nil => exact yields_ret h
  | cons record records ih =>
    obtain ⟨⟨hmem, htarget⟩, hrest⟩ := List.forall_mem_cons.mp hrecords
    exact yields_bind (moves_moveRecord hentity h hmem htarget hne) (fun _ _ h => ih h hrest) fun _ _ h => h

/-- The misplaced records of a shard, by the shards that they are assigned to. -/
def Misplaced (env : Environment) (map : ShardMap) (now : ℤ) (d : String → DataSource) (fromShardId : String)
    (groups : List (Option String × List (Stored entity))) : Prop :=
  ∀ group ∈ groups, group.1 ≠ some fromShardId ∧
    ∀ record ∈ group.2, record ∈ (d fromShardId entity).rows ∧ targetShard env map now record.row = group.1

theorem moves_moveBatch (hentity : entity ≠ .virtualAsset)
    (h : Moves env map foreignKeys now entity [fromShardId] d db.sources)
    {groups : List (Option String × List (Stored entity))} (hgroups : Misplaced env map now d fromShardId groups) :
    (moveBatch map fromShardId groups).Yields (serveRow foreignKeys) db fun _ db' =>
      Moves env map foreignKeys now entity [fromShardId] d db'.sources := by
  induction groups generalizing db with
  | nil => exact yields_ret h
  | cons group groups ih =>
    obtain ⟨targetShardId, records⟩ := group
    obtain ⟨⟨hne, hrecords⟩, hrest⟩ := List.forall_mem_cons.mp hgroups
    refine yields_bind (P := fun _ db' => Moves env map foreignKeys now entity [fromShardId] d db'.sources) ?_
      (fun _ _ h => ih h hrest) fun _ _ h => h
    unfold moveGroup
    split
    · exact yields_ret h
    next toShardId htarget =>
      obtain ⟨rfl, -⟩ := Option.filter_eq_some_iff.mp htarget
      exact moves_moveRecords hentity h hrecords fun heq => hne (congrArg some heq.symm)

/-- The records that are read are among those of the shard. -/
theorem misplaced_recordsToMove {records : List (Stored entity)}
    (hrecords : ∀ record ∈ records, targetShard env map now record.row ≠ some fromShardId →
      record ∈ (d fromShardId entity).rows) :
    Misplaced env map now d fromShardId (recordsToMove env map now fromShardId records) := by
  rintro ⟨targetShardId, misplaced⟩ hgroup
  have hmem : ∀ record ∈ misplaced, (record ∈ records ∧ targetShard env map now record.row ≠ some fromShardId) ∧
      targetShard env map now record.row = targetShardId := by
    intro record hrecord
    rw [mem_grouped hgroup] at hrecord
    simp only [List.mem_filter, decide_eq_true_eq] at hrecord
    exact hrecord
  refine ⟨?_, fun record hrecord => ?_⟩
  · have hkey := mem_keys_grouped.mp (List.mem_map_of_mem (f := Prod.fst) hgroup)
    obtain ⟨record, hrecord, rfl⟩ := List.mem_map.mp hkey
    simpa using (List.mem_filter.mp hrecord).2
  · obtain ⟨⟨hread, hne⟩, htarget⟩ := hmem record hrecord
    exact ⟨hrecords record hread hne, htarget⟩

/-- The rebalancing of a shard, whatever fails. -/
theorem moves_rebalanceShard (hentity : entity ≠ .virtualAsset) (fuel : ℕ)
    (h : Moves env map foreignKeys now entity [fromShardId] d db.sources) :
    (rebalanceShard env map now fromShardId fuel : RowTask entity Bool).Yields (serveRow foreignKeys) db fun _ db' =>
      Moves env map foreignKeys now entity [fromShardId] d db'.sources := by
  induction fuel generalizing db with
  | zero => exact yields_ret h
  | succ fuel ih =>
    have hread : (serveRow foreignKeys (.find fromShardId batchSize 0 : RowCommand entity) db).2.sources =
        db.sources := by
      rcases sources_serveRow foreignKeys (.find fromShardId batchSize 0 : RowCommand entity) db with hsame | heffect
      · exact hsame
      · exact (Except.ok.inj heffect).symm
    refine yields_issue_bind (fun records hreply => ?_) fun _ _ => hread ▸ h
    rw [← hread] at h
    split
    · exact yields_ret h
    have hrecords : ∀ record ∈ records, targetShard env map now record.row ≠ some fromShardId →
        record ∈ (d fromShardId entity).rows := by
      intro record hrecord hmisplaced
      obtain ⟨-, hvalue⟩ := Fate.reply_eq_ok.mp hreply
      rw [← hvalue] at hrecord
      rw [hread] at h
      rcases h.came fromShardId record (List.mem_of_mem_drop (List.mem_of_mem_take hrecord)) with hold | ⟨htarget, -⟩
      · exact hold
      · exact absurd htarget hmisplaced
    refine yields_bind (moves_moveBatch hentity h (misplaced_recordsToMove hrecords)) (fun _ db' h => ?_) fun _ _ h => h
    split
    · exact yields_ret h
    · exact ih h

/-- **The rebalancing of the shards**, whatever fails. -/
theorem moves_rebalanceEntity (hentity : entity ≠ .virtualAsset) (fuel : ℕ) (shardIds : List String) (db : ShardDb) :
    (rebalanceEntity env map now fuel shardIds : RowTask entity Bool).Yields (serveRow foreignKeys) db fun _ db' =>
      Moves env map foreignKeys now entity shardIds db.sources db'.sources := by
  induction shardIds generalizing db with
  | nil => exact yields_ret Moves.refl
  | cons fromShardId shardIds ih =>
    refine yields_bind (P := fun _ db' => Moves env map foreignKeys now entity [fromShardId] db.sources db'.sources)
      (yields_tryCatch (moves_rebalanceShard hentity fuel Moves.refl) (fun _ _ h => h) fun _ _ h => yields_ret h) ?_ ?_
    · intro ended db₁ h
      split
      · exact (ih db₁).mono fun _ _ h' => h.trans hentity h'
      · exact yields_ret (h.trans hentity Moves.refl)
    · exact fun _ _ h => h.trans hentity Moves.refl

end Moves

end Sharding
