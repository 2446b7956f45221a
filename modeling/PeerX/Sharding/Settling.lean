import PeerX.Sharding.Conservation

/-!
# Sharding: rebalancings in which no statement fails

The shards are settled one after the other. As long as no two records clash, each save inserts its
record on a shard that has no other one with its key or its entry in the unique index, and the
removal takes it from the shard where it was. So every move only changes the place of one record.

## Main results

* `settling_moveRecord`, `settling_moveBatch`, `settling_rebalanceShard`: the moves of a record, a
  batch and a shard
* `kept_of_clashFree`: a rebalancing without clashes keeps the records
-/

namespace Sharding

open Concurrency Relational Distribution Grouping

variable {env : Environment} {map : ShardMap} {foreignKeys : Bool} {now : ℤ} {entity : Entity}

/-! ## Statements that do not fail -/

/-- No statement fails. -/
def ShardDb.Calm (db : ShardDb) : Prop := ∀ fate ∈ db.fates, fate = .succeeds

theorem ShardDb.Calm.headD {db : ShardDb} (h : db.Calm) : db.fates.headD .succeeds = .succeeds := by
  unfold Calm at h
  cases hfates : db.fates with
  | nil => rfl
  | cons fate fates => exact h fate (by simp [hfates])

theorem ShardDb.Calm.tail {db : ShardDb} (h : db.Calm) (sources : String → DataSource) :
    ShardDb.Calm ⟨sources, db.fates.tail⟩ := fun fate hfate => h fate (List.mem_of_mem_tail hfate)

/-- A statement that does not fail. -/
theorem serveRow_calm {c : RowCommand entity} {db : ShardDb} {sources : String → DataSource}
    (hcalm : db.Calm) (h : c.effect foreignKeys db.sources = .ok sources) :
    serveRow foreignKeys c db = (.ok (c.value db), ⟨sources, db.fates.tail⟩) := by
  unfold serveRow
  rw [h, hcalm.headD]
  rfl

theorem effect_save {d : String → DataSource} {shardId : String} {record : Stored entity}
    (hindex : ¬ (d shardId entity).Conflicts record)
    (hrefers : foreignKeys → (d shardId).References record.row) :
    (RowCommand.save shardId record).effect foreignKeys d = .ok (Function.update d shardId
      (Function.update (d shardId) entity ((d shardId entity).save record hindex))) := by
  have hsave : (d shardId).saveRow foreignKeys record =
      .ok (Function.update (d shardId) entity ((d shardId entity).save record hindex)) := by
    unfold DataSource.saveRow
    rw [dif_neg hindex, if_neg fun h => h.2 (hrefers h.1)]
  dsimp only [RowCommand.effect]
  rw [hsave]

theorem effect_remove (foreignKeys : Bool) (hentity : entity ≠ .virtualAsset)
    (d : String → DataSource) (shardId : String) (record : Stored entity) :
    (RowCommand.remove shardId record).effect foreignKeys d =
      .ok (Function.update d shardId
        (Function.update (d shardId) entity ((d shardId entity).erase record.key))) := by
  have hreferenced : ¬ (d shardId).Referenced record.key := by
    cases entity with
    | trade => exact id
    | userBalance => exact id
    | virtualAsset => exact absurd rfl hentity
  have hremove : (d shardId).removeRow foreignKeys entity record.key =
      .ok (Function.update (d shardId) entity ((d shardId entity).erase record.key)) := by
    unfold DataSource.removeRow
    rw [if_neg fun h => hreferenced h.2]
  dsimp only [RowCommand.effect]
  rw [hremove]

/-! ## Settled shards -/

section Settling

variable (env map foreignKeys now entity)

/-- The shards are settled one after the other. A record that is not where it was lies on the
shard it is assigned to, and is no longer where it comes from; the records of the settled shards are
all assigned to them. -/
structure Settling (fromShardIds settled : List String) (d : String → DataSource)
    (db : ShardDb) : Prop where
  calm : db.Calm
  others : ∀ shardId other, other ≠ entity → db.sources shardId other = d shardId other
  came : ∀ shardId, ∀ x ∈ recordsOn entity db.sources shardId, x ∈ recordsOn entity d shardId ∨
    target env map now x = some shardId ∧ ∃ fromShardId ∈ fromShardIds, fromShardId ≠ shardId ∧
      x ∈ recordsOn entity d fromShardId ∧ x ∉ recordsOn entity db.sources fromShardId
  placed : ∀ shardId ∈ settled, ∀ x ∈ recordsOn entity db.sources shardId,
    target env map now x = some shardId
  contents : (rowsAt map.shards (recordsOn entity db.sources)).Perm
    (rowsAt map.shards (recordsOn entity d))

/-- Records of a shard have been moved to the shards they are assigned to. -/
def MovedFrom (fromShardId : String) (records : List (Stored entity))
    (d d' : String → DataSource) : Prop :=
  ∀ shardId x, x ∈ recordsOn entity d' shardId ↔
    (target env map now x = some shardId ∧ x ∈ records) ∨
    (x ∈ recordsOn entity d shardId ∧ ¬ (shardId = fromShardId ∧ x ∈ records))

variable {env map foreignKeys now entity} {d d' d'' : String → DataSource} {db : ShardDb}
  {fromShardId toShardId : String} {record : Stored entity}
  {records records' : List (Stored entity)}
  {pre post : List String}

theorem MovedFrom.nil : MovedFrom env map now entity fromShardId [] d d := by
  intro shardId x
  simp

theorem MovedFrom.append (h : MovedFrom env map now entity fromShardId records d d')
    (h' : MovedFrom env map now entity fromShardId records' d' d'')
    (hmisplaced : ∀ x ∈ records, target env map now x ≠ some fromShardId) :
    MovedFrom env map now entity fromShardId (records ++ records') d d'' := by
  intro shardId x
  rw [h' shardId x, h shardId x, List.mem_append]
  constructor
  · rintro (⟨htarget, hx⟩ | ⟨⟨htarget, hx⟩ | ⟨hx, hnot⟩, hnot'⟩)
    · exact .inl ⟨htarget, .inr hx⟩
    · exact .inl ⟨htarget, .inl hx⟩
    · exact .inr ⟨hx, fun ⟨heq, hmem⟩ => hmem.elim (fun hmem => hnot ⟨heq, hmem⟩) fun hmem =>
        hnot' ⟨heq, hmem⟩⟩
  · rintro (⟨htarget, hx | hx⟩ | ⟨hx, hnot⟩)
    · refine .inr ⟨.inl ⟨htarget, hx⟩, fun ⟨heq, _⟩ => hmisplaced x hx (heq ▸ htarget)⟩
    · exact .inl ⟨htarget, hx⟩
    · exact .inr ⟨.inr ⟨hx, fun ⟨heq, hmem⟩ => hnot ⟨heq, .inl hmem⟩⟩,
        fun ⟨heq, hmem⟩ => hnot ⟨heq, .inr hmem⟩⟩

/-- A record that is not where it is assigned to has not been moved. -/
theorem Settling.origin (h : Settling env map now entity (pre ++ [fromShardId]) pre d db)
    (hrecord : record ∈ recordsOn entity db.sources fromShardId)
    (hne : target env map now record ≠ some fromShardId) :
    record ∈ recordsOn entity d fromShardId := by
  rcases h.came fromShardId record hrecord with hold | ⟨htarget, -⟩
  · exact hold
  · exact absurd htarget hne

/-- The record meets no clash on the shard that it is assigned to. -/
theorem Settling.fresh (hclash : ClashFree env map foreignKeys now entity d)
    (hsplit : map.shards = pre ++ fromShardId :: post)
    (h : Settling env map now entity (pre ++ [fromShardId]) pre d db)
    (hrecord : record ∈ recordsOn entity db.sources fromShardId)
    (htarget : target env map now record = some toShardId) (hne : toShardId ≠ fromShardId)
    (hto : toShardId ∈ map.shards) :
    ∀ q ∈ recordsOn entity db.sources toShardId, q.key ≠ record.key ∧
    (q.index = record.index → record.index = none) := by
  have horigin : record ∈ recordsOn entity d fromShardId := h.origin hrecord fun heq =>
    hne (Option.some.inj (htarget.symm.trans heq))
  have hapart := hclash.apart
  have hdistinct := hclash.distinct
  rw [hsplit, List.pairwise_append] at hapart hdistinct
  obtain ⟨-, hapartAfter, hapartBefore⟩ := hapart
  obtain ⟨-, hdistinctAfter, hdistinctBefore⟩ := hdistinct
  -- an earlier shard than the one of the record
  have hearlier : ∀ shardId ∈ pre, ∀ q ∈ recordsOn entity d shardId,
    target env map now q = some toShardId →
      q.key ≠ record.key ∧ (q.index = record.index → record.index = none) := by
    intro shardId hshard q hq hqtarget
    refine ⟨fun hkey => ?_, fun hindex => ?_⟩
    · have hparts :=
        hapartBefore shardId hshard fromShardId List.mem_cons_self q hq record horigin hkey
      exact hparts.1 (hqtarget.trans htarget.symm)
    · rw [← hindex]
      exact hdistinctBefore shardId hshard fromShardId List.mem_cons_self q hq record horigin hindex
  intro q hq
  rcases h.came toShardId q hq with hold | ⟨hqtarget, shardId, hshard, -, hqold, hqgone⟩
  · rw [hsplit] at hto
    rcases List.mem_append.mp hto with hbefore | hafter
    · exact hearlier toShardId hbefore q hold (h.placed toShardId hbefore q hq)
    · have hpost := (List.mem_cons.mp hafter).resolve_left hne
      refine ⟨fun hkey => ?_, fun hindex => ?_⟩
      · exact ((List.pairwise_cons.mp hapartAfter).1 toShardId hpost record horigin q hold
          hkey.symm).2 htarget
      · exact (List.pairwise_cons.mp hdistinctAfter).1 toShardId hpost record horigin q
          hold hindex.symm
  · rcases List.mem_append.mp hshard with hbefore | hcurrent
    · exact hearlier shardId hbefore q hqold hqtarget
    · -- another record of the same shard
      obtain rfl := List.mem_singleton.mp hcurrent
      have hother : q ≠ record := fun heq => hqgone (heq ▸ hrecord)
      refine ⟨fun hkey => hother (Indexed.eq_of_key_eq hqold horigin hkey), fun hindex => ?_⟩
      by_contra hsome
      have hsome : q.index.isSome := by rwa [hindex, Option.isSome_iff_ne_none]
      exact hother (Indexed.eq_of_index_eq hqold horigin hindex hsome)

/-! ### The move of a record -/

/-- The shards after a record has been moved to a shard whose index does not refuse it. -/
def sourcesAfterMove (d : String → DataSource) (fromShardId toShardId : String)
    (record : Stored entity)
    (hindex : ¬ (d toShardId entity).Conflicts record) : String → DataSource :=
  let saved :=
    Function.update d toShardId (Function.update (d toShardId) entity
      ((d toShardId entity).save record hindex))
  Function.update saved fromShardId
    (Function.update (saved fromShardId) entity ((saved fromShardId entity).erase record.key))

variable {hindex : ¬ (d toShardId entity).Conflicts record}

theorem sourcesAfterMove_other {other : Entity} (hother : other ≠ entity) (shardId : String) :
    sourcesAfterMove d fromShardId toShardId record hindex shardId other = d shardId other := by
  rw [sourcesAfterMove, update_other hother, update_other hother]

theorem recordsOn_sourcesAfterMove (hne : toShardId ≠ fromShardId) :
    recordsOn entity (sourcesAfterMove d fromShardId toShardId record hindex) =
      Function.update
      (Function.update (recordsOn entity d) toShardId
        ((d toShardId entity).save record hindex).rows)
        fromShardId ((d fromShardId entity).erase record.key).rows := by
  funext shardId
  rw [recordsOn, sourcesAfterMove, update_same, update_same, update_same, if_neg (Ne.symm hne),
    Function.update_apply,
    Function.update_apply]
  split
  · rfl
  · split <;> rfl

/-- A move in which no statement fails. -/
theorem eval_moveRecord {d : String → DataSource} {fates : List (Fate String)}
    (hindex : ¬ (d toShardId entity).Conflicts record) (hentity : entity ≠ .virtualAsset)
    (hcalm : ShardDb.Calm ⟨d, fates⟩) (hrefers : foreignKeys →
      (d toShardId).References record.row) :
    (moveRecord fromShardId toShardId record).eval (serveRow foreignKeys) ⟨d, fates⟩ =
      (.ok (), ⟨sourcesAfterMove d fromShardId toShardId record hindex, fates.tail.tail⟩) := by
  have hsave := serveRow_calm (c := .save toShardId record) hcalm (effect_save hindex hrefers)
  have hremove := fun sources => serveRow_calm (c := .remove fromShardId record)
    (hcalm.tail sources) (effect_remove foreignKeys hentity sources fromShardId record)
  unfold moveRecord
  rw [Prog.eval_tryCatch, eval_issue_bind hsave, eval_issue (hremove _)]
  rfl

theorem movedFrom_move (hindex : ¬ (d toShardId entity).Conflicts record)
    (hrecord : record ∈ recordsOn entity d fromShardId)
    (htarget : target env map now record = some toShardId) (hne : toShardId ≠ fromShardId)
    (hfresh : ∀ q ∈ recordsOn entity d toShardId, q.key ≠ record.key) :
    MovedFrom env map now entity fromShardId [record] d
      (sourcesAfterMove d fromShardId toShardId record hindex) := by
  intro shardId x
  rw [recordsOn_sourcesAfterMove hne, Function.update_apply, Function.update_apply,
    List.mem_singleton]
  by_cases hfrom : shardId = fromShardId
  · -- the record has left this shard, and no other record has its key
    subst hfrom
    rw [if_pos rfl, Indexed.mem_erase]
    constructor
    · rintro ⟨hx, hkey⟩
      exact .inr ⟨hx, fun ⟨_, heq⟩ => hkey (congrArg Stored.key heq)⟩
    · rintro (⟨hx, rfl⟩ | ⟨hx, hnot⟩)
      · exact absurd (Option.some.inj (htarget.symm.trans hx)) hne
      · exact ⟨hx, fun hkey => hnot ⟨rfl, Indexed.eq_of_key_eq hx hrecord hkey⟩⟩
  rw [if_neg hfrom]
  by_cases hto : shardId = toShardId
  · -- the record has come to this shard, which had none with its key
    subst hto
    rw [if_pos rfl, Indexed.mem_save]
    constructor
    · rintro (rfl | ⟨hx, -⟩)
      · exact .inl ⟨htarget, rfl⟩
      · exact .inr ⟨hx, fun h => hfrom h.1⟩
    · rintro (⟨-, rfl⟩ | ⟨hx, -⟩)
      · exact .inl rfl
      · exact .inr ⟨hx, hfresh x hx⟩
  · rw [if_neg hto]
    constructor
    · exact fun hx => .inr ⟨hx, fun h => hfrom h.1⟩
    · rintro (⟨hx, rfl⟩ | ⟨hx, -⟩)
      · exact absurd (Option.some.inj (hx.symm.trans htarget)) hto
      · exact hx

/-- The shards are still being settled after records of the next shard have been moved. -/
theorem Settling.moved {db' : ShardDb}
    (h : Settling env map now entity (pre ++ [fromShardId]) pre d db)
    (hrecords : ∀ x ∈ records, x ∈ recordsOn entity db.sources fromShardId ∧
      target env map now x ≠ some fromShardId)
    (hmoved : MovedFrom env map now entity fromShardId records db.sources db'.sources)
    (hcalm : db'.Calm)
    (hothers : ∀ shardId other, other ≠ entity →
      db'.sources shardId other = db.sources shardId other)
    (hcontents : (rowsAt map.shards (recordsOn entity db'.sources)).Perm
      (rowsAt map.shards (recordsOn entity db.sources))) :
    Settling env map now entity (pre ++ [fromShardId]) pre d db' := by
  have hgone : ∀ x ∈ records, x ∉ recordsOn entity db'.sources fromShardId := by
    intro x hx hx'
    rcases (hmoved fromShardId x).mp hx' with ⟨htarget, -⟩ | ⟨-, hnot⟩
    · exact (hrecords x hx).2 htarget
    · exact hnot ⟨rfl, hx⟩
  refine ⟨hcalm, fun shardId other hne => (hothers shardId other hne).trans
    (h.others shardId other hne), ?_, ?_,
    hcontents.trans h.contents⟩
  · intro shardId x hx
    rcases (hmoved shardId x).mp hx with ⟨htarget, hmem⟩ | ⟨hx, hnot⟩
    · have hne : fromShardId ≠ shardId := fun heq => (hrecords x hmem).2 (heq ▸ htarget)
      exact .inr ⟨htarget, fromShardId, List.mem_append_right _ (List.mem_singleton_self _), hne,
        h.origin (hrecords x hmem).1 (hrecords x hmem).2, hgone x hmem⟩
    · rcases h.came shardId x hx with hold | ⟨htarget, shardId', hshard', hne, hold, hnot'⟩
      · exact .inl hold
      · refine .inr ⟨htarget, shardId', hshard', hne, hold, fun hx' => ?_⟩
        rcases (hmoved shardId' x).mp hx' with ⟨htarget', -⟩ | ⟨hx', -⟩
        · exact hne (Option.some.inj (htarget'.symm.trans htarget))
        · exact hnot' hx'
  · intro shardId hshard x hx
    rcases (hmoved shardId x).mp hx with ⟨htarget, -⟩ | ⟨hx, -⟩
    · exact htarget
    · exact h.placed shardId hshard x hx

/-- **The move of a record** that meets no clash. -/
theorem settling_moveRecord (hentity : entity ≠ .virtualAsset)
    (hclash : ClashFree env map foreignKeys now entity d)
    (hsplit : map.shards = pre ++ fromShardId :: post)
    (h : Settling env map now entity (pre ++ [fromShardId]) pre d db)
    (hrecord : record ∈ recordsOn entity db.sources fromShardId)
    (htarget : target env map now record = some toShardId) (hne : toShardId ≠ fromShardId) :
    (moveRecord fromShardId toShardId record).Yields
    (serveRow foreignKeys) db fun o db' => o = .ok () ∧
      Settling env map now entity (pre ++ [fromShardId]) pre d db' ∧
      MovedFrom env map now entity fromShardId [record] db.sources db'.sources := by
  have hmisplaced : target env map now record ≠ some fromShardId := fun heq =>
    hne (Option.some.inj (htarget.symm.trans heq))
  have hfrom : fromShardId ∈ map.shards := by
    rw [hsplit]
    exact List.mem_append_right _ List.mem_cons_self
  obtain ⟨assigned, hto, hassigned, hrefers⟩ :=
    hclash.targets fromShardId hfrom record (h.origin hrecord hmisplaced)
  obtain rfl := Option.some.inj (htarget.symm.trans hassigned)
  -- the insertion goes through: no key, unique column or foreign key stands against it
  have hfresh := h.fresh hclash hsplit hrecord htarget hne hto
  have hindex : ¬ (db.sources toShardId entity).Conflicts record := by
    rintro ⟨q, hq, -, heq, hsome⟩
    rw [(hfresh q hq).2 heq] at hsome
    cases hsome
  have hasset : foreignKeys → (db.sources toShardId).References record.row := fun hkeys =>
    (references_congr hentity h.others toShardId record.row).mpr (hrefers hne hkeys)
  have hmoved := movedFrom_move hindex hrecord htarget hne fun q hq => (hfresh q hq).1
  unfold Prog.Yields
  rw [eval_moveRecord hindex hentity h.calm hasset]
  refine ⟨rfl, h.moved ?_ hmoved ((h.calm.tail db.sources).tail _) ?_ ?_, hmoved⟩
  · intro x hx
    obtain rfl := List.mem_singleton.mp hx
    exact ⟨hrecord, hmisplaced⟩
  · exact fun shardId other hother => sourcesAfterMove_other hother shardId
  · rw [recordsOn_sourcesAfterMove hne]
    exact rowsAt_move map.nodup hfrom hto (Ne.symm hne)
      (Table.perm_save fun q hq => (hfresh q hq).1)
      (Table.perm_erase hrecord)

/-! ### The moves of a batch -/

/-- The moves of different records of a shard to one other shard. -/
theorem settling_moveRecords (hentity : entity ≠ .virtualAsset)
    (hclash : ClashFree env map foreignKeys now entity d)
    (hsplit : map.shards = pre ++ fromShardId :: post)
    (h : Settling env map now entity (pre ++ [fromShardId]) pre d db) (hnodup : records.Nodup)
    (hrecords : ∀ x ∈ records, x ∈ recordsOn entity db.sources fromShardId ∧
      target env map now x = some toShardId)
    (hne : toShardId ≠ fromShardId) :
    (moveRecords fromShardId toShardId records).Yields
    (serveRow foreignKeys) db fun o db' => o = .ok () ∧
      Settling env map now entity (pre ++ [fromShardId]) pre d db' ∧
      MovedFrom env map now entity fromShardId records db.sources db'.sources := by
  induction records generalizing db with
  | nil => exact yields_ret ⟨rfl, h, MovedFrom.nil⟩
  | cons record records ih =>
    obtain ⟨⟨hmem, htarget⟩, hrest⟩ := List.forall_mem_cons.mp hrecords
    obtain ⟨hnew, hnodup⟩ := List.nodup_cons.mp hnodup
    refine yields_bind (settling_moveRecord hentity hclash hsplit h hmem htarget hne) ?_
      fun _ _ h => nomatch h.1
    rintro _ db₁ ⟨-, h₁, hmoved⟩
    have hstill : ∀ x ∈ records, x ∈ recordsOn entity db₁.sources fromShardId := by
      intro x hx
      refine (hmoved fromShardId x).mpr (.inr ⟨(hrest x hx).1, ?_⟩)
      rintro ⟨-, heq⟩
      exact hnew (List.mem_singleton.mp heq ▸ hx)
    refine (ih h₁ hnodup fun x hx => ⟨hstill x hx, (hrest x hx).2⟩).mono ?_
    rintro o db₂ ⟨ho, h₂, hmoved'⟩
    refine ⟨ho, h₂, hmoved.append hmoved' fun x hx heq => ?_⟩
    obtain rfl := List.mem_singleton.mp hx
    exact hne (Option.some.inj (htarget.symm.trans heq))

/-- The moves of a group. Only an empty group has no shard in the map. -/
theorem settling_moveGroup (hentity : entity ≠ .virtualAsset)
    (hclash : ClashFree env map foreignKeys now entity d)
    (hsplit : map.shards = pre ++ fromShardId :: post)
    (h : Settling env map now entity (pre ++ [fromShardId]) pre d db) (hnodup : records.Nodup)
    {assigned : Option String} (hne : assigned ≠ some fromShardId)
    (hrecords : ∀ x ∈ records, x ∈ recordsOn entity db.sources fromShardId ∧
      target env map now x = assigned) :
    (moveGroup map fromShardId assigned records).Yields
    (serveRow foreignKeys) db fun o db' => o = .ok () ∧
      Settling env map now entity (pre ++ [fromShardId]) pre d db' ∧
      MovedFrom env map now entity fromShardId records db.sources db'.sources := by
  unfold moveGroup
  split
  next hnone =>
    cases records with
    | nil => exact yields_ret ⟨rfl, h, MovedFrom.nil⟩
    | cons x records =>
      obtain ⟨hx, htarget⟩ := hrecords x List.mem_cons_self
      have hfrom : fromShardId ∈ map.shards := by
        rw [hsplit]
        exact List.mem_append_right _ List.mem_cons_self
      obtain ⟨toShardId, hto, hassigned, -⟩ :=
        hclash.targets fromShardId hfrom x (h.origin hx (htarget ▸ hne))
      rw [← htarget, hassigned] at hnone
      simp [hto] at hnone
  next toShardId hsome =>
    obtain ⟨rfl, -⟩ := Option.filter_eq_some_iff.mp hsome
    exact settling_moveRecords hentity hclash hsplit h hnodup hrecords fun heq => hne
      (congrArg some heq)

theorem settling_moveBatch (hentity : entity ≠ .virtualAsset)
    (hclash : ClashFree env map foreignKeys now entity d)
    (hsplit : map.shards = pre ++ fromShardId :: post)
    (h : Settling env map now entity (pre ++ [fromShardId]) pre d db)
    {groups : List (Option String × List (Stored entity))}
    (hnodup : (groups.flatMap Prod.snd).Nodup)
    (hgroups : Misplaced env map now db.sources fromShardId groups) :
    (moveBatch map fromShardId groups).Yields (serveRow foreignKeys) db fun o db' => o = .ok () ∧
      Settling env map now entity (pre ++ [fromShardId]) pre d db' ∧
      MovedFrom env map now entity fromShardId
      (groups.flatMap Prod.snd) db.sources db'.sources := by
  induction groups generalizing db with
  | nil => exact yields_ret ⟨rfl, h, MovedFrom.nil⟩
  | cons group groups ih =>
    obtain ⟨assigned, records⟩ := group
    obtain ⟨⟨hne, hrecords⟩, hrest⟩ := List.forall_mem_cons.mp hgroups
    obtain ⟨hrecordsNodup, hgroupsNodup, hdisjoint⟩ := List.nodup_append.mp hnodup
    refine yields_bind (settling_moveGroup hentity hclash hsplit h hrecordsNodup hne hrecords) ?_
      fun _ _ h => nomatch h.1
    rintro _ db₁ ⟨-, h₁, hmoved⟩
    have hstill : Misplaced env map now db₁.sources fromShardId groups := by
      refine fun group hgroup => ⟨(hrest group hgroup).1,
        fun x hx => ⟨?_, ((hrest group hgroup).2 x hx).2⟩⟩
      refine (hmoved fromShardId x).mpr (.inr ⟨((hrest group hgroup).2 x hx).1, ?_⟩)
      rintro ⟨-, hmem⟩
      exact hdisjoint x hmem x (List.mem_flatMap.mpr ⟨group, hgroup, hx⟩) rfl
    refine (ih h₁ hgroupsNodup hstill).mono ?_
    rintro o db₂ ⟨ho, h₂, hmoved'⟩
    exact ⟨ho, h₂, hmoved.append hmoved' fun x hx heq => hne ((hrecords x hx).2.symm.trans heq)⟩

/-! ### The shards, one after the other -/

/-- **The rebalancing of a shard**: once its loop has ended, all its records are assigned to it. -/
theorem settling_rebalanceShard (hentity : entity ≠ .virtualAsset)
    (hclash : ClashFree env map foreignKeys now entity d)
    (hsplit : map.shards = pre ++ fromShardId :: post) (fuel : ℕ)
    (h : Settling env map now entity (pre ++ [fromShardId]) pre d db) :
    (rebalanceShard env map now fromShardId fuel : RowTask entity Bool).Yields
    (serveRow foreignKeys) db fun o db' =>
      ∃ ended, o = .ok ended ∧ Settling env map now entity (pre ++ [fromShardId]) pre d db' ∧
        (ended = true → ∀ x ∈ recordsOn entity db'.sources fromShardId,
          target env map now x = some fromShardId) := by
  induction fuel generalizing db with
  | zero => exact yields_ret ⟨false, rfl, h, fun h => nomatch h⟩
  | succ fuel ih =>
    have hread : serveRow foreignKeys (.find fromShardId batchSize 0) db =
        (.ok ((recordsOn entity db.sources fromShardId).take batchSize),
          ⟨db.sources, db.fates.tail⟩) :=
      serveRow_calm h.calm rfl
    refine yields_issue_bind (fun records hreply => ?_) fun e he => by simp [hread] at he
    rw [hread] at hreply ⊢
    obtain rfl : (recordsOn entity db.sources fromShardId).take batchSize = records :=
      Except.ok.inj hreply
    have h₁ : Settling env map now entity (pre ++ [fromShardId]) pre d
        ⟨db.sources, db.fates.tail⟩ :=
      ⟨h.calm.tail _, h.others, h.came, h.placed, h.contents⟩
    have hsub := List.take_subset batchSize (recordsOn entity db.sources fromShardId)
    have hall : ((recordsOn entity db.sources fromShardId).take batchSize).length < batchSize →
        (recordsOn entity db.sources fromShardId).take batchSize =
          recordsOn entity db.sources fromShardId := by
      intro hlt
      rw [List.length_take] at hlt
      exact List.take_of_length_le (by omega)
    split
    next hnone =>
      -- an empty batch is the end of the table
      refine yields_ret ⟨true, rfl, h₁, fun _ x hx => ?_⟩
      change x ∈ recordsOn entity db.sources fromShardId at hx
      rw [← hall (hnone ▸ by decide), List.eq_nil_of_length_eq_zero hnone] at hx
      cases hx
    -- the misplaced records of the batch are moved, group by group
    have hnodup : ((recordsOn entity db.sources fromShardId).take batchSize).Nodup :=
      (List.Nodup.of_map _ (db.sources fromShardId entity).nodup).sublist (List.take_sublist _ _)
    have hgrouped := perm_grouped (fun record : Stored entity => targetShard env map now record.row)
      (((recordsOn entity db.sources fromShardId).take batchSize).filter fun record =>
        targetShard env map now record.row ≠ some fromShardId)
    refine yields_bind (settling_moveBatch hentity hclash hsplit h₁
      (hgrouped.nodup_iff.mpr (hnodup.filter _))
      (misplaced_recordsToMove fun record hrecord _ => hsub hrecord)) ?_ fun _ _ h => nomatch h.1
    rintro _ db₂ ⟨-, h₂, hmoved⟩
    split
    next hless =>
      -- so is a short batch: what is left of it has its target here
      refine yields_ret ⟨true, rfl, h₂, fun _ x hx => ?_⟩
      rcases (hmoved fromShardId x).mp hx with ⟨htarget, -⟩ | ⟨hx, hnot⟩
      · exact htarget
      · by_contra hmisplaced
        refine hnot ⟨rfl, hgrouped.mem_iff.mpr
          (List.mem_filter.mpr ⟨?_, decide_eq_true hmisplaced⟩)⟩
        rw [hall hless]
        exact hx
    next => exact ih h₂

/-- The shards are settled one after the other. -/
theorem settling_rebalanceEntity (hentity : entity ≠ .virtualAsset)
    (hclash : ClashFree env map foreignKeys now entity d) (fuel : ℕ) {shardIds : List String}
    (hsplit : map.shards = pre ++ shardIds) (h : Settling env map now entity pre pre d db) :
    (rebalanceEntity env map now fuel shardIds : RowTask entity Bool).Yields
    (serveRow foreignKeys) db fun o db' =>
      o = .ok true → Settling env map now entity map.shards map.shards d db' := by
  induction shardIds generalizing pre db with
  | nil =>
    rw [List.append_nil] at hsplit
    exact yields_ret fun _ => hsplit ▸ h
  | cons fromShardId shardIds ih =>
    -- before its records move, the shard counts as visited: nothing has come from it
    have hopen : Settling env map now entity (pre ++ [fromShardId]) pre d db := by
      refine ⟨h.calm, h.others, fun shardId x hx => ?_, h.placed, h.contents⟩
      rcases h.came shardId x hx with hold | ⟨htarget, shardId', hshard', hrest⟩
      · exact .inl hold
      · exact .inr ⟨htarget, shardId', List.mem_append_left _ hshard', hrest⟩
    have hshard : (tryCatch (rebalanceShard env map now fromShardId fuel : RowTask entity Bool)
      fun _ => pure true).Yields
        (serveRow foreignKeys) db fun o db' => ∃ ended, o = .ok ended ∧
          Settling env map now entity (pre ++ [fromShardId]) pre d db' ∧
          (ended = true → ∀ x ∈ recordsOn entity db'.sources fromShardId,
            target env map now x = some fromShardId) := by
      refine yields_tryCatch (settling_rebalanceShard hentity hclash hsplit fuel hopen)
        (fun _ _ h => h) ?_
      rintro e db₁ ⟨_, heq, -⟩
      cases heq
    refine yields_bind hshard ?_ fun e db₁ ⟨_, heq, _⟩ => nomatch heq
    rintro ended db₁ ⟨_, heq, h₁, hended⟩
    obtain rfl := Except.ok.inj heq
    split
    next htrue =>
      -- the loop of the shard ended by itself, so all its records are in place
      have hsplit' : map.shards = (pre ++ [fromShardId]) ++ shardIds := by
        rw [hsplit, List.append_assoc]; rfl
      refine ih hsplit' ?_
      refine ⟨h₁.calm, h₁.others, h₁.came, fun shardId hshard => ?_, h₁.contents⟩
      rcases List.mem_append.mp hshard with hpre | hlast
      · exact h₁.placed shardId hpre
      · obtain rfl := List.mem_singleton.mp hlast
        exact hended htrue
    next => exact yields_ret fun h => nomatch h

variable (env map now entity)

/-- Every record is kept as it is, and lies where it is assigned to. -/
structure Kept (d d' : String → DataSource) : Prop where
  records : (rowsAt map.shards (recordsOn entity d')).Perm (rowsAt map.shards (recordsOn entity d))
  placed : ∀ shardId ∈ map.shards, ∀ record ∈ recordsOn entity d' shardId,
    target env map now record = some shardId

variable {env map now entity}

theorem Kept.conserved (h : Kept env map now entity d d') : Conserved env map now entity d d' :=
  ⟨h.records.map _, h.placed⟩

/-- **A rebalancing without clashes keeps the records**, when no statement fails. -/
theorem kept_of_clashFree (hentity : entity ≠ .virtualAsset) {fuel : ℕ} {db' : ShardDb}
    (hcalm : db.Calm) (hclash : ClashFree env map foreignKeys now entity db.sources)
    (hrun : rebalanced env map foreignKeys now entity fuel db = some db') :
    Kept env map now entity db.sources db'.sources := by
  have hstart : Settling env map now entity [] [] db.sources db :=
    ⟨hcalm, fun _ _ _ => rfl, fun _ _ hx => .inl hx, fun _ h => absurd h List.not_mem_nil,
      List.Perm.refl _⟩
  have hsplit : map.shards = [] ++ map.shards := rfl
  have hend := settling_rebalanceEntity hentity hclash fuel hsplit hstart
  unfold Prog.Yields at hend
  unfold rebalanced at hrun
  dsimp only at hrun
  split at hrun
  next hok =>
    obtain rfl := Option.some.inj hrun
    exact ⟨(hend hok).contents, (hend hok).placed⟩
  next => cases hrun

end Settling

end Sharding
