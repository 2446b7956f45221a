import PeerX.Sharding.Completed
import PeerX.Foundations.Runs

/-!
# Sharding: where a record is found

An insert places a record by the strategy of its caller, a rebalancing by the strategy of the entity
class, and a query looks for it by the strategy of its caller again. An object may give its strategy
another key than the row that is stored for it, and a shard that is provisioned takes over a part of
the ring.

## Main results

* `foundAt_of_getRepository`: the plans of a query list the shard of the repository
* `sound_perform`: what one call keeps
* `findable_throughout`: every record stays findable when every call agrees
* `not_findable_after_rebalance`: two trades that were inserted by their user are moved by their
  month
-/

namespace Sharding

open Concurrency Relational Distribution

/-! ## The calls -/

/-- The shards. `pending` is set while a rebalancing that a new shard has triggered is to come;
`inserted` is the list of the records that inserts have stored and no later insert has replaced,
which no code reads. -/
structure Cluster where
  map : ShardMap
  sources : String → DataSource
  pending : Bool := false
  inserted : (entity : Entity) → List (Stored entity) := fun _ => []

/-- The calls. An insert comes with the times at which its key is read and its row is stored, the
primary key that the table would generate, and the fate of its statement. -/
inductive ShardCall : Type
  | insert (entity : Entity) (draft : entity.Draft) (strategy : Option String) (now : ℤ)
    (generated : entity.Key) (storedAt : ℤ) (fate : Fate String)
  | provisionNewShard (shardId : String)
  | rebalanceShards (now : ℤ) (fuel : ℕ) (fates : List (Fate String))

section Calls

variable (env : Environment) (foreignKeys : Bool)

/-- The cluster after `initializeShards`, with empty databases. -/
def initializeShards (shardIds : List String) : Cluster where
  map := shardIds.foldl (ShardMap.addShard env) ⟨[], List.nodup_nil, []⟩
  sources := fun _ => DataSource.empty

/-- The records that inserts have stored, after one more that may have replaced another one. -/
def Cluster.recorded (s : Cluster) (entity : Entity) (new old : Option (Stored entity)) :
    List (Stored entity) :=
  new.toList ++ (s.inserted entity).diff old.toList

/-- The cluster after the row with a primary key was saved on a shard. -/
def Cluster.store (s : Cluster) (shardId : String) (entity : Entity) (id : entity.Key)
    (source : DataSource) :
    Cluster :=
  { s with
    sources := Function.update s.sources shardId source
    inserted := Function.update s.inserted entity
      (s.recorded entity ((source entity).table.find id)
        ((s.sources shardId entity).table.find id)) }

def insert (entity : Entity) (draft : entity.Draft) (strategy : Option String) (now : ℤ)
    (generated : entity.Key)
    (storedAt : ℤ) (fate : Fate String) (s : Cluster) : Except String Unit × Cluster :=
  match getRepository env s.map now (entity.data env draft) (strategy.getD "user") with
  | .error message => (.error message, s)
  | .ok shardId =>
    match (s.sources shardId).save foreignKeys draft generated storedAt (strategy.getD "user") with
    | .error message => (.error message, s)
    | .ok source =>
      (fate.reply (),
        if fate.carriedOut then s.store shardId entity
          ((entity.draftKey draft).getD generated) source else s)

/-- `provisionNewShard`, with an empty database. The rebalancing that it triggers is a call of
its own. -/
def provisionNewShard (shardId : String) (s : Cluster) : Except String Unit × Cluster :=
  if shardId ∈ s.map.shards then (.error s!"Shard with ID {shardId} already exists", s)
  else (.ok (), { s with
    map := s.map.addShard env shardId
    sources := Function.update s.sources shardId DataSource.empty
    pending := true })

/-- The cluster after a call; `none` when a rebalancing does not end within its reads. -/
def perform (s : Cluster) : ShardCall → Option Cluster
  | .insert entity draft strategy now generated storedAt fate =>
    some (insert env foreignKeys entity draft strategy now generated storedAt fate s).2
  | .provisionNewShard shardId => some (provisionNewShard env shardId s).2
  | .rebalanceShards now fuel fates =>
    (rebalanceShards env s.map foreignKeys now fuel ⟨s.sources, fates⟩).map fun db =>
      { s with sources := db.sources, pending := false }

/-- The cluster after a call, in a run that may have got stuck. -/
def clusterStep (s : Option Cluster) (call : ShardCall) : Option Cluster :=
  s.bind (perform env foreignKeys · call)

end Calls

/-! ## The property -/

section Property

variable (env : Environment)

/-- The properties of a record. -/
def Stored.data {entity : Entity} (record : Stored entity) : ShardData :=
  entity.data env (entity.draft record.row)

/-- Every property that the filters hold is the record's. -/
structure Matches (filters data : ShardData) : Prop where
  userId : ∀ userId ∈ filters.userId, data.userId = some userId
  id : ∀ id ∈ filters.id, data.id = some id
  timestamp : ∀ timestamp ∈ filters.timestamp, data.timestamp = some timestamp
  createdAt : ∀ createdAt ∈ filters.createdAt, data.createdAt = some createdAt
  asset : ∀ asset ∈ filters.asset, data.asset = some asset
  symbol : ∀ symbol ∈ filters.symbol, data.symbol = some symbol

/-- A record is found on a shard: at any time, the repository of its strategy is on the shard,
and every plan of its strategy with filters that match it lists the shard. -/
structure FoundAt (map : ShardMap) {entity : Entity} (record : Stored entity)
    (shardId : String) : Prop where
  repository : ∀ now, getRepository env map now (record.data env) record.strategy = .ok shardId
  plan : ∀ now filters timeRange, (∀ f ∈ filters, Matches f (record.data env)) →
    ∃ plan, createQueryPlan env map now record.strategy filters timeRange = .ok plan ∧
      shardId ∈ plan.shards

/-- The records of an entity class are found where they lie. -/
def Found (s : Cluster) (entity : Entity) : Prop :=
  ∀ shardId ∈ s.map.shards, ∀ record ∈ recordsOn entity s.sources shardId,
    FoundAt env s.map record shardId

/-- Every record that was inserted is stored once. -/
def Intact (s : Cluster) : Prop :=
  ∀ entity, (rowsAt s.map.shards (recordsOn entity s.sources)).Perm (s.inserted entity)

/-- Every record that was inserted is stored, and is found where it lies. -/
structure Findable (s : Cluster) : Prop where
  intact : Intact s
  found : ∀ entity, Found env s entity

end Property

/-! ## The condition -/

section Condition

variable (env : Environment) (foreignKeys : Bool)

/-- The key that a strategy reads from an object. -/
def shardKey (map : ShardMap) (now : ℤ) (strategy : String) (data : ShardData) :
    Option (Option ShardKey) :=
  (strategies env map now strategy).map fun shardingStrategy => shardingStrategy.getShardKey data

/-- The row that a save of an object stores. -/
def savedRow (source : DataSource) {entity : Entity} (draft : entity.Draft) (generated : entity.Key)
    (now : ℤ) :
    Option entity.Row :=
  let id := (entity.draftKey draft).getD generated
  match (source entity).table.find id with
  | some stored => some (entity.update draft stored.row)
  | none => entity.create draft id now

/-- A call agrees with the strategies of the records.

An insert gives its strategy the key that the stored row gives it, at any time. A new shard takes
over no asset, which no rebalancing moves. At a rebalancing no statement fails, no two records
clash, and each record is assigned by its own strategy to the shard it is moved to. -/
def Agrees (s : Cluster) : ShardCall → Prop
  | .insert entity draft strategy now generated storedAt _ =>
  (s.pending = true → entity = .virtualAsset) →
    ∀ shardId,
      getRepository env s.map now (entity.data env draft) (strategy.getD "user") = .ok shardId →
      ∀ row ∈ savedRow (s.sources shardId) draft generated storedAt, ∀ now',
        shardKey env s.map now' (strategy.getD "user") (entity.data env (entity.draft row)) =
          shardKey env s.map now (strategy.getD "user") (entity.data env draft)
  | .provisionNewShard shardId => shardId ∉ s.map.shards →
    ∀ oldShardId ∈ s.map.shards, ∀ record ∈ recordsOn .virtualAsset s.sources oldShardId, ∀ now,
      getRepository env (s.map.addShard env shardId) now (record.data env) record.strategy =
        getRepository env s.map now (record.data env) record.strategy
  | .rebalanceShards now _ fates => (∀ fate ∈ fates, fate = .succeeds) ∧
    ∀ entity, entity ≠ .virtualAsset → ClashFree env s.map foreignKeys now entity s.sources ∧
      ∀ shardId ∈ s.map.shards, ∀ record ∈ recordsOn entity s.sources shardId, ∀ now',
        getRepository env s.map now' (record.data env) record.strategy =
          shardOf s.map (rebalanceStrategy env s.map now entity) (record.data env)

end Condition

/-! ## Repositories and plans -/

section Lookup

variable {env : Environment} {map : ShardMap} {now : ℤ} {strategy : String} {data : ShardData}
    {shardId : String}

theorem shardOf_eq_ok {shardingStrategy : ShardingStrategy} :
    shardOf map shardingStrategy data = .ok shardId ↔
    shardingStrategy.getShard (shardingStrategy.getShardKey data) = .ok (some shardId) ∧
    shardId ∈ map.shards := by
  unfold shardOf
  cases hshard : shardingStrategy.getShard (shardingStrategy.getShardKey data) with
  | error message => simp [bind, Except.bind]
  | ok target =>
    cases target with
    | none => simp [bind, Except.bind, throw, throwThe, MonadExceptOf.throw]
    | some target =>
      by_cases htarget : target ∈ map.shards
      · have hkept : (some target).filter (fun shardId => decide (shardId ∈ map.shards)) =
            some target := by
          simp [Option.filter, htarget]
        simp only [bind, Except.bind, hkept, pure, Except.pure, Except.ok.injEq, Option.some.injEq]
        constructor
        · rintro rfl
          exact ⟨rfl, htarget⟩
        · exact And.left
      · have hnone : (some target).filter
            (fun shardId => decide (shardId ∈ map.shards)) = none := by
          simp [Option.filter, htarget]
        simp only [bind, Except.bind, hnone, throw, throwThe, MonadExceptOf.throw, Except.ok.injEq,
          Option.some.injEq]
        refine iff_of_false nofun ?_
        rintro ⟨rfl, hmem⟩
        exact htarget hmem

theorem getRepository_eq_ok : getRepository env map now data strategy = .ok shardId ↔
    ∃ shardingStrategy, strategies env map now strategy = some shardingStrategy ∧
      shardOf map shardingStrategy data = .ok shardId := by
  unfold getRepository
  cases strategies env map now strategy with
  | none => simp
  | some shardingStrategy => simp

/-- **The plans list the shard of the repository.** The user strategy reads nothing but the user of
the filters. -/
theorem foundAt_of_getRepository {entity : Entity} {record : Stored entity}
    (h : ∀ now, getRepository env map now (record.data env) record.strategy = .ok shardId) :
    FoundAt env map record shardId := by
  refine ⟨h, fun now filters timeRange hfilters => ?_⟩
  obtain ⟨shardingStrategy, hstrategy, hshard⟩ := getRepository_eq_ok.mp (h now)
  obtain ⟨hget, hmem⟩ := shardOf_eq_ok.mp hshard
  unfold createQueryPlan
  rw [hstrategy]
  dsimp only
  split
  · exact ⟨_, rfl, hmem⟩
  split
  next f hf =>
    obtain ⟨hsome, hcondition⟩ := Option.filter_eq_some_iff.mp hf
    obtain ⟨huser, hname⟩ := of_decide_eq_true hcondition
    have hmatches := hfilters f hsome
    rw [hname] at hstrategy
    obtain rfl : userStrategy env map = shardingStrategy := Option.some.inj hstrategy
    cases hf' : f.userId with
    | none => simp [hf'] at huser
    | some userId =>
      have hrecord := hmatches.userId userId hf'
      have hkey : (userStrategy env map).getShardKey f = (userStrategy env map).getShardKey
          (record.data env) := by
        simp [userStrategy, hf', hrecord]
      rw [hkey, hget]
      exact ⟨_, rfl, List.mem_singleton_self _⟩
  · exact ⟨_, rfl, hmem⟩

end Lookup

/-! ## Inserts -/

section Insert

variable {env : Environment} {map : ShardMap} {foreignKeys : Bool} {now now' : ℤ}
    {strategy shardId : String}

/-- A strategy finds the shard of a key in the same way at any time. -/
theorem getShard_of_strategies {shardingStrategy shardingStrategy' : ShardingStrategy}
    (h : strategies env map now strategy = some shardingStrategy)
    (h' : strategies env map now' strategy = some shardingStrategy') :
    shardingStrategy'.getShard = shardingStrategy.getShard := by
  unfold strategies at h h'
  split at h <;> cases h <;> cases h' <;> rfl

/-- Objects with the same key have the same repository. -/
theorem getRepository_of_shardKey {data data' : ShardData}
    (hkey : shardKey env map now' strategy data' = shardKey env map now strategy data)
    (h : getRepository env map now data strategy = .ok shardId) :
    getRepository env map now' data' strategy = .ok shardId := by
  obtain ⟨shardingStrategy, hstrategy, hshard⟩ := getRepository_eq_ok.mp h
  unfold shardKey at hkey
  rw [hstrategy, Option.map_some, Option.map_eq_some_iff] at hkey
  obtain ⟨shardingStrategy', hstrategy', hsame⟩ := hkey
  refine getRepository_eq_ok.mpr ⟨shardingStrategy', hstrategy', shardOf_eq_ok.mpr ?_⟩
  rw [hsame, getShard_of_strategies hstrategy hstrategy']
  exact shardOf_eq_ok.mp hshard

variable {entity : Entity}

theorem key_update (draft : entity.Draft) (row : entity.Row) :
    entity.key (entity.update draft row) = entity.key row := by
  cases entity <;> rfl

theorem key_create {draft : entity.Draft} {id : entity.Key} {row : entity.Row}
    (h : entity.create draft id now = some row) : entity.key row = id := by
  cases entity <;> simp only [Entity.create, bind, Option.bind_eq_some_iff]
    at h <;> grind [Entity.key]

/-- What a save does: the row takes the place of the one with its key. -/
theorem save_eq_ok {source source' : DataSource} {draft : entity.Draft} {generated : entity.Key}
    (h : source.save foreignKeys draft generated now strategy = .ok source') :
    ∃ row, savedRow source draft generated now = some row ∧
    entity.key row = (entity.draftKey draft).getD generated ∧
      ∃ hindex, source' = Function.update source entity
      ((source entity).save ⟨row, strategy⟩ hindex) := by
  unfold DataSource.save at h
  unfold savedRow
  dsimp only at h ⊢
  cases hstored : (source entity).table.find ((entity.draftKey draft).getD generated) with
  | some stored =>
    have hkey : stored.key = (entity.draftKey draft).getD generated := Table.key_of_find hstored
    simp only [hstored] at h ⊢
    split at h
    · obtain ⟨hindex, -, heq⟩ := DataSource.saveRow_eq_ok h
      exact ⟨_, rfl, (key_update draft stored.row).trans hkey, hindex, heq⟩
    · cases h
  | none =>
    simp only [hstored] at h ⊢
    cases hrow : entity.create draft ((entity.draftKey draft).getD generated) now with
    | none =>
      rw [hrow] at h
      cases h
    | some row =>
      rw [hrow] at h
      obtain ⟨hindex, -, heq⟩ := DataSource.saveRow_eq_ok h
      exact ⟨row, rfl, key_create hrow, hindex, heq⟩

end Insert

/-! ## One call -/

section Step

variable {env : Environment} {foreignKeys : Bool} {s s' : Cluster} {entity : Entity}
    {shardId : String}

/-- The records are intact, and those that no rebalancing is to move are found. -/
structure Sound (env : Environment) (s : Cluster) : Prop where
  intact : Intact s
  found : ∀ entity, (s.pending = true → entity = .virtualAsset) → Found env s entity

theorem Sound.findable (h : Sound env s) (hpending : s.pending = false) : Findable env s :=
  ⟨h.intact, fun entity => h.found entity fun htrue => by rw [hpending] at htrue; cases htrue⟩

theorem recordsOn_store (s : Cluster) (shardId : String) (entity : Entity) (id : entity.Key)
    (source : DataSource)
    (other : Entity) : recordsOn other (s.store shardId entity id source).sources =
      Function.update (recordsOn other s.sources) shardId (source other).rows := by
  funext S
  by_cases hS : S = shardId
  · subst hS
    rw [Function.update_self]
    exact congrArg (fun source : DataSource => (source other).rows) (Function.update_self _ _ _)
  · rw [Function.update_of_ne hS]
    exact congrArg (fun source : DataSource => (source other).rows) (Function.update_of_ne hS _ _)

/-- A saved row is counted once: it is added, or takes the place of the one with its key. -/
theorem intact_store (h : Intact s) (hshard : shardId ∈ s.map.shards) {record : Stored entity}
    (hindex : ¬ (s.sources shardId entity).Conflicts record) :
    Intact (s.store shardId entity record.key (Function.update (s.sources shardId) entity
      ((s.sources shardId entity).save record hindex))) := by
  intro other
  rw [recordsOn_store]
  by_cases hother : other = entity
  · subst hother
    have hnew : ((s.sources shardId other).save record hindex).table.find record.key =
        some record :=
      Table.find_save_self _ _
    have hrows : ((s.sources shardId other).save record hindex).rows.Perm
        ([record] ++ ((s.sources shardId other).table.erase record.key).rows) :=
          Table.perm_save_erase _ _
    dsimp only [Cluster.store]
    rw [Function.update_self, Function.update_self, hnew, Cluster.recorded, Option.toList_some]
    cases hold : (s.sources shardId other).table.find record.key with
    | none =>
      have hrest : (recordsOn other s.sources shardId).Perm
          ([] ++ ((s.sources shardId other).table.erase record.key).rows) :=
        List.Perm.of_eq (Table.erase_of_find_eq_none hold).symm
      have hreplace := rowsAt_replace s.map.nodup hshard hrest hrows
      rw [List.append_nil] at hreplace
      exact hreplace.trans (((h other).append_right _).trans List.perm_append_comm)
    | some old =>
      have hkey : old.key = record.key := Table.key_of_find hold
      have hmem := Table.mem_of_find hold
      have hrest : (recordsOn other s.sources shardId).Perm
          ([old] ++ ((s.sources shardId other).table.erase record.key).rows) :=
            hkey ▸ Table.perm_erase hmem
      have hreplace := rowsAt_replace s.map.nodup hshard hrest hrows
      have hinserted : old ∈ s.inserted other :=
        (h other).subset (mem_rowsAt.mpr ⟨shardId, hshard, hmem⟩)
      -- the replaced row is on both sides
      have hboth :=
        hreplace.trans (((h other).trans (List.perm_cons_erase hinserted)).append_right [record])
      have hcancel := (List.perm_cons old).mp (List.perm_append_comm.trans hboth)
      rw [Option.toList_some, List.diff_cons, List.diff_nil]
      exact hcancel.trans List.perm_append_comm
  · have hsame : (Function.update (s.sources shardId) entity
      ((s.sources shardId entity).save record hindex)
        other).rows = recordsOn other s.sources shardId := congrArg Indexed.rows
          (Function.update_of_ne hother _ _)
    rw [hsame, Function.update_eq_self]
    refine (h other).trans (List.Perm.of_eq ?_)
    exact (Function.update_of_ne hother _ _).symm

/-- An insert that agrees with its strategy. -/
theorem sound_insert (h : Sound env s) {draft : entity.Draft} {strategy : Option String}
    {now storedAt : ℤ} {generated : entity.Key} {fate : Fate String}
    (hagrees : Agrees env foreignKeys s
      (.insert entity draft strategy now generated storedAt fate)) :
    Sound env (insert env foreignKeys entity draft strategy now generated storedAt fate s).2 := by
  unfold insert
  cases hrepository : getRepository env s.map now (entity.data env draft)
    (strategy.getD "user") with
  | error message => exact h
  | ok shardId =>
    dsimp only
    cases hsave : (s.sources shardId).save foreignKeys draft generated storedAt
      (strategy.getD "user") with
    | error message => exact h
    | ok source =>
      dsimp only
      split
      · obtain ⟨_, -, hshardOf⟩ := getRepository_eq_ok.mp hrepository
        obtain ⟨-, hshard⟩ := shardOf_eq_ok.mp hshardOf
        obtain ⟨row, hrow, hkey, hindex, rfl⟩ := save_eq_ok hsave
        rw [← hkey]
        refine ⟨intact_store h.intact hshard hindex, fun other hpending S hS x hx => ?_⟩
        rw [recordsOn_store] at hx
        have hold : x ∈ recordsOn other s.sources S → FoundAt env s.map x S :=
          h.found other hpending S hS x
        by_cases hS' : S = shardId
        · subst hS'
          rw [Function.update_self] at hx
          by_cases hother : other = entity
          · subst hother
            rw [Function.update_self] at hx
            rcases Indexed.mem_save.mp hx with rfl | ⟨hx, -⟩
            · -- the stored row has the key that the object had
              refine foundAt_of_getRepository fun now' => ?_
              exact getRepository_of_shardKey
                (hagrees hpending S hrepository row hrow now') hrepository
            · exact hold hx
          · rw [Function.update_of_ne hother] at hx
            exact hold hx
        · rw [Function.update_of_ne hS'] at hx
          exact hold hx
      · exact h

theorem shards_addShard (env : Environment) (map : ShardMap) {shardId : String}
    (hnew : shardId ∉ map.shards) :
    (map.addShard env shardId).shards = map.shards ++ [shardId] := if_neg hnew

/-- A new shard that takes over no asset. -/
theorem sound_provisionNewShard (h : Sound env s)
    (hagrees : Agrees env foreignKeys s (.provisionNewShard shardId)) :
    Sound env (provisionNewShard env shardId s).2 := by
  unfold provisionNewShard
  split
  · exact h
  next hnew =>
  -- the new shard is empty, and the others keep their records
  have hsame : ∀ entity, ∀ S ∈ s.map.shards,
      recordsOn entity (Function.update s.sources shardId DataSource.empty) S =
        recordsOn entity s.sources S :=
    fun entity S hS => congrArg (fun source : DataSource => (source entity).rows)
      (Function.update_of_ne (ne_of_mem_of_not_mem hS hnew) _ _)
  have hempty : ∀ entity,
      recordsOn entity (Function.update s.sources shardId DataSource.empty) shardId = [] := by
    intro entity
    rw [recordsOn, Function.update_self]
    rfl
  refine ⟨fun entity => ?_, fun entity hpending S hS x hx => ?_⟩
  · dsimp only
    rw [shards_addShard env s.map hnew, rowsAt, List.flatMap_append,
      List.flatMap_congr (hsame entity),
      List.flatMap_singleton, hempty, List.append_nil]
    exact h.intact entity
  · obtain rfl := hpending rfl
    dsimp only at hS hx
    rw [shards_addShard env s.map hnew] at hS
    rcases List.mem_append.mp hS with hold | hlast
    · rw [hsame _ S hold] at hx
      refine foundAt_of_getRepository fun now => ?_
      exact (hagrees hnew S hold x hx now).trans
        ((h.found .virtualAsset (fun _ => rfl) S hold x hx).repository now)
    · obtain rfl := List.mem_singleton.mp hlast
      rw [hempty] at hx
      exact absurd hx List.not_mem_nil

theorem assets_of_completed {map : ShardMap} {now : ℤ} {fuel : ℕ} {db db' : ShardDb}
    (hrun : rebalanceShards env map foreignKeys now fuel db = some db') (shardId : String) :
    db'.sources shardId .virtualAsset = db.sources shardId .virtualAsset := by
  unfold rebalanceShards at hrun
  split at hrun
  · rw [Option.some.inj hrun]
  · obtain ⟨db₁, htrades, hbalances⟩ := Option.bind_eq_some_iff.mp hrun
    exact (others_of_rebalanced (by decide) hbalances (by decide) shardId).trans
      (others_of_rebalanced (by decide) htrades (by decide) shardId)

/-- A rebalancing that moves each record to where its own strategy finds it. -/
theorem sound_rebalanceShards (h : Sound env s) {now : ℤ} {fuel : ℕ} {fates : List (Fate String)}
    (hagrees : Agrees env foreignKeys s (.rebalanceShards now fuel fates))
    (hrun : perform env foreignKeys s (.rebalanceShards now fuel fates) = some s') :
    Sound env s' := by
  obtain ⟨db', hcompleted, rfl⟩ := Option.map_eq_some_iff.mp hrun
  obtain ⟨hcalm, hclasses⟩ := hagrees
  have hassets : recordsOn .virtualAsset db'.sources = recordsOn .virtualAsset s.sources :=
    recordsOn_congr (assets_of_completed hcompleted)
  have hkept : ∀ entity, entity ≠ .virtualAsset → Kept env s.map now entity s.sources db'.sources :=
    fun entity hentity => kept_of_completed hentity hcompleted hcalm (hclasses entity hentity).1
  refine ⟨fun entity => ?_, fun entity _ S hS x hx => ?_⟩
  · by_cases hentity : entity = .virtualAsset
    · subst hentity
      exact hassets.symm ▸ h.intact .virtualAsset
    · exact (hkept entity hentity).records.trans (h.intact entity)
  · by_cases hentity : entity = .virtualAsset
    · subst hentity
      exact h.found .virtualAsset (fun _ => rfl) S hS x (hassets ▸ hx)
    · obtain ⟨hrecords, hplaced⟩ := hkept entity hentity
      obtain ⟨S', hS', hx'⟩ := mem_rowsAt.mp (hrecords.subset (mem_rowsAt.mpr ⟨S, hS, hx⟩))
      have htarget : targetShard env s.map now x.row = some S := hplaced S hS x hx
      refine foundAt_of_getRepository fun now' => ?_
      rw [(hclasses entity hentity).2 S' hS' x hx' now']
      refine shardOf_eq_ok.mpr ⟨?_, hS⟩
      rw [← htarget]
      exact getShard_record env s.map now hentity x.row

/-- **What one call keeps.** -/
theorem sound_perform (h : Sound env s) (call : ShardCall) (hagrees : Agrees env foreignKeys s call)
    (hrun : perform env foreignKeys s call = some s') : Sound env s' := by
  cases call with
  | insert entity draft strategy now generated storedAt fate =>
    obtain rfl := Option.some.inj hrun
    exact sound_insert h hagrees
  | provisionNewShard shardId =>
    obtain rfl := Option.some.inj hrun
    exact sound_provisionNewShard h hagrees
  | rebalanceShards now fuel fates => exact sound_rebalanceShards h hagrees hrun

end Step

/-! ## Runs -/

theorem sound_initializeShards (env : Environment) (shardIds : List String) :
    Sound env (initializeShards env shardIds) := by
  refine ⟨fun entity => ?_, fun entity _ S _ x hx => absurd hx List.not_mem_nil⟩
  have hnone : rowsAt (initializeShards env shardIds).map.shards
      (recordsOn entity (initializeShards env shardIds).sources) = [] :=
        List.flatMap_eq_nil_iff.mpr fun _ _ => rfl
  exact List.Perm.of_eq hnone

/-- **Every record stays findable.** In every run of inserts, new shards and rebalancings whose
calls all agree with the strategies of the records, every record that was inserted is stored and is
found where it lies, in every state in which no rebalancing is to come. -/
theorem findable_throughout (env : Environment) (foreignKeys : Bool) (shardIds : List String)
    (calls : List ShardCall)
    (hagrees : Along (clusterStep env foreignKeys)
      (fun s call => ∀ cluster ∈ s, Agrees env foreignKeys cluster call)
      (some (initializeShards env shardIds)) calls) :
    Throughout (clusterStep env foreignKeys)
      (fun s => ∀ cluster ∈ s, cluster.pending = false → Findable env cluster)
      (some (initializeShards env shardIds)) calls := by
  have hstep : ∀ (s : Option Cluster) (call : ShardCall), (∀ cluster ∈ s, Sound env cluster) →
      (∀ cluster ∈ s, Agrees env foreignKeys cluster call) →
        ∀ cluster ∈ clusterStep env foreignKeys s call, Sound env cluster := by
    intro s call hsound hcall cluster hcluster
    obtain ⟨before, hbefore, hrun⟩ := Option.bind_eq_some_iff.mp hcluster
    exact sound_perform (hsound before hbefore) call (hcall before hbefore) hrun
  have hstart : ∀ cluster ∈ some (initializeShards env shardIds), Sound env cluster := by
    rintro _ ⟨⟩
    exact sound_initializeShards env shardIds
  exact (throughout_of_invariant hstep hstart hagrees).mono fun s hsound cluster hcluster =>
    (hsound cluster hcluster).findable

/-! ## Trades of January and February -/

/-- A trade of user 1, with its id and its time. -/
def tradeDraft (id : String) (timestamp : ℤ) : TradeDraft where
  id := id
  userId := some 1
  asset := some "BTC"
  type := some "BUY"
  amount := some 1
  price := some 50000
  timestamp := some timestamp

/-- A trade is inserted by its month, a shard is added, and the shards are rebalanced. -/
def insertedByMonth : List ShardCall :=
  [.insert .trade (tradeDraft "january" 0) (some "time") 0 "" 0 .succeeds,
    .provisionNewShard "shard2",
    .rebalanceShards 0 1 []]

/-- The trade lies on the shard of its month. -/
theorem findable_throughout_byMonth :
    Throughout (clusterStep early1970 true)
      (fun s => ∀ cluster ∈ s, cluster.pending = false → Findable early1970 cluster)
      (some (initializeShards early1970 ["shard1"])) insertedByMonth := by
  apply findable_throughout
  refine ⟨?_, ?_, ?_, trivial⟩
  · rintro _ ⟨⟩ - shardId - row hrow now'
    obtain rfl := Option.some.inj hrow
    rfl
  · intro cluster hcluster
    obtain rfl := Option.some.inj hcluster
    intro _ shardId hshard record hrecord
    obtain rfl := List.mem_singleton.mp hshard
    exact absurd hrecord List.not_mem_nil
  · intro cluster hcluster
    obtain rfl := Option.some.inj hcluster
    refine ⟨fun _ h => absurd h List.not_mem_nil, fun entity hentity => ?_⟩
    cases entity with
    | trade =>
      refine ⟨⟨by decide +kernel, by decide +kernel, by decide +kernel⟩,
        fun shardId hshard record hrecord now' => ?_⟩
      rcases List.mem_pair.mp hshard with rfl | rfl
      · obtain rfl := List.mem_singleton.mp hrecord
        rfl
      · exact absurd hrecord List.not_mem_nil
    | userBalance =>
      refine ⟨⟨by decide +kernel, by decide +kernel, by decide +kernel⟩,
        fun shardId hshard record hrecord => ?_⟩
      rcases List.mem_pair.mp hshard with rfl | rfl
      · exact absurd hrecord List.not_mem_nil
      · exact absurd hrecord List.not_mem_nil
    | virtualAsset => exact absurd rfl hentity

/-! ## Trades of a user -/

section ByUser

/-- The calendar of the beginning of 1970, with a hash. -/
def calendar1970 (hash : String → ℕ) : Environment := { early1970 with hashString := hash }

/-- An insert of a trade of user 1, with the strategy by default. -/
def insertByUser (id : String) (timestamp : ℤ) : ShardCall :=
  .insert .trade (tradeDraft id timestamp) none 0 "" 0 .succeeds

/-- A trade of January and one of February are inserted by their user, and the shards are
rebalanced. -/
def insertedByUser : List ShardCall :=
  [insertByUser "january" 0, insertByUser "february" 2678400000, .rebalanceShards 0 1 []]

/-- A trade of user 1 that was inserted by its user. -/
def userTrade (id : String) (timestamp : ℤ) : Stored .trade where
  row :=
    { id, userId := 1, asset := "BTC", type := "BUY", amount := 1, price := 50000, totalValue := 0
      status := "PENDING", timestamp, createdAt := 0 }
  strategy := "user"

/-- The trades of the two months. -/
def bothMonths : Store .trade :=
  (storeOf (userTrade "january" 0)).save (userTrade "february" 2678400000) (by decide)

/-- The shards when both trades lie on one of them. -/
def bothOn (shardId : String) : String → DataSource :=
  Function.update (fun _ => DataSource.empty) shardId
    (Function.update DataSource.empty .trade bothMonths)

variable {env : Environment} {shardId : String}

theorem exists_shard_user (env : Environment) :
    ∃ shardId ∈ (twoOnRing env).shards, ∀ (data : ShardData) (now : ℤ),
    data.userId = some 1 → getRepository env (twoOnRing env) now data "user" = .ok shardId := by
  have hring : (twoOnRing env).OnRing := (onRing_empty.addShard "shard1").addShard "shard2"
  have hmem : (twoOnRing env).consistentHash env "1" ∈ (twoOnRing env).shards :=
    hring.consistentHash (List.cons_ne_nil "shard1" ["shard2"]) "1"
  refine ⟨_, hmem, fun data now huser => ?_⟩
  refine getRepository_eq_ok.mpr ⟨userStrategy env (twoOnRing env), rfl,
    shardOf_eq_ok.mpr ⟨?_, hmem⟩⟩
  simp only [userStrategy, huser]
  rfl

theorem insert_of_save {s : Cluster} {entity : Entity} {draft : entity.Draft}
    {generated : entity.Key} {now : ℤ} {source : DataSource}
    (hrepository : getRepository env s.map now (entity.data env draft) "user" = .ok shardId)
    (hsave : (s.sources shardId).save true draft generated now "user" = .ok source) :
    insert env true entity draft none now generated now .succeeds s =
      (.ok (), s.store shardId entity ((entity.draftKey draft).getD generated) source) := by
  unfold insert
  rw [Option.getD_none, hrepository]
  dsimp only
  rw [hsave]
  rfl

theorem save_january :
    @DataSource.save DataSource.empty true .trade (tradeDraft "january" 0) "" 0 "user" =
      .ok (Function.update DataSource.empty .trade (storeOf (userTrade "january" 0))) := rfl

theorem save_february :
    @DataSource.save
        (Function.update DataSource.empty .trade (storeOf (userTrade "january" 0))) true .trade
        (tradeDraft "february" 2678400000) "" 0 "user" =
      .ok (Function.update DataSource.empty .trade bothMonths) := by
  have hsave : @DataSource.save (Function.update DataSource.empty .trade
    (storeOf (userTrade "january" 0))) true .trade
      (tradeDraft "february" 2678400000) "" 0 "user" =
        .ok (Function.update (Function.update DataSource.empty .trade _) .trade bothMonths) := rfl
  rwa [Function.update_idem] at hsave

/-- Both trades are placed on the shard of their user. -/
theorem run_inserts (hrepository : ∀ (data : ShardData) (now : ℤ), data.userId = some 1 →
    getRepository env (twoOnRing env) now data "user" = .ok shardId) :
    ∃ s, clusterStep env true
    (clusterStep env true (some (initializeShards env ["shard1", "shard2"]))
        (insertByUser "january" 0)) (insertByUser "february" 2678400000) = some s ∧
      s.map = twoOnRing env ∧ s.pending = false ∧ s.sources = bothOn shardId := by
  set s := initializeShards env ["shard1", "shard2"]
  set s' :=
    s.store shardId .trade "january" (Function.update DataSource.empty .trade
      (storeOf (userTrade "january" 0)))
  have hjanuary : getRepository env s.map 0
      (Entity.trade.data env (tradeDraft "january" 0)) "user" = .ok shardId :=
    hrepository _ 0 rfl
  have hfebruary : getRepository env s'.map 0
    (Entity.trade.data env (tradeDraft "february" 2678400000)) "user" =
      .ok shardId := hrepository _ 0 rfl
  have hsource : s'.sources shardId = Function.update DataSource.empty .trade
      (storeOf (userTrade "january" 0)) :=
    Function.update_self _ _ _
  have hfirst := insert_of_save hjanuary save_january
  have hsecond := insert_of_save hfebruary (hsource ▸ save_february)
  have hstep : ∀ (s : Cluster) (id : String) (timestamp : ℤ),
    clusterStep env true (some s) (insertByUser id timestamp) =
      some (insert env true .trade (tradeDraft id timestamp) none 0 "" 0 .succeeds
        s).2 := fun _ _ _ => rfl
  refine ⟨(insert env true .trade (tradeDraft "february" 2678400000) none 0 "" 0 .succeeds s').2,
    ?_, ?_, ?_, ?_⟩
  · rw [hstep, hfirst]
    exact hstep s' _ _
  · rw [hsecond]
    rfl
  · rw [hsecond]
    rfl
  · rw [hsecond]
    exact Function.update_idem _ _ _

theorem mem_bothOn {S : String} {record : Stored .trade}
    (h : record ∈ recordsOn .trade (bothOn shardId) S) :
    S = shardId ∧ (record = userTrade "january" 0 ∨ record = userTrade "february" 2678400000) := by
  by_cases hS : S = shardId
  · subst hS
    refine ⟨rfl, ?_⟩
    rw [recordsOn, bothOn, Function.update_self, Function.update_self] at h
    rcases Indexed.mem_save.mp h with rfl | ⟨h, -⟩
    · exact .inr rfl
    · exact .inl (List.mem_singleton.mp h)
  · rw [recordsOn, bothOn, Function.update_of_ne hS] at h
    exact absurd h List.not_mem_nil

theorem target_userTrade (hash : String → ℕ) (id : String) (timestamp : ℤ) :
    target (calendar1970 hash) (twoOnRing (calendar1970 hash)) 0 (userTrade id timestamp) =
      some (if timestamp < 2678400000 then "shard1" else "shard2") := by
  have hshards : ∀ env, (twoOnRing env).shards = ["shard1", "shard2"] := fun _ => rfl
  simp only [target, targetShard, rebalanceStrategy, timeStrategy, Entity.data, Entity.draft,
    userTrade, calendar1970,
    early1970, Option.orElse_some, Option.getD_some, hshards]
  by_cases hjanuary : timestamp < 2678400000
  · simp [hjanuary, Except.toOption]
  · simp [hjanuary, Except.toOption]

theorem clashFree_bothOn (hash : String → ℕ) :
    ClashFree (calendar1970 hash) (twoOnRing (calendar1970 hash)) true 0 .trade
    (bothOn shardId) := by
  refine ⟨fun S _ record hrecord => ?_, ?_, ?_⟩
  · obtain ⟨-, rfl | rfl⟩ := mem_bothOn hrecord
    · exact ⟨"shard1", List.mem_cons_self, target_userTrade hash "january" 0, fun _ _ => trivial⟩
    · exact ⟨"shard2", List.mem_cons_of_mem _ List.mem_cons_self,
        target_userTrade hash "february" 2678400000,
        fun _ _ => trivial⟩
  · refine List.pairwise_pair.mpr fun record hrecord record' hrecord' => ?_
    have hsame := (mem_bothOn hrecord).1.trans (mem_bothOn hrecord').1.symm
    exact absurd hsame (by decide)
  · exact List.pairwise_pair.mpr fun record _ record' _ _ => rfl

/-- **Two trades of a user are not found after a rebalancing**, whatever the hash: their user has
one shard, and their months have two. -/
theorem not_findable_after_rebalance : ¬ ∃ hash, Throughout (clusterStep (calendar1970 hash) true)
    (fun s => ∀ cluster ∈ s, cluster.pending = false → Findable (calendar1970 hash) cluster)
    (some (initializeShards (calendar1970 hash) ["shard1", "shard2"])) insertedByUser := by
  rintro ⟨hash, hall⟩
  obtain ⟨shardId, hshard, hrepository⟩ := exists_shard_user (calendar1970 hash)
  obtain ⟨s, hrun, hmap, hpending, hsources⟩ := run_inserts hrepository
  set env := calendar1970 hash
  have hshards : (twoOnRing env).shards = ["shard1", "shard2"] := rfl
  have hfew : ∀ entity, (rowsAt (twoOnRing env).shards
      (recordsOn entity (ShardDb.mk (bothOn shardId) []).sources)).length < batchSize := by
    intro entity
    rw [hshards]
    rcases List.mem_pair.mp hshard with rfl | rfl <;> cases entity <;> decide
  obtain ⟨db', hcompleted⟩ := completed_of_few env true 0 0 (hfew .trade) (hfew .userBalance)
  have hkept : Kept env (twoOnRing env) 0 .trade (bothOn shardId) db'.sources :=
    kept_of_completed (by decide) hcompleted (fun _ h => absurd h List.not_mem_nil)
      (clashFree_bothOn hash)
  have hend : clusterStep env true (some s) (.rebalanceShards 0 1 []) =
      some { s with sources := db'.sources, pending := false } := by
    change (rebalanceShards env s.map true 0 1 ⟨s.sources, []⟩).map _ = _
    rw [hmap, hsources, hcompleted]
    rfl
  obtain ⟨-, -, -, hfinal⟩ := hall
  rw [hrun, hend] at hfinal
  have hfound := (hfinal _ rfl rfl).found .trade
  -- the shard of the user is the one of each month
  have hmonth : ∀ record ∈ bothMonths.rows, record.row.userId = 1 → record.strategy = "user" →
      target env (twoOnRing env) 0 record = some shardId := by
    intro record hrecord huser hstrategy
    have hold : record ∈ recordsOn .trade (bothOn shardId) shardId := by
      rw [recordsOn, bothOn, Function.update_self, Function.update_self]
      exact hrecord
    obtain ⟨S, hS, hnew⟩ :=
      mem_rowsAt.mp (hkept.records.symm.subset (mem_rowsAt.mpr ⟨shardId, hshard, hold⟩))
    have hrepositoryAt := (hfound S (hmap.symm ▸ hS) record hnew).repository 0
    have huserAt := hrepository (record.data env) 0 (congrArg some huser)
    rw [hstrategy] at hrepositoryAt
    dsimp only at hrepositoryAt
    rw [hmap, huserAt] at hrepositoryAt
    obtain rfl := Except.ok.inj hrepositoryAt
    exact hkept.placed shardId hS record hnew
  have hjanuary := hmonth (userTrade "january" 0) (by decide) rfl rfl
  have hfebruary := hmonth (userTrade "february" 2678400000) (by decide) rfl rfl
  rw [target_userTrade] at hjanuary hfebruary
  exact absurd (hjanuary.trans hfebruary.symm) (by decide)

end ByUser

end Sharding
