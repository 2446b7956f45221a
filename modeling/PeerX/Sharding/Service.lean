import PeerX.Sharding.Entities
import Mathlib.Data.List.Sort

/-!
# Sharding: strategies and the hash ring

A strategy reads a key from an object, and finds the shard of the key: on a hash ring with virtual
nodes, or by the position of the shard in the map of shards. The hash of a text, the calendar of the
service and the text of an object are taken as they are. The key of a month, which the time strategy
splits again, is kept as its year and its month.
-/

namespace Sharding

/-- A virtual node. -/
structure RingNode where
  hash : ℕ
  shardId : String
deriving DecidableEq

/-- The environment of the service. -/
structure Environment where
  /-- `hashString`. -/
  hashString : String → ℕ
  /-- `getFullYear` and `getMonth` of a time. -/
  localMonth : ℤ → ℤ × ℕ
  /-- `JSON.stringify`. -/
  stringify : (entity : Entity) → entity.Draft → String

/-- The shards: their distinct ids in the order of the map, and the ring. -/
structure ShardMap where
  shards : List String := []
  nodup : shards.Nodup := by decide
  hashRing : List RingNode := []

/-- The number of virtual nodes of a shard. -/
def virtualNodes : ℕ := 100

variable (env : Environment)

/-- The virtual nodes of a shard. -/
def ringNodes (shardId : String) : List RingNode :=
  (List.range virtualNodes).map fun i => ⟨env.hashString s!"{shardId}:{i}", shardId⟩

namespace ShardMap

variable (map : ShardMap)

/-- `addShardToRing`. The sort is stable. -/
def addShardToRing (shardId : String) : ShardMap :=
  { map with hashRing := (map.hashRing ++ ringNodes env shardId).insertionSort fun a b => a.hash ≤ b.hash }

def removeShardFromRing (shardId : String) : ShardMap :=
  { map with hashRing := map.hashRing.filter fun node => node.shardId ≠ shardId }

/-- A shard is set in the map, where it keeps its place, and added to the ring. -/
def addShard (shardId : String) : ShardMap :=
  let added : ShardMap :=
    { shards := if shardId ∈ map.shards then map.shards else map.shards ++ [shardId]
      nodup := by
        split
        next => exact map.nodup
        next hnew => exact List.nodup_append.mpr ⟨map.nodup, List.nodup_singleton _, by grind⟩
      hashRing := map.hashRing }
  added.addShardToRing env shardId

/-- The binary search for the first node with a hash that is not smaller. The interval shrinks with
each step, so that the length of the ring bounds the number of steps. -/
def searchRing (hash : ℕ) : ℕ → ℤ → ℤ → ℤ → ℤ
  | 0, _, _, index => index
  | fuel + 1, low, high, index =>
    if low ≤ high then
      let mid := (low + high) / 2
      if ∃ node ∈ map.hashRing[mid.toNat]?, hash ≤ node.hash then
        searchRing hash fuel low (mid - 1) mid
      else
        searchRing hash fuel (mid + 1) high index
    else index

def consistentHash (key : String) : String :=
  let index := map.searchRing (env.hashString key) (map.hashRing.length + 1) 0 (map.hashRing.length - 1) 0
  match map.hashRing[index.toNat]? with
  | none => ""
  | some node => node.shardId

end ShardMap

/-- The properties of an object that the strategies read; they are undefined where the object does
not hold them. -/
structure ShardData where
  userId : Option ℤ := none
  id : Option String := none
  timestamp : Option ℤ := none
  createdAt : Option ℤ := none
  asset : Option String := none
  symbol : Option String := none
  json : String := ""
deriving DecidableEq

/-- The properties of an object. The asset of a balance is a relation that is not loaded. -/
def Entity.data : (entity : Entity) → entity.Draft → ShardData
  | .trade, draft =>
    { userId := draft.userId, id := draft.id, timestamp := draft.timestamp, createdAt := draft.createdAt,
      asset := draft.asset, json := env.stringify .trade draft }
  | .userBalance, draft =>
    { userId := draft.userId, id := draft.id.map toString, createdAt := draft.createdAt,
      json := env.stringify .userBalance draft }
  | .virtualAsset, draft =>
    { id := draft.id.map toString, createdAt := draft.createdAt, symbol := draft.symbol,
      json := env.stringify .virtualAsset draft }

/-- A key: a text, or a month. -/
inductive ShardKey : Type
  | text (key : String)
  | month (year : ℤ) (month : ℕ)
deriving DecidableEq

/-- `ShardingStrategy`. A key may be undefined, and so may a shard. -/
structure ShardingStrategy where
  name : String
  getShardKey : ShardData → Option ShardKey
  getShard : Option ShardKey → Except String (Option String)

/-- The exception of a hash of `undefined`. -/
def invalidArgType : String :=
  "The \"data\" argument must be of type string or an instance of Buffer, TypedArray, or DataView. Received undefined"

variable (map : ShardMap)

/-- The shard of a key on the ring. An empty ring is not searched. -/
def shardOnRing : Option ShardKey → Except String (Option String)
  | some (.text key) => .ok (some (map.consistentHash env key))
  | _ => if map.hashRing = [] then .ok (some "") else .error invalidArgType

def userStrategy : ShardingStrategy where
  name := "user"
  getShardKey := fun data => match data.userId with
    | some userId => some (.text (toString userId))
    | none => data.id.map .text
  getShard := shardOnRing env map

/-- The time strategy, at a time. -/
def timeStrategy (now : ℤ) : ShardingStrategy where
  name := "time"
  getShardKey := fun data =>
    let date := env.localMonth ((data.timestamp.orElse fun _ => data.createdAt).getD now)
    some (.month date.1 date.2)
  getShard := fun
    | some (.month year month) =>
      -- a negative year is split into an empty text and the year
      if year < 0 then .ok none
      else .ok map.shards[(year.toNat * 12 + month) % map.shards.length]?
    | _ => .ok none

def assetStrategy : ShardingStrategy where
  name := "asset"
  getShardKey := fun data => ((data.asset.filter (· ≠ "")).orElse fun _ => data.symbol).map .text
  getShard := fun
    | some (.text key) => .ok map.shards[env.hashString key % map.shards.length]?
    | _ => .error invalidArgType

/-- The strategy of consistent hashing. -/
def consistentStrategy : ShardingStrategy where
  name := "consistent"
  getShardKey := fun data => some (.text ((data.id.filter (· ≠ "")).getD data.json))
  getShard := shardOnRing env map

/-- The strategies, by their names. -/
def strategies (now : ℤ) : String → Option ShardingStrategy
  | "user" => some (userStrategy env map)
  | "time" => some (timeStrategy env map now)
  | "asset" => some (assetStrategy env map)
  | "consistent" => some (consistentStrategy env map)
  | _ => none

/-- The text of a shard id that may be undefined. -/
def shardText (shardId : Option String) : String := shardId.getD "undefined"

/-- The shard of an object that is looked up in the map. -/
def shardOf (strategy : ShardingStrategy) (data : ShardData) : Except String String := do
  let shardId ← strategy.getShard (strategy.getShardKey data)
  match shardId.filter (· ∈ map.shards) with
  | none => throw s!"Shard '{shardText shardId}' not found"
  | some shardId => return shardId

/-- `getRepository`: the shard of the repository. -/
def getRepository (now : ℤ) (data : ShardData) (strategy : String) : Except String String :=
  match strategies env map now strategy with
  | none => .error s!"Sharding strategy '{strategy}' not found"
  | some shardingStrategy => shardOf map shardingStrategy data

structure QueryPlan where
  shards : List String
  strategy : String
  parallel : Bool
  aggregationRequired : Bool
deriving DecidableEq

/-- The plan of a query on some shards. -/
def planOf (strategy : String) (shards : List String) : QueryPlan where
  shards := shards
  strategy := strategy
  parallel := 1 < shards.length
  aggregationRequired := 1 < shards.length

/-- `createQueryPlan`, for a time range with the time strategy when `timeRange` is set. -/
def createQueryPlan (now : ℤ) (strategy : String) (filters : Option ShardData) (timeRange : Bool) :
    Except String QueryPlan :=
  match strategies env map now strategy with
  | none => .error s!"Sharding strategy '{strategy}' not found"
  | some shardingStrategy =>
    if timeRange ∧ strategy = "time" then .ok (planOf strategy map.shards)
    else
      match filters.filter fun filters => filters.userId.getD 0 ≠ 0 ∧ strategy = "user" with
      | some filters => do
        let shardId ← shardingStrategy.getShard (shardingStrategy.getShardKey filters)
        return planOf strategy [shardText shardId]
      | none => .ok (planOf strategy map.shards)

section Ring

variable {env : Environment} {map : ShardMap}

/-- The ring has the nodes of the shards, and no others. -/
structure ShardMap.OnRing (map : ShardMap) : Prop where
  mem : ∀ node ∈ map.hashRing, node.shardId ∈ map.shards
  nonempty : map.shards ≠ [] → map.hashRing ≠ []

theorem onRing_empty : ShardMap.OnRing {} := ⟨fun _ h => absurd h List.not_mem_nil, fun h => absurd rfl h⟩

theorem mem_shards_addShard {shardId other : String} :
    other ∈ (map.addShard env shardId).shards ↔ other ∈ map.shards ∨ other = shardId := by
  change other ∈ (if shardId ∈ map.shards then map.shards else map.shards ++ [shardId]) ↔ _
  split
  next hold =>
    constructor
    · exact Or.inl
    · rintro (hmem | rfl)
      · exact hmem
      · exact hold
  next => rw [List.mem_append, List.mem_singleton]

theorem mem_hashRing_addShard {shardId : String} {node : RingNode} :
    node ∈ (map.addShard env shardId).hashRing ↔ node ∈ map.hashRing ∨ node ∈ ringNodes env shardId :=
  (List.mem_insertionSort _).trans List.mem_append

theorem ShardMap.OnRing.addShard (h : map.OnRing) (shardId : String) : (map.addShard env shardId).OnRing := by
  constructor
  · intro node hnode
    apply mem_shards_addShard.mpr
    rcases mem_hashRing_addShard.mp hnode with hold | hnew
    · exact .inl (h.mem node hold)
    · obtain ⟨i, -, rfl⟩ := List.mem_map.mp hnew
      exact .inr rfl
  · intro _
    have hfirst : (⟨env.hashString s!"{shardId}:{0}", shardId⟩ : RingNode) ∈ ringNodes env shardId :=
      List.mem_map.mpr ⟨0, List.mem_range.mpr (by decide), rfl⟩
    exact List.ne_nil_of_mem (mem_hashRing_addShard.mpr (.inr hfirst))

theorem searchRing_spec (map : ShardMap) (hash fuel : ℕ) (low high index : ℤ) :
    map.searchRing hash fuel low high index = index ∨
      ∃ node, map.hashRing[(map.searchRing hash fuel low high index).toNat]? = some node := by
  induction fuel generalizing low high index with
  | zero => exact .inl rfl
  | succ fuel ih =>
    unfold ShardMap.searchRing
    split
    · dsimp only
      split
      next hnode =>
        obtain ⟨node, hnode, -⟩ := hnode
        rcases ih low ((low + high) / 2 - 1) ((low + high) / 2) with hsame | hfound
        · exact .inr ⟨node, by rw [hsame]; exact hnode⟩
        · exact .inr hfound
      next => exact ih _ _ _
    · exact .inl rfl

/-- A lookup on the ring finds a shard of the map. -/
theorem ShardMap.OnRing.consistentHash (h : map.OnRing) (hshards : map.shards ≠ []) (key : String) :
    map.consistentHash env key ∈ map.shards := by
  unfold ShardMap.consistentHash
  have hring := h.nonempty hshards
  have hspec := searchRing_spec map (env.hashString key) (map.hashRing.length + 1) 0 (map.hashRing.length - 1) 0
  generalize map.searchRing (env.hashString key) (map.hashRing.length + 1) 0 (map.hashRing.length - 1) 0 = index
    at hspec
  have hnode : ∃ node, map.hashRing[index.toNat]? = some node := by
    rcases hspec with rfl | hfound
    · obtain ⟨node, rest, hnodes⟩ := List.exists_cons_of_ne_nil hring
      exact ⟨node, by rw [hnodes]; rfl⟩
    · exact hfound
  obtain ⟨node, hnode⟩ := hnode
  dsimp only
  rw [hnode]
  exact h.mem node (List.mem_of_getElem? hnode)

end Ring

end Sharding
